import HyperFileLens.Lens.RunSubmissions

/-!
# One Run for each question

What every run of submissions and recoveries keeps: a session has one pending
submission at most, a key has one submission, and a bound submission stays bound to its
Run (`Submissions.Sound`, `RowKept`).

*Claims.*  `record_submission_error` is not given the claim of its caller. A worker
leaves the claim of a successor alone exactly if it records an error only while no other
claim is on the submission (`RecordsOwn`).
-/

namespace HyperFileLens.Lens.Runs

open Service Transition

variable {db db' : Submissions}

/-! ## Rows -/

structure Submissions.Sound (db : Submissions) : Prop where
  ids : (db.submissions.map RunSubmission.id).Nodup
  keys : ∀ r ∈ db.submissions, ∀ r' ∈ db.submissions, r.sessionLink = r'.sessionLink →
    r.idempotencyKey = r'.idempotencyKey → r = r'
  pending : ∀ r ∈ db.submissions, ∀ r' ∈ db.submissions, r.sessionLink = r'.sessionLink →
    r.status = .pending → r'.status = .pending → r = r'

structure RowKept (r r' : RunSubmission) : Prop where
  id : r'.id = r.id
  sessionLink : r'.sessionLink = r.sessionLink
  idempotencyKey : r'.idempotencyKey = r.idempotencyKey
  pending : r'.status = .pending → r.status = .pending
  bound : r.status = .bound → r'.status = .bound ∧ r'.slRunUuid = r.slRunUuid

variable {r submission : RunSubmission} {link : SessionLink} {o : Outside} {a : RunRequest}

variable {r' row s : RunSubmission} {f : RunSubmission → RunSubmission}
    {acc : Submissions × List (Nat × Nat)}

theorem RowKept.refl (r : RunSubmission) : RowKept r r :=
  ⟨rfl, rfl, rfl, fun h => h, fun h => ⟨h, rfl⟩⟩

theorem RowKept.trans {r'' : RunSubmission} (h : RowKept r r') (h' : RowKept r' r'') :
    RowKept r r'' where
  id := h'.id.trans h.id
  sessionLink := h'.sessionLink.trans h.sessionLink
  idempotencyKey := h'.idempotencyKey.trans h.idempotencyKey
  pending := fun hp => h.pending (h'.pending hp)
  bound := fun hb => by
    obtain ⟨hbound, hrun⟩ := h.bound hb
    obtain ⟨hbound', hrun'⟩ := h'.bound hbound
    exact ⟨hbound', hrun'.trans hrun⟩

theorem RowKept.of_pending (hid : r'.id = r.id) (hlink : r'.sessionLink = r.sessionLink)
    (hkey : r'.idempotencyKey = r.idempotencyKey) (hpending : r.status = .pending) :
    RowKept r r' :=
  ⟨hid, hlink, hkey, fun _ => hpending, fun hb => by rw [hpending] at hb; cases hb⟩

/-- The submissions stay sound, and each of them is kept. -/
structure Onward (db db' : Submissions) : Prop where
  sound : db'.Sound
  kept : ∀ r ∈ db.submissions, ∃ r' ∈ db'.submissions, RowKept r r'

theorem Onward.refl (h : db.Sound) : Onward db db := ⟨h, fun r hr => ⟨r, hr, .refl r⟩⟩

theorem Onward.trans {db'' : Submissions} (h : Onward db db') (h' : Onward db' db'') :
    Onward db db'' := by
  refine ⟨h'.sound, fun r hr => ?_⟩
  obtain ⟨r', hr', hkept⟩ := h.kept r hr
  obtain ⟨r'', hr'', hkept'⟩ := h'.kept r' hr'
  exact ⟨r'', hr'', hkept.trans hkept'⟩

theorem Onward.of_submissions (h : db.Sound) (heq : db'.submissions = db.submissions) :
    Onward db db' := by
  refine ⟨⟨?_, ?_, ?_⟩, fun r hr => ⟨r, heq ▸ hr, .refl r⟩⟩
  · exact heq ▸ h.ids
  · exact heq ▸ h.keys
  · exact heq ▸ h.pending

theorem Onward.of_map (h : db.Sound) (hf : ∀ r ∈ db.submissions, RowKept r (f r))
    (heq : db'.submissions = db.submissions.map f) : Onward db db' := by
  refine ⟨⟨?_, ?_, ?_⟩, fun r hr => ⟨f r, heq ▸ List.mem_map_of_mem hr, hf r hr⟩⟩
  · have hids : (db.submissions.map f).map RunSubmission.id =
        db.submissions.map RunSubmission.id := by
      rw [List.map_map]
      exact List.map_congr_left fun r hr => (hf r hr).id
    rw [heq, hids]
    exact h.ids
  · rw [heq]
    intro p' hp' q' hq' hlink hkey
    obtain ⟨p, hp, rfl⟩ := List.mem_map.mp hp'
    obtain ⟨q, hq, rfl⟩ := List.mem_map.mp hq'
    rw [(hf p hp).sessionLink, (hf q hq).sessionLink] at hlink
    rw [(hf p hp).idempotencyKey, (hf q hq).idempotencyKey] at hkey
    rw [h.keys p hp q hq hlink hkey]
  · rw [heq]
    intro p' hp' q' hq' hlink hpp hpq
    obtain ⟨p, hp, rfl⟩ := List.mem_map.mp hp'
    obtain ⟨q, hq, rfl⟩ := List.mem_map.mp hq'
    rw [(hf p hp).sessionLink, (hf q hq).sessionLink] at hlink
    rw [h.pending p hp q hq hlink ((hf p hp).pending hpp) ((hf q hq).pending hpq)]

theorem Onward.of_update (h : db.Sound) {k : Nat}
    (hf : ∀ r ∈ db.submissions, r.id = k → RowKept r (f r))
    (heq : db'.submissions = Table.update RunSubmission.id db.submissions k f) : Onward db db' := by
  refine .of_map h (fun r hr => ?_) heq
  split
  · rename_i hid
    exact hf r hr hid
  · exact .refl r

/-! ## Queries -/

variable {id : Nat}

theorem Submissions.Sound.eq_of_find (h : db.Sound)
    (hfind : Table.find RunSubmission.id db.submissions id = some submission)
    (hr : r ∈ db.submissions) (hid : r.id = id) : r = submission := by
  obtain ⟨hmem, hid'⟩ := Table.mem_of_find hfind
  exact Table.Keyed.of_nodup h.ids r hr submission hmem (hid.trans hid'.symm)

theorem onward_setSubmission (h : db.Sound)
    (hfind : Table.find RunSubmission.id db.submissions id = some submission)
    (hkept : RowKept submission row) : Onward db (db.setSubmission row) := by
  refine .of_update h (fun r hr hid => ?_) rfl
  have hid' : r.id = id := hid.trans (hkept.id.trans (Table.mem_of_find hfind).2)
  rwa [h.eq_of_find hfind hr hid']

theorem newId_ne (db : Submissions) (hr : r ∈ db.submissions) : r.id ≠ db.newId :=
  Nat.ne_of_lt (Table.lt_fresh (List.mem_map_of_mem hr))

theorem onward_insert (h : db.Sound) {inserted : RunSubmission}
    (hinsert : db.insert row = .ok (inserted, db')) : Onward db db' := by
  rw [Submissions.insert] at hinsert
  split at hinsert
  · cases hinsert
  · rename_i hfree
    cases hinsert
    simp only [Submissions.violates, Bool.not_eq_true, List.any_eq_false, Bool.and_eq_true,
      Bool.or_eq_true, decide_eq_true_eq, not_and, not_or, ne_eq] at hfree
    have hother : ∀ r ∈ db.submissions, (r.sessionLink = row.sessionLink →
        ¬r.idempotencyKey = row.idempotencyKey) ∧
        (r.sessionLink = row.sessionLink → r.status = .pending → ¬row.status = .pending) := by
      intro r hr
      obtain ⟨⟨hkey, hpending⟩, _⟩ := hfree r hr (newId_ne db hr)
      exact ⟨hkey, fun hlink hp => hpending ⟨hlink, hp⟩⟩
    refine ⟨⟨?_, ?_, ?_⟩, fun r hr => ⟨r, List.mem_cons_of_mem _ hr, .refl r⟩⟩
    · refine List.nodup_cons.mpr ⟨fun hmem => ?_, h.ids⟩
      obtain ⟨r, hr, hid⟩ := List.mem_map.mp hmem
      exact newId_ne db hr hid
    · intro p hp q hq hlink hkey
      cases hp with
      | head =>
        cases hq with
        | head => rfl
        | tail _ hq => exact absurd hkey.symm ((hother q hq).1 hlink.symm)
      | tail _ hp =>
        cases hq with
        | head => exact absurd hkey ((hother p hp).1 hlink)
        | tail _ hq => exact h.keys p hp q hq hlink hkey
    · intro p hp q hq hlink hpp hpq
      cases hp with
      | head =>
        cases hq with
        | head => rfl
        | tail _ hq => exact absurd hpp ((hother q hq).2 hlink.symm hpq)
      | tail _ hp =>
        cases hq with
        | head => exact absurd hpq ((hother p hp).2 hlink hpp)
        | tail _ hq => exact h.pending p hp q hq hlink hpp hpq

/-! ## Transactions -/

theorem onward_resolveActiveRun (h : db.Sound) {active : Option (RunPayload × SessionLink)}
    (hresolve : db.resolveActiveRun link o = .ok (active, db')) : Onward db db' := by
  have hstatus : ∀ run status, Onward db (db.setRunStatus run status) := fun run status => by
    refine .of_map h (fun r _ => ?_) rfl
    split
    · exact ⟨rfl, rfl, rfl, fun hp => hp, fun hb => ⟨hb, rfl⟩⟩
    · exact .refl r
  rw [Submissions.resolveActiveRun] at hresolve
  split at hresolve
  · cases hresolve
    exact .refl h
  · rename_i run _
    split at hresolve
    · cases hresolve
      exact .of_submissions h rfl
    · cases hresolve
    · rename_i payload _
      have hset : Onward db
          (if payload.status ≠ "" then db.setRunStatus run payload.status else db) := by
        split
        · exact hstatus run payload.status
        · exact .refl h
      dsimp only at hresolve
      split at hresolve
      · cases hresolve
        exact hset.trans (.of_submissions hset.sound rfl)
      · split at hresolve
        · cases hresolve
          exact hset.trans (.of_submissions hset.sound rfl)
        · cases hresolve
          exact hset

variable {answer : RunSubmission × Option RunPayload}

theorem onward_prepareActive (h : db.Sound) {activeRun : RunPayload}
    (hprepare : db.prepareActive link activeRun a o = .ok (answer, db')) : Onward db db' := by
  rw [Submissions.prepareActive] at hprepare
  cases hactive : db.submissionForActiveRun link with
  | some submission =>
    simp only [hactive] at hprepare
    split at hprepare
    · split at hprepare
      · cases hprepare
      · cases hprepare
        exact .refl h
    · cases hprepare
  | none =>
    simp only [hactive] at hprepare
    split at hprepare
    · obtain ⟨⟨row, db₁⟩, hinsert, hrest⟩ := bind_eq_ok.mp hprepare
      cases hrest
      exact onward_insert h hinsert
    · cases hprepare

theorem onward_prepareIdle (h : db.Sound) (hprepare : db.prepareIdle link a o = .ok (answer, db')) :
    Onward db db' := by
  rw [Submissions.prepareIdle] at hprepare
  split at hprepare
  · split at hprepare
    · cases hprepare
    · split at hprepare
      · obtain ⟨run, _, hrest⟩ := bind_eq_ok.mp hprepare
        cases hrest
        exact .refl h
      · cases hprepare
      · cases hprepare
        exact .refl h
  · split at hprepare
    · cases hprepare
    · split at hprepare
      · cases hprepare
      · obtain ⟨⟨row, db₁⟩, hinsert, hrest⟩ := bind_eq_ok.mp hprepare
        cases hrest
        exact onward_insert h hinsert

theorem onward_prepareSubmission (h : db.Sound) {linkId : Nat}
    (hprepare : db.prepareSubmission linkId a o = .ok (answer, db')) : Onward db db' := by
  rw [Submissions.prepareSubmission] at hprepare
  split at hprepare
  · cases hprepare
  · obtain ⟨⟨active, db₁⟩, hresolve, hrest⟩ := bind_eq_ok.mp hprepare
    have hfirst := onward_resolveActiveRun h hresolve
    cases active with
    | none => exact hfirst.trans (onward_prepareIdle hfirst.sound hrest)
    | some active => exact hfirst.trans (onward_prepareActive hfirst.sound hrest)

theorem checkExecutable_send {token : Option Nat} {slSessionUuid : String}
    (h : db.checkExecutable id token = .ok (.send submission link slSessionUuid)) :
    Table.find RunSubmission.id db.submissions id = some submission ∧
      submission.status = .pending ∧ (token.isSome → submission.recoveryClaimToken = token) := by
  rw [Submissions.checkExecutable] at h
  cases hfind : Table.find RunSubmission.id db.submissions id with
  | none => simp [hfind] at h
  | some row =>
    simp only [hfind] at h
    split at h
    · cases h
    · split at h
      · cases h
      · rename_i hclaim
        split at h
        · cases h
        · rename_i hpending
          have hrow : row = submission := by
            split at h
            · cases h
            · split at h
              · cases h
              · split at h
                · cases h
                · split at h
                  · cases h
                  · exact (Submissions.Executable.send.inj (Except.ok.inj h)).1
          subst hrow
          refine ⟨rfl, not_not.mp hpending, fun hsome => ?_⟩
          simpa [hsome] using hclaim

theorem onward_bind (h : db.Sound) {run : Nat} {status : String}
    (hfind : Table.find RunSubmission.id db.submissions id = some submission)
    (hpending : submission.status = .pending)
    (hbind : db.bind submission link run status o = .ok db') : Onward db db' := by
  rw [Submissions.bind] at hbind
  dsimp only at hbind
  split at hbind
  · cases hbind
  · have hkept : RowKept submission (Submissions.boundTo submission run status) :=
      .of_pending rfl rfl rfl hpending
    have hset := onward_setSubmission h hfind hkept
    cases hbind
    split
    · exact hset
    · exact hset.trans (.of_submissions hset.sound rfl)

theorem createRun_submissions (db : Submissions) (slSessionUuid key : String) (uuid : Nat) :
    (db.createRun slSessionUuid key uuid).2.submissions = db.submissions := by
  rw [Submissions.createRun]
  split <;> rfl

theorem onward_executeSubmission (h : db.Sound) (id : Nat) (token : Option Nat) (o : Outside) :
    Onward db (db.executeSubmission id token o).2 := by
  rw [Submissions.executeSubmission]
  split
  · exact .refl h
  · exact .refl h
  · rename_i submission link slSessionUuid hcheck
    obtain ⟨hfind, hpending, -⟩ := checkExecutable_send hcheck
    -- The Run exists, and the submission is as it was until it is bound.
    have hsame := createRun_submissions db slSessionUuid submission.idempotencyKey o.runUuid
    have hcreated := Onward.of_submissions h hsame
    cases o.posted with
    | refused statusCode => exact .refl h
    | lost statusCode => exact hcreated
    | omitted => exact hcreated
    | malformed => exact hcreated
    | otherKey => exact hcreated
    | created status =>
      dsimp only
      split
      · exact hcreated
      · rename_i hbind
        rw [← hsame] at hfind
        exact hcreated.trans (onward_bind hcreated.sound hfind hpending hbind)

theorem onward_recordSubmissionError (h : db.Sound) (id : Nat) (error : String) (retryable : Bool)
    (now : Int) : Onward db (db.recordSubmissionError id error retryable now) := by
  rw [Submissions.recordSubmissionError]
  split
  · exact .refl h
  · rename_i submission hfind
    split
    · exact .refl h
    · rename_i hpending
      exact onward_setSubmission h hfind (.of_pending rfl rfl rfl (not_not.mp hpending))

theorem onward_deferClaimedSubmission (h : db.Sound) (id token : Nat) (now : Int) :
    Onward db (db.deferClaimedSubmission id token now) := by
  refine .of_update h (fun r _ _ => ?_) rfl
  split
  · rename_i hpending
    exact .of_pending rfl rfl rfl hpending.1
  · exact .refl r

theorem onward_claim (h : acc.1.Sound) (o : Outside) (s : RunSubmission) :
    Onward acc.1 (Submissions.claim o acc s).1 :=
  Onward.of_update h (k := s.id) (f := fun r => { r with
      recoveryClaimToken := some acc.1.nextToken, recoveryClaimedAt := some o.now })
    (fun _ _ _ => ⟨rfl, rfl, rfl, fun hp => hp, fun hb => ⟨hb, rfl⟩⟩) rfl

theorem onward_claims (h : acc.1.Sound) (o : Outside) (rows : List RunSubmission) :
    Onward acc.1 (rows.foldl (Submissions.claim o) acc).1 := by
  induction rows generalizing acc with
  | nil => exact .refl h
  | cons s rows ih =>
    have hfirst := onward_claim h o s
    exact hfirst.trans (ih hfirst.sound)

theorem onward_respond (h : db.Sound) (r : SubmissionReq) (o : Outside) :
    Onward db (respond db r o).2 := by
  cases r with
  | prepare linkId a =>
    rw [respond]
    split
    · exact .refl h
    · rename_i hprepare
      split
      · exact .refl h
      · exact onward_prepareSubmission h hprepare
  | execute id token => exact onward_executeSubmission h id token o
  | recordError id error retryable claim => exact onward_recordSubmissionError h id error retryable _
  | defer id token => exact onward_deferClaimedSubmission h id token _
  | claimDue limit =>
    have hstart : Submissions.Sound (db, ([] : List (Nat × Nat))).1 := h
    exact onward_claims hstart o _
  | maintenance | dispatch => exact .refl h

/-! ## Claims -/

/-- The recovery worker that makes a call: its submission and its claim. -/
def SubmissionReq.worker : SubmissionReq → Option (Nat × Nat)
  | .execute id (some token) => some (id, token)
  | .recordError id _ _ (some token) => some (id, token)
  | .defer id token => some (id, token)
  | _ => none

/-- A worker whose claim was replaced leaves the claim of its successor, and the
submission does not fail. -/
def SuccessorKept (db db' : Submissions) (r : SubmissionReq) : Prop :=
  ∀ id token, r.worker = some (id, token) →
    ∀ s ∈ db.submissions, s.id = id → s.status = .pending →
      ∀ successor, s.recoveryClaimToken = some successor → successor ≠ token →
        ∃ s' ∈ db'.submissions, s'.id = id ∧ s'.recoveryClaimToken = some successor ∧
          s'.status ≠ .failed

/-- A worker records an error only while no other claim is on its submission. -/
def RecordsOwn (db : Submissions) : SubmissionReq → Prop
  | .recordError id _ _ (some token) => ∀ s ∈ db.submissions, s.id = id → s.status = .pending →
      s.recoveryClaimToken = none ∨ s.recoveryClaimToken = some token
  | _ => True

instance (db : Submissions) (r : SubmissionReq) : Decidable (RecordsOwn db r) := by
  cases r with
  | recordError id error retryable claim =>
    cases claim with
    | none => exact isTrue trivial
    | some token => exact inferInstanceAs (Decidable (∀ s ∈ db.submissions, _ → _ → _))
  | _ => exact isTrue trivial

theorem executeSubmission_of_replaced (h : db.Sound) (hs : s ∈ db.submissions) {token : Nat}
    (hpending : s.status = .pending) (hne : s.recoveryClaimToken ≠ some token) (o : Outside) :
    (db.executeSubmission s.id (some token) o).2 = db := by
  have hfind : Table.find RunSubmission.id db.submissions s.id = some s :=
    (Table.Keyed.of_nodup h.ids).find_eq hs
  have hcheck : db.checkExecutable s.id (some token) =
      .error (.claimLost "Run submission recovery claim is no longer valid.") := by
    simp [Submissions.checkExecutable, hfind, hpending, hne]
  rw [Submissions.executeSubmission, hcheck]

theorem recoveryClaimToken_recordSubmissionError (h : db.Sound) (hs : s ∈ db.submissions)
    (hpending : s.status = .pending) (error : String) (retryable : Bool) (now : Int) :
    ∀ s' ∈ (db.recordSubmissionError s.id error retryable now).submissions, s'.id = s.id →
      s'.recoveryClaimToken = none := by
  intro s' hs' hid
  have hfind : Table.find RunSubmission.id db.submissions s.id = some s :=
    (Table.Keyed.of_nodup h.ids).find_eq hs
  rw [Submissions.recordSubmissionError, hfind] at hs'
  dsimp only at hs'
  rw [if_neg (not_not.mpr hpending)] at hs'
  rcases Table.mem_update.mp hs' with ⟨_, _, _, rfl⟩ | ⟨_, hne⟩
  · rfl
  · exact absurd hid hne

/-- A worker leaves its successor alone exactly if it records errors under its own claim. -/
theorem successorKept_iff (h : db.Sound) (r : SubmissionReq) (o : Outside) :
    SuccessorKept db (respond db r o).2 r ↔ RecordsOwn db r := by
  cases r with
  | execute id token =>
    refine ⟨fun _ => trivial, fun _ => ?_⟩
    rintro id' token' hworker s hs rfl hpending successor hclaim hne
    cases token with
    | none => cases hworker
    | some token =>
      obtain ⟨rfl, rfl⟩ := Prod.mk.inj (Option.some.inj hworker)
      have hsame : (respond db (.execute s.id (some token)) o).2 = db := by
        refine executeSubmission_of_replaced h hs hpending ?_ o
        rw [hclaim]
        exact fun heq => hne (Option.some.inj heq)
      rw [hsame]
      exact ⟨s, hs, rfl, hclaim, by rw [hpending]; exact SubmissionStatus.noConfusion⟩
  | recordError id error retryable claim =>
    cases claim with
    | none => exact ⟨fun _ => trivial, fun _ _ _ hworker => by cases hworker⟩
    | some token =>
      constructor
      · rintro hkept s hs rfl hpending
        cases hclaim : s.recoveryClaimToken with
        | none => exact .inl rfl
        | some successor =>
          right
          by_contra hne
          obtain ⟨s', hs', hid, hclaim', -⟩ := hkept s.id token rfl s hs rfl hpending
            successor hclaim fun heq => hne (congrArg some heq)
          have hnone := recoveryClaimToken_recordSubmissionError h hs hpending error
            retryable o.now s' hs' hid
          rw [hnone] at hclaim'
          cases hclaim'
      · rintro hown id' token' hworker s hs rfl hpending successor hclaim hne
        obtain ⟨rfl, rfl⟩ := Prod.mk.inj (Option.some.inj hworker)
        rcases hown s hs rfl hpending with hnone | hsame
        · rw [hnone] at hclaim
          cases hclaim
        · exact absurd (Option.some.inj (hclaim.symm.trans hsame)) hne
  | defer id token =>
    refine ⟨fun _ => trivial, fun _ => ?_⟩
    rintro id' token' hworker s hs rfl hpending successor hclaim hne
    obtain ⟨rfl, rfl⟩ := Prod.mk.inj (Option.some.inj hworker)
    refine ⟨s, Table.mem_update.mpr (.inl ⟨s, hs, rfl, if_neg ?_⟩), rfl, hclaim, ?_⟩
    · rintro ⟨-, heq⟩
      exact hne (Option.some.inj (hclaim.symm.trans heq))
    · rw [hpending]
      exact SubmissionStatus.noConfusion
  | prepare | claimDue | maintenance | dispatch =>
    exact ⟨fun _ => trivial, fun _ _ _ hworker => by cases hworker⟩

/-! ## Runs -/

def runStart (db : Submissions) : RunPool := ⟨db, fun _ => none, 0⟩

def callOf (s : RunPool) : RunEvent → Option SubmissionReq
  | .call i _ =>
    match s.client i with
    | some (_, .call r _) => some r
    | _ => none
  | _ => none

/-- What a step keeps: one pending submission in a session, one Run for a key, a bound
submission bound to its Run, and the claims of successors. -/
structure StepKept (s : RunPool) (a : RunEvent) (s' : RunPool) : Prop where
  pending : ∀ link, (s'.state.submissions.filter fun r =>
    r.sessionLink = link && r.status = .pending).length ≤ 1
  single : ∀ r ∈ s'.state.submissions, ∀ r' ∈ s'.state.submissions,
    r.sessionLink = r'.sessionLink → r.idempotencyKey = r'.idempotencyKey →
      r.status = .bound → r'.status = .bound → r.slRunUuid = r'.slRunUuid
  bound : ∀ r ∈ s.state.submissions, r.status = .bound → ∃ r' ∈ s'.state.submissions,
    r'.sessionLink = r.sessionLink ∧ r'.idempotencyKey = r.idempotencyKey ∧
      r'.status = .bound ∧ r'.slRunUuid = r.slRunUuid
  successor : ∀ r ∈ callOf s a, SuccessorKept s.state s'.state r

def RecordsOwnStep (s : RunPool) (a : RunEvent) : Prop :=
  ∀ r ∈ callOf s a, RecordsOwn s.state r

instance (s : RunPool) (a : RunEvent) : Decidable (RecordsOwnStep s a) :=
  inferInstanceAs (Decidable (∀ r ∈ callOf s a, _))

variable {s s' : RunPool} {a : RunEvent}

theorem onward_of_step (h : s.state.Sound) (hs : (runSubmissions db).step s a = some s') :
    Onward s.state s'.state := by
  have hs : poolStep database SubmissionJob.body
      (fun db (sessions : List SessionLink) => { db with sessions := sessions }) s a = some s' := hs
  cases a with
  | start job =>
    cases hs
    exact .refl h
  | call i o =>
    obtain ⟨job, r, k, _, rfl⟩ := poolStep_call hs
    exact onward_respond h r o
  | env sessions =>
    cases hs
    exact .of_submissions h rfl

/-- A step keeps all of it exactly if it records an error under its own claim. -/
theorem stepKept_iff (h : s.state.Sound) (hs : (runSubmissions db).step s a = some s') :
    StepKept s a s' ↔ RecordsOwnStep s a := by
  have honward := onward_of_step h hs
  have hsuccessor : (∀ r ∈ callOf s a, SuccessorKept s.state s'.state r) ↔ RecordsOwnStep s a := by
    refine forall₂_congr fun r hr => ?_
    have hs : poolStep database SubmissionJob.body
        (fun db (sessions : List SessionLink) => { db with sessions := sessions }) s a = some s' := hs
    cases a with
    | start job => cases hr
    | env sessions => cases hr
    | call i o =>
      obtain ⟨job, r', k, hclient, rfl⟩ := poolStep_call hs
      obtain rfl : r' = r := by simpa [callOf, hclient] using hr
      exact successorKept_iff h r' o
  refine ⟨fun hkept => hsuccessor.mp hkept.successor, fun hown => ⟨?_, ?_, ?_, hsuccessor.mpr hown⟩⟩
  · intro link
    refine Table.length_filter_le_one honward.sound.ids fun r hr r' hr' hp hp' => ?_
    simp only [Bool.and_eq_true, decide_eq_true_eq] at hp hp'
    rw [honward.sound.pending r hr r' hr' (hp.1.trans hp'.1.symm) hp.2 hp'.2]
  · intro r hr r' hr' hlink hkey _ _
    rw [honward.sound.keys r hr r' hr' hlink hkey]
  · intro r hr hbound
    obtain ⟨r', hr', hkept⟩ := honward.kept r hr
    exact ⟨r', hr', hkept.sessionLink, hkept.idempotencyKey, hkept.bound hbound⟩

def oneSession : Submissions where
  sessions := [{ id := 1, hflUser := some 7, slSessionUuid := some "sl" }]

/-- A question is asked, and SourceLens does not answer. -/
def askUnanswered : List RunEvent :=
  [.start (.createRun 1 { question := "q", idempotencyKey := "k" }), .call 0 {}, .call 0 {}, .call 0 {},
    .call 0 { posted := .lost 503, runUuid := 5 }, .call 0 {}]

/-- A worker claims the submission after the retry delay and asks again. -/
def recovered : List RunEvent :=
  askUnanswered ++ [.start (.reconcile 100), .call 1 { now := 10 }, .call 1 {}, .start (.recover 1 0),
    .call 2 {}, .call 2 { posted := .created "queued", runUuid := 6 }]

/-- The recovery is refused, and before the worker records it, another one has claimed the
submission. -/
def overtaken : List RunEvent :=
  askUnanswered ++ [.start (.reconcile 100), .call 1 { now := 10 }, .call 1 {}, .start (.recover 1 0),
    .call 2 {}, .call 2 { posted := .refused 400 },
    .start (.reconcile 100), .call 3 { now := 200 }]

def overtakenState : RunPool :=
  ((runSubmissions oneSession).exec (runStart oneSession) overtaken).get (by decide +kernel)

def failedState : RunPool :=
  ((runSubmissions oneSession).step overtakenState (.call 2 { now := 201 })).get (by decide +kernel)

end HyperFileLens.Lens.Runs
