import HyperFileLens.Agent.ResumableDownload

/-!
# A resumed download holds one version

Between two attempts the part file holds the start of the version whose validators are
remembered (`Sound`). A range is appended only when the server found the validator to be that
of the version it serves, so the bytes of the range belong to the same version.

The exception is a range that breaks off behind the last byte that its header names. A whole
one is rejected and the part file removed, but this one is taken for a stream that failed, and
the next attempt resumes behind the surplus bytes (`not_never_splices`).
-/

namespace HyperFileLens.Agent.NeverSplices

open ResumableDownload

variable {versions : List Version}

/-- The part file holds the start of a version, and the validators are those of the version. -/
structure Sound (versions : List Version) (s : State) : Prop where
  dir : s.part ≠ none → s.dir = true
  part : ∀ bytes, s.part = some bytes → bytes ≠ [] → ∃ v ∈ versions,
    bytes <+: v.content ∧ s.validator.etag = v.etag ∧
      s.validator.lastModified = v.lastModified ∧
      ∀ n ∈ s.validator.totalBytes, n = v.content.length

theorem Sound.of_none {s : State} (h : s.part = none) : Sound versions s where
  dir hne := absurd h hne
  part bytes hbytes := by
    rw [h] at hbytes
    cases hbytes

/-! ## The destination -/

/-- An attempt that succeeds leaves no part file, and one that fails leaves the destination. -/
def Frames (s : State) (result : Option Failure × State) : Prop :=
  match result.1 with
  | none => result.2.part = none
  | some _ => result.2.dest = s.dest

variable {s s' : State}

theorem frames_promote (t : Try) (hdest : s'.dest = s.dest) : Frames s (promote t s') := by
  rw [promote]
  cases t.closeFails with
  | some temporary => exact hdest
  | none =>
    cases t.renameFails with
    | some temporary => exact hdest
    | none => exact rfl

theorem frames_restart (t : Try) (resp : Response) (hdest : s'.dest = s.dest) :
    Frames s (restart t resp s') := by
  rw [restart]
  cases mkdirError t s' with
  | some temporary => exact hdest
  | none =>
    cases t.openFails with
    | some temporary => exact hdest
    | none =>
      cases resp.broken with
      | some err => exact hdest
      | none =>
        show Frames s (ite _ _ _)
        split
        · exact hdest
        · exact frames_promote t hdest

theorem frames_finishRange (t : Try) (resp : Response) (resumeBytes stop total : Nat)
    (hdest : s'.dest = s.dest) : Frames s (finishRange t resp resumeBytes stop total s') := by
  rw [finishRange]
  cases resp.broken with
  | some err => exact hdest
  | none =>
    simp only
    split
    · exact hdest
    · split
      · exact hdest
      · split
        · exact hdest
        · split
          · exact hdest
          · exact frames_promote t hdest

theorem frames_appendRange (t : Try) (resp : Response) (resumeBytes : Nat) (s : State) :
    Frames s (appendRange t resp resumeBytes s) := by
  rw [appendRange]
  cases mkdirError t s with
  | some temporary => exact rfl
  | none =>
    simp only
    split
    · split
      · exact rfl
      · split
        · exact rfl
        · split
          · exact rfl
          · cases t.openFails with
            | some temporary => exact rfl
            | none =>
              cases t.statFails with
              | some temporary => exact rfl
              | none =>
                simp only
                split
                · exact rfl
                · exact frames_finishRange t resp resumeBytes _ _ rfl
    · exact rfl

theorem frames_downloadURLAttempt (t : Try) (s : State) : Frames s (downloadURLAttempt t s) := by
  rw [downloadURLAttempt]
  cases t.serve (requestOf t s) with
  | error temporary => exact rfl
  | ok resp =>
    simp only
    split
    · exact rfl
    · split
      · exact rfl
      · split
        · exact rfl
        · split
          · exact frames_restart t resp rfl
          · split
            · exact rfl
            · exact frames_appendRange t resp _ s

/-- A call leaves no part file, and when it fails the destination is as it was. -/
theorem attempts_frames (tries : List Try) {s : State} (hleft : tries ≠ [] ∨ s.part = none) :
    (attempts tries s).2.part = none ∧
      ((attempts tries s).1 ≠ none → (attempts tries s).2.dest = s.dest) := by
  induction tries generalizing s with
  | nil => exact ⟨hleft.resolve_left fun h => h rfl, fun _ => rfl⟩
  | cons t rest ih =>
    have hframes := frames_downloadURLAttempt t s
    rw [attempts]
    split
    · exact ⟨rfl, fun _ => rfl⟩
    · generalize downloadURLAttempt t s = result at hframes
      obtain ⟨err, s'⟩ := result
      cases err with
      | none => exact ⟨hframes, fun hne => absurd rfl hne⟩
      | some err =>
        have hdest : s'.dest = s.dest := hframes
        simp only
        split
        · exact ⟨rfl, fun _ => hdest⟩
        · split
          · exact ⟨rfl, fun _ => hdest⟩
          · rename_i hlast
            have hrest : rest ≠ [] := by
              rintro rfl
              exact hlast (Bool.or_true _)
            split
            · exact ⟨rfl, fun _ => hdest⟩
            · split
              · obtain ⟨hpart, hkept⟩ := @ih (removePart s') (.inl hrest)
                exact ⟨hpart, fun hne => (hkept hne).trans hdest⟩
              · obtain ⟨hpart, hkept⟩ := @ih s' (.inl hrest)
                exact ⟨hpart, fun hne => (hkept hne).trans hdest⟩

/-! ## How an attempt ends -/

/-- An attempt ends with a version at the destination, or with an error. After a range that is
not accepted the part file is removed. -/
def Ends (versions : List Version) (result : Option Failure × State) : Prop :=
  match result.1 with
  | none => ∃ v ∈ versions, result.2.dest = some v.content
  | some err => err ≠ .rangeRejected → Sound versions result.2

theorem ends_rejected (s : State) : Ends versions (some .rangeRejected, s) :=
  fun hne => absurd rfl hne

variable {v : Version}

theorem ends_promote (t : Try) {s : State} (hv : v ∈ versions) (hpart : s.part = some v.content)
    (h : Sound versions s) : Ends versions (promote t s) := by
  rw [promote]
  cases t.closeFails with
  | some temporary => exact fun _ => h
  | none =>
    cases t.renameFails with
    | some temporary => exact fun _ => h
    | none => exact ⟨v, hv, hpart⟩

/-! ## A new part file -/

theorem ends_restart (t : Try) {req : Request} {resp : Response} (hhonest : Honest versions req resp)
    (hstatus : resp.status = 200) {s : State} (hdir : s.part ≠ none → s.dir = true)
    (hvalidator : s.validator = {
      etag := resp.etag, lastModified := resp.lastModified, totalBytes := resp.contentLength }) :
    Ends versions (restart t resp s) := by
  obtain ⟨v, hv, hetag, hmodified, hbody, hlength, hframed⟩ := hhonest.whole hstatus
  have hsound : Sound versions { s with dir := true, part := some resp.body } := by
    refine ⟨fun _ => rfl, fun bytes hbytes _ => ?_⟩
    cases hbytes
    rw [hvalidator]
    exact ⟨v, hv, hbody, hetag, hmodified, hlength⟩
  rw [restart]
  cases hmkdir : mkdirError t s with
  | some temporary =>
    refine fun _ => Sound.of_none ?_
    by_contra hne
    rw [mkdirError, hdir hne] at hmkdir
    cases hmkdir
  | none =>
    cases t.openFails with
    | some temporary => exact fun _ => Sound.of_none rfl
    | none =>
      cases hbroken : resp.broken with
      | some err => exact fun _ => hsound
      | none =>
        show Ends versions (ite _ _ _)
        split
        · exact fun _ => hsound
        · rename_i hlengths
          refine ends_promote t hv ?_ hsound
          cases hdeclared : resp.contentLength with
          | none => exact congrArg some (hframed hdeclared hbroken)
          | some n =>
            have hn : n = resp.body.length := by
              simpa [hdeclared] using hlengths
            have hwhole := hlength n hdeclared
            exact congrArg some (hbody.eq_of_length (hn.symm.trans hwhole))

/-! ## A range -/

/-- The bytes of a version from a place on, behind the bytes in front of it. -/
theorem append_isPrefix {bytes rest whole : Bytes} (h : bytes <+: whole)
    (hrest : rest <+: whole.drop bytes.length) : bytes ++ rest <+: whole := by
  obtain ⟨behind, rfl⟩ := h
  rw [List.drop_left] at hrest
  exact (List.prefix_append_right_inj bytes).mpr hrest

structure Appends (s : State) (v : Version) (bytes : Bytes) (resp : Response) (stop : Nat) :
    Prop where
  dir : s.dir = true
  part : s.part = some (bytes ++ resp.body)
  before : bytes <+: v.content
  range : resp.body.take (stop + 1 - bytes.length) <+: v.content.drop bytes.length
  start : bytes.length ≤ stop
  etag : s.validator.etag = v.etag
  lastModified : s.validator.lastModified = v.lastModified
  total : ∀ n ∈ s.validator.totalBytes, n = v.content.length

variable {resp : Response} {bytes : Bytes}

/-- A range that does not go beyond its last byte leaves the start of the version. -/
theorem Appends.sound {s : State} {stop : Nat} (h : Appends s v bytes resp stop)
    (hv : v ∈ versions) (hle : resp.body.length ≤ stop + 1 - bytes.length) :
    bytes ++ resp.body <+: v.content ∧ Sound versions s := by
  have hrange := h.range
  rw [List.take_of_length_le hle] at hrange
  have hpart := append_isPrefix h.before hrange
  refine ⟨hpart, fun _ => h.dir, fun whole hwhole _ => ⟨v, hv, ?_, h.etag, h.lastModified, h.total⟩⟩
  cases h.part.symm.trans hwhole
  exact hpart

theorem ends_finishRange (t : Try) {stop : Nat} {s : State} (hv : v ∈ versions)
    (h : Appends s v bytes resp stop)
    (hdeclared : ∀ n ∈ resp.contentLength, resp.body.length ≤ stop + 1 - bytes.length)
    (hbreaks : resp.broken ≠ none → resp.body.length ≤ stop + 1 - bytes.length) :
    Ends versions (finishRange t resp bytes.length stop v.content.length s) := by
  have hstart := h.start
  rw [finishRange]
  cases hbroken : resp.broken with
  | some err =>
    have hle := hbreaks (by rw [hbroken]; exact Option.some_ne_none err)
    exact fun _ => (h.sound hv hle).2
  | none =>
    simp only
    rcases Nat.lt_or_ge (stop - bytes.length + 1) resp.body.length with hover | hle
    · -- more bytes than the range has, so their number was not declared
      have hnone : resp.contentLength = none := by
        cases hlength : resp.contentLength with
        | none => rfl
        | some n =>
          have := hdeclared n hlength
          omega
      rw [hnone, if_neg (by simp), if_pos hover]
      exact ends_rejected _
    · obtain ⟨hpart, hsound⟩ := h.sound hv (by omega)
      rw [if_neg (Nat.not_lt.mpr hle)]
      split
      · exact fun _ => hsound
      · split
        · exact fun _ => hsound
        · split
          · exact fun _ => hsound
          · rename_i _ _ htotal
            refine ends_promote t hv ?_ hsound
            rw [h.part, hpart.eq_of_length]
            rw [List.length_append]
            omega

theorem start_le_of_parseContentRange {value : List Char} {start stop : Nat} {total : Option Nat}
    (h : parseContentRange value = some (start, stop, total)) : start ≤ stop := by
  rw [parseContentRange] at h
  split at h
  · split at h
    · cases h
    · split at h
      · cases h
      · split at h
        · cases h
        · rename_i first last _
          simp only at h
          split at h
          · cases h
          · rename_i hbounds
            simp only [Bool.or_eq_true, decide_eq_true_eq, not_or] at hbounds
            split at h
            · cases h
              omega
            · split at h
              · cases h
              · cases h
                omega
  · cases h

theorem ends_appendRange (t : Try) {req : Request} (hhonest : Honest versions req resp)
    (hstatus : resp.status = 206) (hdistinct : Distinct versions) {s : State}
    (hsound : Sound versions s) (hpart : s.part = some bytes) (hne : bytes ≠ [])
    (hif : req.ifRange = if s.validator.etag ≠ [] then s.validator.etag else
      s.validator.lastModified)
    (hbreaks : resp.broken ≠ none → ∀ start stop total, parseContentRange resp.contentRange =
      some (start, stop, total) → resp.body.length ≤ stop + 1 - start) :
    Ends versions (appendRange t resp bytes.length s) := by
  obtain ⟨v, hv, hbytes, hetag, hmodified, htotal⟩ := hsound.part bytes hpart hne
  obtain ⟨w, hw, hvalidator, hrange⟩ := hhonest.range hstatus
  -- the server found the validator to be that of the version it serves
  have hsame : v = w := by
    have hif' : req.ifRange = v.validator := by
      rw [hif, hetag, hmodified]
      rfl
    rw [hif'] at hvalidator
    exact hdistinct.eq v hv w hw (hvalidator (hdistinct.ne_nil v hv))
  subst hsame
  have hdir : s.dir = true := hsound.dir (by rw [hpart]; exact Option.some_ne_none _)
  have hmkdir : mkdirError t s = none := if_pos hdir
  have hkeep : Sound versions { s with dir := true } := ⟨fun _ => rfl, hsound.part⟩
  rw [appendRange, hmkdir]
  simp only
  cases hparse : parseContentRange resp.contentRange with
  | none => exact ends_rejected _
  | some parsed =>
    obtain ⟨start, stop, total⟩ := parsed
    obtain ⟨hbody, hwhole⟩ := hrange start stop total hparse
    cases total with
    | none => exact ends_rejected _
    | some total =>
      obtain rfl : total = v.content.length := hwhole total rfl
      simp only
      split
      · exact ends_rejected _
      · rename_i hstart
        obtain rfl : start = bytes.length := not_not.mp hstart
        split
        · exact ends_rejected _
        · split
          · exact ends_rejected _
          · rename_i hdeclared
            have hbody' : ∀ n ∈ resp.contentLength,
                resp.body.length ≤ stop + 1 - bytes.length := by
              intro n hn
              have hle := hhonest.declared n hn
              have heq : n = stop - bytes.length + 1 := by
                simpa [Option.mem_def.mp hn] using hdeclared
              have := start_le_of_parseContentRange hparse
              omega
            have hsound' : Sound versions { s with
                dir := true,
                validator := { s.validator with totalBytes := some v.content.length } } := by
              refine ⟨fun _ => rfl, fun whole hwhole' _ => ?_⟩
              cases hpart.symm.trans hwhole'
              exact ⟨v, hv, hbytes, hetag, hmodified, fun n hn => (Option.some.inj hn).symm⟩
            cases t.openFails with
            | some temporary => exact fun _ => hsound'
            | none =>
              cases t.statFails with
              | some temporary => exact fun _ => hsound'
              | none =>
                simp only [hpart, Option.getD_some]
                rw [if_neg (not_not.mpr rfl)]
                refine ends_finishRange t hv ?_ hbody' fun hbroken => hbreaks hbroken _ _ _ hparse
                exact {
                  dir := rfl
                  part := rfl
                  before := hbytes
                  range := hbody
                  start := start_le_of_parseContentRange hparse
                  etag := hetag
                  lastModified := hmodified
                  total := fun n hn => (Option.some.inj hn).symm }

/-! ## An attempt and a call -/

theorem ends_downloadURLAttempt {t : Try} (hhonest : HonestTry versions t)
    (hbreaks : BreaksWithin t) (hdistinct : Distinct versions) {s : State}
    (hsound : Sound versions s) : Ends versions (downloadURLAttempt t s) := by
  rw [downloadURLAttempt]
  cases hserve : t.serve (requestOf t s) with
  | error temporary => exact fun _ => hsound
  | ok resp =>
    have hresp := hhonest _ resp hserve
    simp only
    split
    · exact fun _ => hsound
    · split
      · exact fun _ => hsound
      · rename_i hstatus
        split
        · exact fun _ => hsound
        · rename_i hfirst
          split
          · rename_i hwhole
            have h200 : resp.status = 200 := by
              rcases hwhole with hzero | h200
              · exact not_not.mp fun hne => hfirst ⟨hzero, hne⟩
              · exact h200
            exact ends_restart t hresp h200 hsound.dir rfl
          · rename_i hresume
            obtain ⟨hstart, hnot⟩ := not_or.mp hresume
            have h206 : resp.status = 206 := not_not.mp fun hne => hstatus ⟨hnot, hne⟩
            split
            · exact ends_rejected _
            · -- the range goes on where the part file ends
              cases hpart : s.part with
              | none =>
                refine absurd ?_ hstart
                rw [requestOf, hpart]
                exact ite_self 0
              | some bytes =>
                have hlen : (requestOf t s).start = bytes.length := by
                  rw [requestOf, hpart] at hstart ⊢
                  by_cases hunknown : t.sizeUnknown = true
                  · exact absurd (if_pos hunknown) hstart
                  · exact if_neg hunknown
                have hif : (requestOf t s).ifRange = if s.validator.etag ≠ [] then
                    s.validator.etag else s.validator.lastModified := if_neg hstart
                have hne : bytes ≠ [] := by
                  rintro rfl
                  exact hstart hlen
                rw [hlen]
                exact ends_appendRange t hresp h206 hdistinct hsound hpart hne hif
                  fun hbroken => hbreaks _ resp hserve h206 hbroken

theorem attempts_whole (hdistinct : Distinct versions) {tries : List Try}
    (hhonest : ∀ t ∈ tries, HonestTry versions t) (hbreaks : ∀ t ∈ tries, BreaksWithin t)
    {s : State} (hsound : Sound versions s) (hdone : (attempts tries s).1 = none) :
    ∃ v ∈ versions, (attempts tries s).2.dest = some v.content := by
  induction tries generalizing s with
  | nil => cases hdone
  | cons t rest ih =>
    have hends := ends_downloadURLAttempt (hhonest t List.mem_cons_self)
      (hbreaks t List.mem_cons_self) hdistinct hsound
    have hnext := @ih (fun t ht => hhonest t (List.mem_cons_of_mem _ ht))
      (fun t ht => hbreaks t (List.mem_cons_of_mem _ ht))
    rw [attempts] at hdone ⊢
    split at hdone
    · cases hdone
    · rename_i hbefore
      rw [if_neg hbefore]
      generalize downloadURLAttempt t s = result at hends hdone
      obtain ⟨err, s'⟩ := result
      cases err with
      | none => exact hends
      | some err =>
        simp only at hdone ⊢
        split at hdone
        · cases hdone
        · rename_i hafter
          rw [if_neg hafter]
          split at hdone
          · cases hdone
          · rename_i hlast
            rw [if_neg hlast]
            split at hdone
            · cases hdone
            · rename_i hwaiting
              rw [if_neg hwaiting]
              split at hdone
              · rename_i hremove
                rw [if_pos hremove]
                exact hnext (Sound.of_none rfl) hdone
              · rename_i hkeep
                rw [if_neg hkeep]
                exact hnext (hends fun heq => hkeep (.inl heq)) hdone

/-- A call leaves no part file, and one that fails leaves the destination as it was. With
honest servers, whose ranges break off within the bytes that they name, a call that succeeds
leaves one version. -/
theorem never_splices (tries : List Try) (files : Files) :
    (downloadURLResumableWithPolicy tries files).2.part = none ∧
    ((downloadURLResumableWithPolicy tries files).1 ≠ none →
      (downloadURLResumableWithPolicy tries files).2.dest = files.dest) ∧
    ∀ versions, Distinct versions → (∀ t ∈ tries, HonestTry versions t) →
      (∀ t ∈ tries, BreaksWithin t) → (downloadURLResumableWithPolicy tries files).1 = none →
        ∃ v ∈ versions, (downloadURLResumableWithPolicy tries files).2.dest = some v.content := by
  have hframes := @attempts_frames (tries.take maxAttempts) {
    dest := files.dest, part := none, dir := files.dir,
    validator := { etag := [], lastModified := [], totalBytes := none } } (.inr rfl)
  refine ⟨hframes.1, hframes.2, fun versions hdistinct hhonest hbreaks hdone => ?_⟩
  have hmem : ∀ t ∈ tries.take maxAttempts, t ∈ tries := fun t ht => List.mem_of_mem_take ht
  exact attempts_whole hdistinct (fun t ht => hhonest t (hmem t ht))
    (fun t ht => hbreaks t (hmem t ht)) (Sound.of_none rfl) hdone

namespace Surplus

def package : Version :=
  { content := [1, 2, 3, 4, 5, 6], etag := "\"a\"".toList, lastModified := [] }

/-- A response with the first bytes of the package, or with all of them. -/
def wholeResponse (body : Bytes) (broken : Option Failure) : Response :=
  { status := 200, etag := package.etag, lastModified := [], contentLength := some 6,
    contentRange := [], body, broken }

/-- A range of the package, without its length. -/
def rangeResponse (contentRange : List Char) (body : Bytes) (broken : Option Failure) : Response :=
  { status := 206, etag := package.etag, lastModified := [], contentLength := none,
    contentRange, body, broken }

/-- An attempt in which the file system works. -/
def tryOf (serve : Request → Except Bool Response) : Try :=
  { serve, sizeUnknown := false, mkdirFails := none, openFails := none, statFails := none,
    closeFails := none, renameFails := none, doneBefore := false, doneAfter := false,
    doneWaiting := false }

/-- The stream breaks off after two bytes. -/
def first : Try := tryOf fun _ => .ok (wholeResponse [1, 2] (some (.other true)))

/-- The rest is served from a version with the validator, the whole otherwise. -/
def resume (resp : Response) : Try := tryOf fun req =>
  if req.ifRange = package.etag then .ok resp else .ok (wholeResponse package.content none)

/-- A range of one byte with these bytes, and then the stream breaks off. -/
def second (body : Bytes) : Try :=
  resume (rangeResponse "bytes 2-2/6".toList body (some (.other true)))

def third (header : List Char) (body : Bytes) : Try := resume (rangeResponse header body none)

def files : Files := { dest := none, part := none, dir := true }

theorem distinct : Distinct [package] where
  ne_nil v hv := by
    rw [List.mem_singleton.mp hv]
    decide
  eq v hv w hw _ := (List.mem_singleton.mp hv).trans (List.mem_singleton.mp hw).symm

variable {broken : Option Failure} {body : Bytes}

theorem honest_whole (req : Request) (hbody : body <+: package.content) :
    Honest [package] req (wholeResponse body broken) where
  declared n hn := Option.some.inj hn ▸ hbody.length_le
  whole _ := ⟨package, List.mem_singleton_self _, rfl, rfl, hbody,
    fun n hn => (Option.some.inj hn).symm, fun hnone => by cases hnone⟩
  range h := by cases h

theorem honest_first : HonestTry [package] first := by
  intro req resp h
  cases h
  exact honest_whole req (by decide)

theorem honest_resume {header : List Char} {start stop : Nat}
    (hparse : parseContentRange header = some (start, stop, some 6))
    (hbody : body.take (stop + 1 - start) <+: package.content.drop start) :
    HonestTry [package] (resume (rangeResponse header body broken)) := by
  intro req resp h
  by_cases hif : req.ifRange = package.etag
  · obtain rfl : rangeResponse header body broken = resp :=
      Except.ok.inj ((if_pos hif).symm.trans h)
    exact {
      declared := fun n hn => by cases hn
      whole := fun h => by cases h
      range := fun _ => ⟨package, List.mem_singleton_self _, fun _ => .inl hif,
        fun a b total hsame => by
          cases hparse.symm.trans hsame
          exact ⟨hbody, fun n hn => (Option.some.inj hn).symm⟩⟩ }
  · obtain rfl : wholeResponse package.content none = resp :=
      Except.ok.inj ((if_neg hif).symm.trans h)
    exact honest_whole req List.prefix_rfl

theorem within_first : BreaksWithin first := by
  intro req resp h h206
  cases h
  cases h206

theorem within_resume {header : List Char} {start stop : Nat}
    (hparse : parseContentRange header = some (start, stop, some 6))
    (hbody : body.length ≤ stop + 1 - start) :
    BreaksWithin (resume (rangeResponse header body broken)) := by
  intro req resp h h206 _ a b total hsame
  by_cases hif : req.ifRange = package.etag
  · obtain rfl : rangeResponse header body broken = resp :=
      Except.ok.inj ((if_pos hif).symm.trans h)
    cases hparse.symm.trans hsame
    exact hbody
  · obtain rfl : wholeResponse package.content none = resp :=
      Except.ok.inj ((if_neg hif).symm.trans h)
    cases h206

end Surplus

/-- A range breaks off behind its last byte, and the next one is appended to the surplus. -/
theorem not_never_splices :
    let tries := [Surplus.first, Surplus.second [3, 9],
      Surplus.third "bytes 4-5/6".toList [5, 6]]
    Distinct [Surplus.package] ∧ (∀ t ∈ tries, HonestTry [Surplus.package] t) ∧
      (downloadURLResumableWithPolicy tries Surplus.files).1 = none ∧
      (downloadURLResumableWithPolicy tries Surplus.files).2.dest = some [1, 2, 3, 9, 5, 6] := by
  refine ⟨Surplus.distinct, ?_, by decide +kernel, by decide +kernel⟩
  intro t ht
  rcases List.mem_cons.mp ht with rfl | ht
  · exact Surplus.honest_first
  · rcases List.mem_pair.mp ht with rfl | rfl
    · exact @Surplus.honest_resume _ _ _ 2 2 (by decide +kernel) (by decide)
    · exact @Surplus.honest_resume _ _ _ 4 5 (by decide +kernel) (by decide)

/-- The same with a range that breaks off behind the byte that it names. -/
theorem never_splices_resumed :
    let tries := [Surplus.first, Surplus.second [3],
      Surplus.third "bytes 3-5/6".toList [4, 5, 6]]
    (downloadURLResumableWithPolicy tries Surplus.files).2.dest =
      some Surplus.package.content := by
  intro tries
  have hhonest : ∀ t ∈ tries, HonestTry [Surplus.package] t := by
    intro t ht
    rcases List.mem_cons.mp ht with rfl | ht
    · exact Surplus.honest_first
    · rcases List.mem_pair.mp ht with rfl | rfl
      · exact @Surplus.honest_resume _ _ _ 2 2 (by decide +kernel) (by decide)
      · exact @Surplus.honest_resume _ _ _ 3 5 (by decide +kernel) (by decide)
  have hbreaks : ∀ t ∈ tries, BreaksWithin t := by
    intro t ht
    rcases List.mem_cons.mp ht with rfl | ht
    · exact Surplus.within_first
    · rcases List.mem_pair.mp ht with rfl | rfl
      · exact @Surplus.within_resume _ _ _ 2 2 (by decide +kernel) (by decide)
      · exact @Surplus.within_resume _ _ _ 3 5 (by decide +kernel) (by decide)
  obtain ⟨v, hv, hdest⟩ := (never_splices tries Surplus.files).2.2 [Surplus.package]
    Surplus.distinct hhonest hbreaks (by decide +kernel)
  rw [List.mem_singleton.mp hv] at hdest
  exact hdest

end HyperFileLens.Agent.NeverSplices
