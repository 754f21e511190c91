import Mathlib.Data.List.Find
import HyperFileLens.Restore.RepositoryServers

/-!
# Repository servers are remembered

*Sessions.*  A session is a repository and a user name. `Sound` says that every start
command has its session recorded until the restore ends, and its stop after that.

*Passes.*  The result of a started server replaces all sessions of its repository. A run
is `Undisturbed` when a pass takes over a result only while no other user name of the
repository is recorded, and the end finds every stop accepted.
-/

namespace HyperFileLens.Restore

open Tasks Transition

variable {r : RestoreTask} {o : Outside} {s s' : RestoreState}

/-! ## Names -/

variable {username : String} {s'' : RestoreState}

theorem strip_sourceUsername (names : Names) (source : Option (String × String)) :
    Text.strip (snapshotSourceServerUsername names source) =
      snapshotSourceServerUsername names source := by
  cases source with
  | none => exact (by decide : Text.strip "" = "")
  | some source =>
    rw [snapshotSourceServerUsername]
    split
    · decide
    · rename_i hfull
      obtain ⟨huser, hhost⟩ := not_or.mp hfull
      refine names.strip_lower _ (Text.strip_around ?_ ?_ ?_ ?_)
      · exact fun h => huser (String.toList_eq_nil_iff.mp h)
      · exact fun h => hhost (String.toList_eq_nil_iff.mp h)
      · intro c hc
        rw [Text.strip, String.toList_ofList] at hc
        exact Text.head_trim _ _ hc
      · intro c hc
        rw [Text.strip, String.toList_ofList] at hc
        exact Text.last_trim _ _ hc

theorem strip_username (r : RestoreTask) (o : Outside) (item : RestoreItem) (node : NodeKey) :
    Text.strip (restoreRepositoryServerUsername r o item node) =
      restoreRepositoryServerUsername r o item node := by
  rw [restoreRepositoryServerUsername]
  split
  · exact strip_sourceUsername r.names _
  · refine r.names.strip_lower _ ?_
    have hhead : ∀ c ∈ "hfl-restore-".toList.head?, Text.isPySpace c = false := by
      intro c hc
      obtain rfl : 'h' = c := by simpa using hc
      decide
    have hlast : ∀ c ∈ (toString node.val).toList.getLast?, Text.isPySpace c = false :=
      fun c hc => Text.isPySpace_of_mem_toString (List.mem_of_getLast? hc)
    have hstrip := Text.strip_around (m := toString r.taskId ++ "@hfl-proxy-") (by decide)
      (Text.toList_toString_ne_nil node.val) hhead hlast
    simpa [String.append_assoc] using hstrip

theorem strip_sessionId (r : RestoreTask) (repositoryId : Nat) (username : String) :
    Text.strip (restoreRepositoryServerSessionId r repositoryId username) =
        restoreRepositoryServerSessionId r repositoryId username ∧
      restoreRepositoryServerSessionId r repositoryId username ≠ "" := by
  rw [restoreRepositoryServerSessionId]
  have hhead : ∀ c ∈ "restore-".toList.head?, Text.isPySpace c = false := by
    intro c hc
    obtain rfl : 'r' = c := by simpa using hc
    decide
  have hlast : ∀ c ∈ (r.names.usernameHash username).toList.getLast?, Text.isPySpace c = false :=
    fun c hc => r.names.hash_visible username c (List.mem_of_getLast? hc)
  constructor
  · have hstrip := Text.strip_around
      (m := r.taskUuid ++ "-repo-" ++ toString repositoryId ++ "-") (by decide)
      (r.names.hash_ne_nil username) hhead hlast
    simpa [String.append_assoc] using hstrip
  · intro hempty
    have := congrArg String.toList hempty
    simp [String.toList_append] at this

/-! ## Sessions -/

def ServerState.session (e : ServerState) : Nat × String := (e.repositoryId, e.serverUsername)

def StartCommand.session (c : StartCommand) : Nat × String := (c.repositoryId, c.username)

structure Sound (r : RestoreTask) (s : RestoreState) : Prop where
  ids : Table.Keyed StartCommand.id s.starts
  used : ∀ c ∈ s.starts, c.id < s.nextNodeTask
  once : (s.starts.map StartCommand.session).Nodup
  asked : ∀ c ∈ s.starts,
    c.sessionId = restoreRepositoryServerSessionId r c.repositoryId c.username ∧
      ∀ result, c.status = .success result → result.sessionId = c.sessionId
  recorded : s.status.isTerminal = false → ∀ c ∈ s.starts, ∃ e ∈ s.servers, e.session = c.session
  started : ∀ e ∈ s.servers, ∃ c ∈ s.starts, c.id = e.nodeTaskId ∧ c.session = e.session
  named : ∀ e ∈ s.servers,
    e.sessionId = restoreRepositoryServerSessionId r e.repositoryId e.serverUsername ∧
      Text.strip e.serverUsername = e.serverUsername
  stopped : s.status.isTerminal = true → ∀ c ∈ s.starts,
    ∃ stop ∈ s.stops, stop.sessionId = c.sessionId

theorem Sound.congr (h : Sound r s) (hstarts : s'.starts = s.starts)
    (hnext : s.nextNodeTask ≤ s'.nextNodeTask) (hservers : s'.servers = s.servers)
    (hstops : s'.stops = s.stops) (hstatus : s'.status.isTerminal = s.status.isTerminal) :
    Sound r s' where
  ids := hstarts ▸ h.ids
  used c hc := Nat.lt_of_lt_of_le (h.used c (hstarts ▸ hc)) hnext
  once := hstarts ▸ h.once
  asked c hc := h.asked c (hstarts ▸ hc)
  recorded hopen := by
    rw [hstarts, hservers]
    exact h.recorded (hstatus ▸ hopen)
  started := by
    rw [hstarts, hservers]
    exact h.started
  named e he := h.named e (hservers ▸ he)
  stopped hover := by
    rw [hstarts, hstops]
    exact h.stopped (hstatus ▸ hover)

/-- The start of a session has succeeded with complete connection data. -/
def RestoreState.ready (s : RestoreState) (repositoryId : Nat) (username : String) : Bool :=
  ((s.server repositoryId username).bind fun e => s.startCommand e.nodeTaskId).any fun c =>
    match c.status with
    | .success result => (RestoreState.completePayload result).isSome
    | _ => false

variable {repositoryId : Nat} {e : ServerState}

theorem Sound.session_of_server (h : Sound r s)
    (hserver : s.server repositoryId username = some e) :
    e ∈ s.servers ∧ e.session = (repositoryId, username) := by
  have hmem := List.mem_of_find?_eq_some hserver
  have hmatch := List.find?_some hserver
  simp only [Bool.and_eq_true, decide_eq_true_eq] at hmatch
  refine ⟨hmem, Prod.ext hmatch.1 ?_⟩
  rw [← hmatch.2]
  exact (h.named e hmem).2.symm

theorem session_ne_of_server (h : Sound r s) (hserver : s.server repositoryId username = none) :
    ∀ e ∈ s.servers, e.session ≠ (repositoryId, username) := by
  intro e he heq
  have hnot := List.find?_eq_none.mp hserver e he
  have hstrip := (h.named e he).2
  obtain ⟨hrepository, husername⟩ := Prod.mk.inj heq
  rw [← husername] at hnot
  simp [hrepository, hstrip] at hnot

/-! ## Passes -/

/-- What a pass keeps: its sessions stay recorded. -/
structure Passed (r : RestoreTask) (s s' : RestoreState) : Prop where
  sound : Sound r s'
  isOpen : s'.status.isTerminal = false
  recorded : ∀ e ∈ s.servers, ∃ e' ∈ s'.servers, e'.session = e.session

theorem Passed.refl (h : Sound r s) (hopen : s.status.isTerminal = false) : Passed r s s :=
  ⟨h, hopen, fun e he => ⟨e, he, rfl⟩⟩

theorem Passed.trans (h : Passed r s s') (h' : Passed r s' s'') : Passed r s s'' := by
  refine ⟨h'.sound, h'.isOpen, fun e he => ?_⟩
  obtain ⟨e', he', hsession⟩ := h.recorded e he
  obtain ⟨e'', he'', hsession'⟩ := h'.recorded e' he'
  exact ⟨e'', he'', hsession'.trans hsession⟩

theorem Passed.congr (h : Passed r s s') {t : RestoreState} (hstarts : t.starts = s'.starts)
    (hnext : s'.nextNodeTask ≤ t.nextNodeTask) (hservers : t.servers = s'.servers)
    (hstops : t.stops = s'.stops) (hstatus : t.status.isTerminal = s'.status.isTerminal) :
    Passed r s t :=
  ⟨h.sound.congr hstarts hnext hservers hstops hstatus, hstatus.trans h.isOpen,
    fun e he => hservers ▸ h.recorded e he⟩

theorem passed_startServer (h : Sound r s) (hopen : s.status.isTerminal = false)
    (hstrip : Text.strip username = username) (hserver : s.server repositoryId username = none)
    (o : Outside) (node : NodeKey) : Passed r s (s.startServer r o repositoryId node username) := by
  have hnew : ∀ c ∈ s.starts, c.session ≠ (repositoryId, username) := by
    intro c hc heq
    obtain ⟨e, he, hsession⟩ := h.recorded hopen c hc
    exact session_ne_of_server h hserver e he (hsession.trans heq)
  have hused : ∀ c ∈ s.starts, c.id ≠ s.nextNodeTask :=
    fun c hc => Nat.ne_of_lt (h.used c hc)
  rw [RestoreState.startServer]
  refine ⟨⟨h.ids.cons hused, ?_, ?_, ?_, ?_, ?_, ?_, ?_⟩, hopen, fun e he => ?_⟩
  · intro c hc
    cases hc with
    | head => exact Nat.lt_succ_self _
    | tail _ hc => exact Nat.lt_succ_of_lt (h.used c hc)
  · refine List.nodup_cons.mpr ⟨fun hmem => ?_, h.once⟩
    obtain ⟨c, hc, hsession⟩ := List.mem_map.mp hmem
    exact hnew c hc hsession
  · intro c hc
    cases hc with
    | head => exact ⟨rfl, fun result hstatus => by cases hstatus⟩
    | tail _ hc => exact h.asked c hc
  · intro _ c hc
    cases hc with
    | head => exact ⟨_, List.mem_append_right _ (List.mem_singleton.mpr rfl), rfl⟩
    | tail _ hc =>
      obtain ⟨e, he, hsession⟩ := h.recorded hopen c hc
      exact ⟨e, List.mem_append_left _ he, hsession⟩
  · intro e he
    rcases List.mem_append.mp he with he | he
    · obtain ⟨c, hc, hstarted⟩ := h.started e he
      exact ⟨c, List.mem_cons_of_mem _ hc, hstarted⟩
    · rw [List.mem_singleton.mp he]
      exact ⟨_, List.mem_cons_self, rfl, rfl⟩
  · intro e he
    rcases List.mem_append.mp he with he | he
    · exact h.named e he
    · rw [List.mem_singleton.mp he]
      exact ⟨rfl, hstrip⟩
  · intro hover
    rw [hopen] at hover
    cases hover
  · exact ⟨e, List.mem_append_left _ he, rfl⟩

/-- What a successful lookup of a started server keeps. -/
structure Kept (r : RestoreTask) (s s' : RestoreState) : Prop where
  passed : Passed r s s'
  starts : s'.starts = s.starts
  sessions : s'.servers.map ServerState.session = s.servers.map ServerState.session
  ready : ∀ repositoryId username, s'.ready repositoryId username = s.ready repositoryId username

/-- The result of a session replaces the sessions of its repository. When they are the
same session, nothing else changes. -/
theorem kept_replaceServers (h : Sound r s) (hopen : s.status.isTerminal = false)
    {state : ServerState} {command : StartCommand} {result : StartResult}
    (hserver : s.server repositoryId username = some state)
    (hcommand : s.startCommand state.nodeTaskId = some command)
    (hresult : command.status = .success result)
    (hsame : ∀ e ∈ s.servers, e.repositoryId = repositoryId → e.serverUsername = username)
    (node : NodeKey) :
    Kept r s (s.replaceServers repositoryId
      (RestoreState.startedState state repositoryId node username command result)) := by
  obtain ⟨hstate, hsession⟩ := h.session_of_server hserver
  obtain ⟨hrepository, husername⟩ := Prod.mk.inj hsession
  obtain ⟨hc, hid⟩ := Table.mem_of_find hcommand
  generalize hnew : RestoreState.startedState state repositoryId node username command result = new
  have hnewSession : new.session = (repositoryId, username) := by
    rw [← hnew]
    rfl
  have hnewTask : new.nodeTaskId = state.nodeTaskId := by
    rw [← hnew]
    exact hid
  -- The agent has returned the session it was asked for.
  have hcSession : command.session = state.session := by
    obtain ⟨c, hc', hid', hsession'⟩ := h.started state hstate
    rw [h.ids command hc c hc' (hid.trans hid'.symm)]
    exact hsession'
  have hnewId : new.sessionId = restoreRepositoryServerSessionId r repositoryId username := by
    obtain ⟨hcRepository, hcUsername⟩ := Prod.mk.inj (hcSession.trans hsession)
    have hreturned := (h.asked command hc).2 result hresult
    rw [(h.asked command hc).1, hcRepository, hcUsername] at hreturned
    rw [← hnew]
    show (if result.sessionId ≠ "" then result.sessionId else state.sessionId) = _
    split
    · exact hreturned
    · rw [(h.named state hstate).1, hrepository, husername]
  let f : ServerState → ServerState := fun existing =>
    if existing.repositoryId = repositoryId then new else existing
  have hf : ∀ e ∈ s.servers, (f e).session = e.session := by
    intro e he
    show (if e.repositoryId = repositoryId then new else e).session = e.session
    split
    · rename_i hrepo
      rw [hnewSession]
      exact Prod.ext hrepo.symm (hsame e he hrepo).symm
    · rfl
  have hservers : (s.replaceServers repositoryId new).servers = s.servers.map f := rfl
  have hsessions : (s.servers.map f).map ServerState.session =
      s.servers.map ServerState.session := by
    rw [List.map_map]
    exact List.map_congr_left hf
  refine ⟨⟨⟨h.ids, h.used, h.once, h.asked, ?_, ?_, ?_, ?_⟩, hopen, ?_⟩, rfl, hsessions, ?_⟩
  · intro _ c hc
    obtain ⟨e, he, hsame⟩ := h.recorded hopen c hc
    exact ⟨f e, List.mem_map_of_mem he, (hf e he).trans hsame⟩
  · intro e' he'
    obtain ⟨e, he, rfl⟩ := List.mem_map.mp he'
    split
    · obtain ⟨c, hc', hid', hsession'⟩ := h.started state hstate
      exact ⟨c, hc', hid'.trans hnewTask.symm, hsession'.trans (hsession.trans hnewSession.symm)⟩
    · exact h.started e he
  · intro e' he'
    obtain ⟨e, he, rfl⟩ := List.mem_map.mp he'
    split
    · obtain ⟨hnewRepository, hnewUsername⟩ := Prod.mk.inj hnewSession
      rw [hnewId, hnewRepository, hnewUsername]
      exact ⟨rfl, husername ▸ (h.named state hstate).2⟩
    · exact h.named e he
  · intro hover
    exact absurd (hover.symm.trans hopen) Bool.noConfusion
  · intro e he
    exact ⟨f e, List.mem_map_of_mem he, hf e he⟩
  · intro repositoryId' username'
    have hlookup : (s.replaceServers repositoryId new).server repositoryId' username' =
        (s.server repositoryId' username').map f := by
      rw [RestoreState.server, hservers, List.find?_map, RestoreState.server]
      congr 1
      refine List.find?_congr fun e he => ?_
      obtain ⟨hrepo, huser⟩ := Prod.mk.inj (hf e he)
      simp only [Function.comp, hrepo, huser]
    rw [RestoreState.ready, hlookup, RestoreState.ready]
    cases hfound : s.server repositoryId' username' with
    | none => rfl
    | some e =>
      obtain ⟨he, hesession⟩ := h.session_of_server hfound
      have htask : (f e).nodeTaskId = e.nodeTaskId := by
        show (if e.repositoryId = repositoryId then new else e).nodeTaskId = e.nodeTaskId
        split
        · rename_i hrepo
          -- An entry of the repository is the one that was looked up.
          have huser := hsame e he hrepo
          obtain ⟨hrepo', huser'⟩ := Prod.mk.inj hesession
          have hfound' : s.server repositoryId username = some e := by
            rw [← hrepo, ← huser, hrepo', huser']
            exact hfound
          rw [hnewTask]
          exact congrArg _ (Option.some.inj (hserver.symm.trans hfound'))
        · rfl
      show ((s.startCommand (f e).nodeTaskId).any _) = (s.startCommand e.nodeTaskId).any _
      rw [htask]

theorem Kept.trans (h : Kept r s s') (h' : Kept r s' s'') : Kept r s s'' where
  passed := h.passed.trans h'.passed
  starts := h'.starts.trans h.starts
  sessions := h'.sessions.trans h.sessions
  ready _ _ := (h'.ready _ _).trans (h.ready _ _)

/-- The conditions on a session under which its lookup keeps the others. -/
def TakenOver (s : RestoreState) (session : Nat × String) : Prop :=
  ∀ e ∈ s.servers, e.repositoryId = session.1 → e.serverUsername = session.2

theorem passed_ensure (h : Sound r s) (hopen : s.status.isTerminal = false) (repositoryId : Nat)
    (node : NodeKey) (hstrip : Text.strip username = username)
    (htaken : (o.serverEnabled && s.ready repositoryId username) = true →
      TakenOver s (repositoryId, username)) {answer : Except String (Option StartResult)}
    (hensure : s.ensureRestoreRepositoryServerPayload r o repositoryId node username =
      (answer, s')) :
    Passed r s s' ∧ ∀ payload, answer = .ok (some payload) →
      (o.serverEnabled && s.ready repositoryId username) = true ∧ Kept r s s' := by
  rw [RestoreState.ensureRestoreRepositoryServerPayload] at hensure
  split at hensure
  · cases hensure
    exact ⟨.refl h hopen, fun payload hanswer => by cases hanswer⟩
  · rename_i henabled
    split at hensure
    · rename_i state hserver
      split at hensure
      · cases hensure
        exact ⟨.refl h hopen, fun payload hanswer => by cases hanswer⟩
      · rename_i command hcommand
        split at hensure
        · cases hensure
          exact ⟨.refl h hopen, fun payload hanswer => by cases hanswer⟩
        · cases hensure
          exact ⟨.refl h hopen, fun payload hanswer => by cases hanswer⟩
        · rename_i result hresult
          split at hensure
          · cases hensure
            exact ⟨.refl h hopen, fun payload hanswer => by cases hanswer⟩
          · rename_i payload hcomplete
            cases hensure
            have hready : (o.serverEnabled && s.ready repositoryId username) = true := by
              rw [RestoreState.ready, hserver, Option.bind_some, hcommand, Option.any_some,
                hresult]
              simpa [hcomplete] using henabled
            have hkept := kept_replaceServers h hopen hserver hcommand hresult (htaken hready) node
            exact ⟨hkept.passed, fun _ _ => ⟨hready, hkept⟩⟩
    · rename_i hserver
      split at hensure
      · cases hensure
        exact ⟨.refl h hopen, fun payload hanswer => by cases hanswer⟩
      · split at hensure
        · cases hensure
          exact ⟨.refl h hopen, fun payload hanswer => by cases hanswer⟩
        · cases hensure
          exact ⟨passed_startServer h hopen hstrip hserver o node,
            fun payload hanswer => by cases hanswer⟩

theorem kept_runItem (h : Sound r s) (hopen : s.status.isTerminal = false) (o : Outside)
    (item : RestoreItem) : Kept r s (s.runItem o item).2 := by
  rw [RestoreState.runItem]
  split
  · exact ⟨.refl h hopen, rfl, rfl, fun _ _ => rfl⟩
  · exact ⟨(Passed.refl h hopen).congr rfl (Nat.le_succ _) rfl rfl rfl, rfl, rfl, fun _ _ => rfl⟩

/-- The sessions of started servers that a pass over items looks up. -/
def RestoreState.readySessions (r : RestoreTask) (o : Outside) (s : RestoreState) :
    List RestoreItem → List (Nat × String)
  | [] => []
  | item :: items =>
    let rest := if (o.refusesRun item).isSome then [] else s.readySessions r o items
    match o.reader item with
    | .error _ => []
    | .ok .target => rest
    | .ok (.other node) =>
      let username := restoreRepositoryServerUsername r o item node
      if o.serverEnabled && s.ready item.repositoryId username then
        (item.repositoryId, username) :: rest
      else []

theorem readySessions_congr (hready : ∀ repositoryId username,
    s'.ready repositoryId username = s.ready repositoryId username) (items : List RestoreItem) :
    s'.readySessions r o items = s.readySessions r o items := by
  induction items with
  | nil => rfl
  | cons item items ih => simp only [RestoreState.readySessions, hready, ih]

theorem TakenOver.kept (h : Kept r s s') {session : Nat × String} (htaken : TakenOver s session) :
    TakenOver s' session := by
  intro e' he' hrepository
  have hmem : e'.session ∈ s.servers.map ServerState.session :=
    h.sessions ▸ List.mem_map_of_mem he'
  obtain ⟨e, he, hsession⟩ := List.mem_map.mp hmem
  obtain ⟨hrepo, huser⟩ := Prod.mk.inj hsession
  rw [← huser]
  exact htaken e he (hrepo.trans hrepository)

variable {item : RestoreItem}

theorem refusesRun_of_next (h : (s.runItem o item).1 = .next) : o.refusesRun item = none := by
  rw [RestoreState.runItem] at h
  split at h
  · cases h
  · assumption

variable {items : List RestoreItem}

theorem passed_dispatchItem (h : Sound r s) (hopen : s.status.isTerminal = false)
    (htaken : ∀ session ∈ s.readySessions r o (item :: items), TakenOver s session) :
    Passed r s (s.dispatchItem r o item).2 ∧ ((s.dispatchItem r o item).1 = .next →
      Kept r s (s.dispatchItem r o item).2 ∧
        ∀ session ∈ s.readySessions r o items, TakenOver s session) := by
  rw [RestoreState.dispatchItem]
  cases hreader : o.reader item with
  | error error => exact ⟨.refl h hopen, fun hturn => by cases hturn⟩
  | ok reader =>
    cases reader with
    | target =>
      refine ⟨(kept_runItem h hopen o item).passed, fun hturn => ?_⟩
      refine ⟨kept_runItem h hopen o item, fun session hsession => htaken session ?_⟩
      simpa [RestoreState.readySessions, hreader, refusesRun_of_next hturn] using hsession
    | other node =>
      dsimp only
      generalize husername : restoreRepositoryServerUsername r o item node = username
      have hstrip : Text.strip username = username := husername ▸ strip_username r o item node
      cases hensure : s.ensureRestoreRepositoryServerPayload r o item.repositoryId node
        username with
      | mk answer s₁ =>
        have hready : (o.serverEnabled && s.ready item.repositoryId username) = true →
            TakenOver s (item.repositoryId, username) := fun hready =>
          htaken _ (by simp [RestoreState.readySessions, hreader, husername, hready])
        obtain ⟨hpassed, hpayload⟩ :=
          passed_ensure h hopen item.repositoryId node hstrip hready hensure
        cases answer with
        | error error => exact ⟨hpassed, fun hturn => by cases hturn⟩
        | ok payload =>
          cases payload with
          | none => exact ⟨hpassed, fun hturn => by cases hturn⟩
          | some payload =>
            obtain ⟨hisReady, hkept⟩ := hpayload payload rfl
            have hrun := kept_runItem hpassed.sound hpassed.isOpen o item
            refine ⟨hpassed.trans hrun.passed, fun hturn => ⟨hkept.trans hrun, ?_⟩⟩
            refine fun session hsession => htaken session ?_
            simpa [RestoreState.readySessions, hreader, husername, hisReady,
              refusesRun_of_next hturn] using .inr hsession

theorem passed_dispatchItems (h : Sound r s) (hopen : s.status.isTerminal = false)
    (htaken : ∀ session ∈ s.readySessions r o items, TakenOver s session) :
    Passed r s (s.dispatchItems r o items).2 := by
  induction items generalizing s with
  | nil => exact .refl h hopen
  | cons item items ih =>
    obtain ⟨hpassed, hnext⟩ := passed_dispatchItem h hopen htaken
    rw [RestoreState.dispatchItems]
    split
    · rename_i hturn
      obtain ⟨hkept, hrest⟩ := hnext hturn
      refine hpassed.trans (ih hpassed.sound hpassed.isOpen fun session hsession => ?_)
      rw [readySessions_congr hkept.ready] at hsession
      exact (hrest session hsession).kept hkept
    · exact hpassed

/-- A pass keeps the sessions, when it takes over only sessions that have their
repository for themselves. -/
theorem passed_dispatchRestoreItems (h : Sound r s) (hopen : s.status.isTerminal = false)
    (htaken : ∀ session ∈ s.readySessions r o (s.selectedItems r o), TakenOver s session)
    (hdispatch : s.dispatchRestoreItems r o = .ok s') : Passed r s s' := by
  rw [RestoreState.dispatchRestoreItems] at hdispatch
  split at hdispatch
  · cases hdispatch
  · dsimp only at hdispatch
    split at hdispatch
    · cases hdispatch
      exact .refl h hopen
    · generalize hstarted : (if s.status = .pending then { s with status := .running } else s) = s₁
        at hdispatch
      have hfirst : Passed r s s₁ ∧ s₁.servers = s.servers ∧ s₁.starts = s.starts := by
        rw [← hstarted]
        split
        · exact ⟨(Passed.refl h hopen).congr rfl (Nat.le_refl _) rfl rfl hopen.symm, rfl, rfl⟩
        · exact ⟨.refl h hopen, rfl, rfl⟩
      obtain ⟨hpassed₁, hservers, hstarts⟩ := hfirst
      generalize hrunning : s₁.updateItems (fun i => (s.selectedItems r o).any fun j => j.id = i.id)
        (fun i => { i with status := .running }) = s₂ at hdispatch
      have hpassed₂ : Passed r s s₂ := hrunning ▸ hpassed₁.congr rfl (Nat.le_refl _) rfl rfl rfl
      have hready : ∀ repositoryId username,
          s₂.ready repositoryId username = s.ready repositoryId username := by
        intro repositoryId username
        simp only [RestoreState.ready, RestoreState.server, RestoreState.startCommand, ← hrunning,
          RestoreState.updateItems, hservers, hstarts]
      have hitems : Passed r s₂ (s₂.dispatchItems r o (s.selectedItems r o)).2 := by
        refine passed_dispatchItems hpassed₂.sound hpassed₂.isOpen fun session hsession => ?_
        rw [readySessions_congr hready] at hsession
        intro e he
        refine htaken session hsession e ?_
        rw [← hrunning] at he
        exact hservers ▸ he
      split at hdispatch
      · rename_i error s₃ hturn
        rw [hturn] at hitems
        split at hdispatch
        · cases hdispatch
        · cases hdispatch
          exact (hpassed₂.trans hitems).congr rfl (Nat.le_refl _) rfl rfl rfl
      · cases hdispatch
        rename_i hturn
        rw [hturn] at hitems
        exact hpassed₂.trans hitems

/-! ## The end -/

structure Stopping (s s' : RestoreState) : Prop where
  starts : s'.starts = s.starts
  nextNodeTask : s'.nextNodeTask = s.nextNodeTask
  servers : s'.servers = s.servers
  status : s'.status = s.status
  stops : ∀ stop ∈ s.stops, stop ∈ s'.stops

theorem stopping_stopServer (o : Outside) (s : RestoreState) (e : ServerState) :
    Stopping s (s.stopServer o e) := by
  rw [RestoreState.stopServer]
  split
  · exact ⟨rfl, rfl, rfl, rfl, fun _ h => h⟩
  · exact ⟨rfl, rfl, rfl, rfl, fun _ h => List.mem_cons_of_mem _ h⟩

theorem exists_stop (hstrip : Text.strip e.sessionId = e.sessionId) (hne : e.sessionId ≠ "")
    (hrefused : o.refusesStop e.sessionId = false) :
    ∃ stop ∈ (s.stopServer o e).stops, stop.sessionId = e.sessionId := by
  simp only [RestoreState.stopServer, hstrip, hne, hrefused, decide_false, Bool.false_or,
    Bool.or_false]
  split
  · rename_i hskip
    obtain ⟨stop, hstop, hsession⟩ := List.any_eq_true.mp hskip
    exact ⟨stop, hstop, of_decide_eq_true hsession⟩
  · exact ⟨_, List.mem_cons_self, rfl⟩

theorem Stopping.trans (h : Stopping s s') (h' : Stopping s' s'') : Stopping s s'' where
  starts := h'.starts.trans h.starts
  nextNodeTask := h'.nextNodeTask.trans h.nextNodeTask
  servers := h'.servers.trans h.servers
  status := h'.status.trans h.status
  stops stop hstop := h'.stops stop (h.stops stop hstop)

theorem stopping_stopServers (o : Outside) (servers : List ServerState) (s : RestoreState) :
    Stopping s (servers.foldl (RestoreState.stopServer o) s) := by
  induction servers generalizing s with
  | nil => exact ⟨rfl, rfl, rfl, rfl, fun _ h => h⟩
  | cons e servers ih =>
    rw [List.foldl_cons]
    exact (stopping_stopServer o s e).trans (ih (s.stopServer o e))

theorem exists_stops (servers : List ServerState) (s : RestoreState)
    (hvisible : ∀ e ∈ servers, Text.strip e.sessionId = e.sessionId ∧ e.sessionId ≠ "")
    (hrefused : ∀ e ∈ servers, o.refusesStop e.sessionId = false) :
    ∀ e ∈ servers, ∃ stop ∈ (servers.foldl (RestoreState.stopServer o) s).stops,
      stop.sessionId = e.sessionId := by
  induction servers generalizing s with
  | nil =>
    intro e he
    cases he
  | cons first servers ih =>
    intro e he
    cases he with
    | head =>
      obtain ⟨hstrip, hne⟩ := hvisible first List.mem_cons_self
      obtain ⟨stop, hstop, hsession⟩ :=
        exists_stop (s := s) hstrip hne (hrefused first List.mem_cons_self)
      exact ⟨stop, (stopping_stopServers o servers _).stops stop hstop, hsession⟩
    | tail _ he =>
      exact ih (s.stopServer o first) (fun x hx => hvisible x (List.mem_cons_of_mem _ hx))
        (fun x hx => hrefused x (List.mem_cons_of_mem _ hx)) e he

theorem Sound.ended (h : Sound r s) (hopen : s.status.isTerminal = false)
    (hrefused : ∀ e ∈ s.servers, o.refusesStop e.sessionId = false) {t u : RestoreState}
    (hstarts : t.starts = s.starts) (hnext : t.nextNodeTask = s.nextNodeTask)
    (hstops : t.stops = (s.servers.foldl (RestoreState.stopServer o) u).stops)
    (hservers : ∀ e ∈ t.servers, e ∈ s.servers) (hover : t.status.isTerminal = true) :
    Sound r t where
  ids := hstarts ▸ h.ids
  used c hc := hnext ▸ h.used c (hstarts ▸ hc)
  once := hstarts ▸ h.once
  asked c hc := h.asked c (hstarts ▸ hc)
  recorded hnot := by
    rw [hover] at hnot
    cases hnot
  started e he := hstarts ▸ h.started e (hservers e he)
  named e he := h.named e (hservers e he)
  stopped := by
    intro _ c hc
    rw [hstarts] at hc
    obtain ⟨e, he, hsession⟩ := h.recorded hopen c hc
    obtain ⟨hrepository, husername⟩ := Prod.mk.inj hsession
    have hid : e.sessionId = c.sessionId := by
      rw [(h.named e he).1, (h.asked c hc).1, hrepository, husername]
    have hvisible : ∀ x ∈ s.servers, Text.strip x.sessionId = x.sessionId ∧ x.sessionId ≠ "" := by
      intro x hx
      rw [(h.named x hx).1]
      exact strip_sessionId r _ _
    rw [hstops, ← hid]
    exact exists_stops s.servers u hvisible hrefused e he

/-- What a step keeps: the sessions of a restore that goes on stay recorded. -/
structure Stepped (r : RestoreTask) (s s' : RestoreState) : Prop where
  sound : Sound r s'
  recorded : s'.status.isTerminal = false → ∀ e ∈ s.servers, ∃ e' ∈ s'.servers,
    e'.session = e.session

theorem Stepped.of_passed (h : Passed r s s') : Stepped r s s' := ⟨h.sound, fun _ => h.recorded⟩

theorem stepped_finalizeRecordIfDone (h : Sound r s) (hopen : s.status.isTerminal = false)
    (hrefused : ∀ e ∈ s.servers, o.refusesStop e.sessionId = false) :
    Stepped r s (s.finalizeRecordIfDone o) := by
  rw [RestoreState.finalizeRecordIfDone]
  split
  · exact .of_passed (.refl h hopen)
  · have hstopping := stopping_stopServers o s.servers s
    have hover : (if s.items.any (fun item => item.status = .failed || item.status = .cancelled)
        then TaskStatus.failed else .success).isTerminal = true := by
      split <;> rfl
    refine ⟨h.ended hopen hrefused hstopping.starts hstopping.nextNodeTask rfl
      (fun e he => by cases he) hover, fun hnot => ?_⟩
    exact absurd (hover.symm.trans hnot) Bool.noConfusion

theorem stepped_cancelRestore (h : Sound r s) (hopen : s.status.isTerminal = false)
    (hrefused : ∀ e ∈ s.servers, o.refusesStop e.sessionId = false) :
    Stepped r s (s.cancelRestore o) := by
  have hstopping := stopping_stopServers o s.servers
    ({ s with status := .cancelled }.updateItems (fun i => i.status.isOpen) fun i =>
      { i with status := .cancelled })
  have hover : (s.cancelRestore o).status.isTerminal = true := congrArg _ hstopping.status
  refine ⟨h.ended hopen hrefused hstopping.starts hstopping.nextNodeTask rfl
    (fun e he => hstopping.servers ▸ he) hover, fun hnot => ?_⟩
  exact absurd (hover.symm.trans hnot) Bool.noConfusion

/-! ## Runs -/

/-- A pass takes over sessions that have their repository for themselves, and the end
finds every stop accepted. -/
def Undisturbed (r : RestoreTask) (s : RestoreState) : RestoreEvent → Prop
  | .dispatch o => ∀ session ∈ s.readySessions r o (s.selectedItems r o), TakenOver s session
  | .startEnds .. => True
  | .startFailed o | .itemEnds o .. | .nodeGone o | .cancel o =>
    ∀ e ∈ s.servers, o.refusesStop e.sessionId = false

instance (s : RestoreState) (session : Nat × String) : Decidable (TakenOver s session) :=
  inferInstanceAs (Decidable (∀ e ∈ s.servers, e.repositoryId = session.1 →
    e.serverUsername = session.2))

instance (r : RestoreTask) (s : RestoreState) (a : RestoreEvent) :
    Decidable (Undisturbed r s a) :=
  match a with
  | .dispatch o => inferInstanceAs (Decidable (∀ session ∈
      s.readySessions r o (s.selectedItems r o), TakenOver s session))
  | .startEnds .. => isTrue trivial
  | .startFailed o | .itemEnds o .. | .nodeGone o | .cancel o =>
    inferInstanceAs (Decidable (∀ e ∈ s.servers, o.refusesStop e.sessionId = false))

/-- The end of a start changes the commands of the session one by one. -/
theorem exists_startEnds (s : RestoreState) (id : Nat)
    (outcome : Except String (String × String × String)) :
    ∃ f : StartCommand → StartCommand,
      (∀ c, (f c).id = c.id ∧ (f c).session = c.session ∧ (f c).sessionId = c.sessionId) ∧
      (∀ c result, (∀ r, c.status = .success r → r.sessionId = c.sessionId) →
        (f c).status = .success result → result.sessionId = c.sessionId) ∧
      s.startEnds id outcome = { s with starts := s.starts.map f } := by
  refine ⟨_, fun c => ?_, fun c result hc hstatus => ?_, rfl⟩
  · split <;> exact ⟨rfl, rfl, rfl⟩
  · split at hstatus
    · cases outcome with
      | error error => cases hstatus
      | ok p => exact (StartStatus.success.inj hstatus) ▸ rfl
    · exact hc result hstatus

theorem stepped_startEnds (h : Sound r s) (id : Nat)
    (outcome : Except String (String × String × String)) : Stepped r s (s.startEnds id outcome) := by
  obtain ⟨f, hkept, hanswer, heq⟩ := exists_startEnds s id outcome
  rw [heq]
  have hreturned : ∀ c ∈ s.starts, ∀ result, (f c).status = .success result →
      result.sessionId = c.sessionId :=
    fun c hc result => hanswer c result (h.asked c hc).2
  refine ⟨⟨h.ids.map fun c => (hkept c).1, ?_, ?_, ?_, ?_, ?_, h.named, ?_⟩,
    fun _ e he => ⟨e, he, rfl⟩⟩
  · intro c' hc'
    obtain ⟨c, hc, rfl⟩ := List.mem_map.mp hc'
    rw [(hkept c).1]
    exact h.used c hc
  · have hsessions : (s.starts.map f).map StartCommand.session =
        s.starts.map StartCommand.session := by
      rw [List.map_map]
      exact List.map_congr_left fun c _ => (hkept c).2.1
    rw [hsessions]
    exact h.once
  · intro c' hc'
    obtain ⟨c, hc, rfl⟩ := List.mem_map.mp hc'
    obtain ⟨hrepository, husername⟩ := Prod.mk.inj (hkept c).2.1
    rw [(hkept c).2.2, hrepository, husername]
    exact ⟨(h.asked c hc).1, hreturned c hc⟩
  · intro hopen c' hc'
    obtain ⟨c, hc, rfl⟩ := List.mem_map.mp hc'
    rw [(hkept c).2.1]
    exact h.recorded hopen c hc
  · intro e he
    obtain ⟨c, hc, hid, hsession⟩ := h.started e he
    exact ⟨f c, List.mem_map_of_mem hc, (hkept c).1.trans hid, (hkept c).2.1.trans hsession⟩
  · intro hover c' hc'
    obtain ⟨c, hc, rfl⟩ := List.mem_map.mp hc'
    rw [(hkept c).2.2]
    exact h.stopped hover c hc

theorem stepped_items (h : Sound r s) (hopen : s.status.isTerminal = false)
    (hrefused : ∀ e ∈ s.servers, o.refusesStop e.sessionId = false) (items : List RestoreItem) :
    Stepped r s ({ s with items := items }.finalizeRecordIfDone o) := by
  have hitems : Sound r { s with items := items } := h.congr rfl (Nat.le_refl _) rfl rfl rfl
  have hstepped := stepped_finalizeRecordIfDone hitems hopen hrefused
  exact ⟨hstepped.sound, hstepped.recorded⟩

theorem stepped_step {a : RestoreEvent} (h : Sound r s) (hundisturbed : Undisturbed r s a)
    (hs : restoreStep r s a = some s') : Stepped r s s' := by
  have hopen : ∀ {x : Option RestoreState}, (if s.status.isTerminal then none else x) = some s' →
      s.status.isTerminal = false ∧ x = some s' := by
    intro x hx
    split at hx
    · cases hx
    · exact ⟨Bool.eq_false_iff.mpr ‹_›, hx⟩
  cases a with
  | startEnds id outcome =>
    cases hs
    exact stepped_startEnds h id outcome
  | dispatch o =>
    obtain ⟨hrunning, hdispatch⟩ := hopen hs
    exact .of_passed (passed_dispatchRestoreItems h hrunning hundisturbed (ok_of_toOption hdispatch))
  | startFailed o =>
    obtain ⟨hrunning, hfail⟩ := hopen hs
    cases hfail
    exact stepped_items h hrunning hundisturbed _
  | itemEnds o nodeTaskId status offline =>
    rw [restoreStep] at hs
    split at hs
    · cases hs
    · rename_i hready
      cases hs
      have hrunning : s.status.isTerminal = false :=
        (Bool.or_eq_false_iff.mp (Bool.eq_false_iff.mpr hready)).1
      rw [RestoreState.syncRestoreItem]
      split
      · exact stepped_items h hrunning hundisturbed _
      · split
        · exact stepped_items h hrunning hundisturbed _
        · exact stepped_items h hrunning hundisturbed _
  | nodeGone o =>
    obtain ⟨hrunning, hfail⟩ := hopen hs
    cases hfail
    exact stepped_items h hrunning hundisturbed _
  | cancel o =>
    obtain ⟨hrunning, hcancel⟩ := hopen hs
    cases hcancel
    exact stepped_cancelRestore h hrunning hundisturbed

structure Remembered (s s' : RestoreState) : Prop where
  recorded : s'.status.isTerminal = false → ∀ e ∈ s.servers, ∃ e' ∈ s'.servers,
    e'.session = e.session
  once : (s'.starts.map StartCommand.session).Nodup
  stopped : s'.status.isTerminal = true → ∀ c ∈ s'.starts,
    ∃ stop ∈ s'.stops, stop.sessionId = c.sessionId

theorem sound_start (r : RestoreTask) (items : List RestoreItem) : Sound r { items := items } where
  ids := .nil
  used c hc := by cases hc
  once := List.nodup_nil
  asked c hc := by cases hc
  recorded _ c hc := by cases hc
  started e he := by cases he
  named e he := by cases he
  stopped _ c hc := by cases hc

/-- In every undisturbed run, recorded sessions stay recorded until the restore ends, a
session is started at most once, and the end stops every session. -/
theorem servers_remembered {items : List RestoreItem} {events : List RestoreEvent}
    (h : (restore r items).Every (fun s a _ => Undisturbed r s a) { items := items } events) :
    (restore r items).Every (fun s _ s' => Remembered s s') { items := items } events := by
  refine System.every_of_invariant (I := Sound r) (fun s a s' hsound hs hundisturbed => ?_)
    (sound_start r items) h
  have hstepped := stepped_step hsound hundisturbed hs
  exact ⟨hstepped.sound, hstepped.recorded, hstepped.sound.once, hstepped.sound.stopped⟩

def twoNames : Names where
  lower := Text.lower
  usernameHash username := if username = "root@alpha" then "3bf4a95147da" else "e908bd0cdfc7"
  strip_lower _ := Text.strip_lower
  hash_ne_nil username := by split <;> decide
  hash_visible username := by
    intro c hc
    have hroot : ("3bf4a95147da".toList.all fun c => !Text.isPySpace c) = true := by decide
    have hother : ("e908bd0cdfc7".toList.all fun c => !Text.isPySpace c) = true := by decide
    split at hc
    · exact (Bool.not_eq_true' _).mp (List.all_eq_true.mp hroot c hc)
    · exact (Bool.not_eq_true' _).mp (List.all_eq_true.mp hother c hc)

/-- A restore to one node of items whose repository is bound to another. -/
def twoUsers : RestoreTask where
  names := twoNames
  taskId := 5
  taskUuid := "t"
  workspace := false

/-- Snapshots of two users: the second item is the other user's. -/
def elsewhere : Outside where
  reader _ := .ok (.other ⟨9, by decide⟩)
  snapshotSource item := some ("root", if item.id = 2 then "beta" else "alpha")
  publicHost _ := ("10.0.0.9", "node")

def serverStarts (id : Nat) : RestoreEvent := .startEnds id (.ok ("https://10.0.0.9", "u", "p"))

def itemOf (id : Nat) : RestoreItem where
  id := id
  repositoryId := 1

def runOf (items : List RestoreItem) (events : List RestoreEvent) : Option RestoreState :=
  (restore twoUsers items).exec { items := items } events

/-- Two items of one user: the server is started once and stopped. -/
def oneUser : List RestoreEvent :=
  [.dispatch elsewhere, serverStarts 0, .dispatch elsewhere,
    .itemEnds elsewhere 1 .success false, .itemEnds elsewhere 2 .success false]

theorem servers_remembered_oneUser :
    (restore twoUsers [itemOf 1, itemOf 3]).Every (fun s _ s' => Remembered s s')
        { items := [itemOf 1, itemOf 3] } oneUser ∧
      (runOf [itemOf 1, itemOf 3] oneUser).map
        (fun s => (s.status, s.starts.length, s.stops.length)) = some (.success, 1, 1) := by
  refine ⟨servers_remembered ?_, by decide +kernel⟩
  decide +kernel

/-- The server of the second user takes the place of the first one's. -/
def otherUser : List RestoreEvent :=
  [.dispatch elsewhere, serverStarts 0, .dispatch elsewhere, serverStarts 2, .dispatch elsewhere]

/-- The state before the pass that takes over the second user's server. -/
def bothUsers : RestoreState :=
  (runOf [itemOf 1, itemOf 2] (otherUser.take 4)).get (by decide +kernel)

def bothEnd : List RestoreEvent :=
  [.itemEnds elsewhere 1 .success false, .itemEnds elsewhere 3 .success false]

/-- A session is forgotten by a pass and not stopped at the end. When a third item needs
it, it is started again. -/
theorem not_servers_remembered :
    (∃ s', restoreStep twoUsers bothUsers (.dispatch elsewhere) = some s' ∧ s'.status = .running ∧
      ∃ e ∈ bothUsers.servers, ∀ e' ∈ s'.servers, e'.session ≠ e.session) ∧
    (∃ s, runOf [itemOf 1, itemOf 2] (otherUser ++ bothEnd) = some s ∧ s.status = .success ∧
      ∃ c ∈ s.starts, ∀ stop ∈ s.stops, stop.sessionId ≠ c.sessionId) ∧
    ∃ s, runOf [itemOf 1, itemOf 2, itemOf 3] otherUser = some s ∧
      ¬(s.starts.map StartCommand.session).Nodup :=
  ⟨⟨(restoreStep twoUsers bothUsers (.dispatch elsewhere)).get (by decide +kernel),
      (Option.some_get _).symm, by decide +kernel⟩,
    ⟨(runOf [itemOf 1, itemOf 2] (otherUser ++ bothEnd)).get (by decide +kernel),
      (Option.some_get _).symm, by decide +kernel⟩,
    ⟨(runOf [itemOf 1, itemOf 2, itemOf 3] otherUser).get (by decide +kernel),
      (Option.some_get _).symm, by decide +kernel⟩⟩

end HyperFileLens.Restore
