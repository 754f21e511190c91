import HyperFileLens.Library.Transition

/-!
# The route of an Agent

A key in Redis tells which WebSocket instance an Agent is connected to, and by which session. A
session that connects writes it, every frame of an open session renews it, and a session that
disconnects clears it when it is its own. An instance that starts clears what it has left behind.

*Renewal.*  A frame watches the key, reads it, and renews the lease or writes the key again in a
transaction. The transaction fails when the key was touched since. `version` counts the touches.

*Start-up.*  An instance reads all the keys before it deletes those that were its own. It has no
sessions meanwhile.

Ids of sessions are not empty and never used twice. Times are in milliseconds.
-/

namespace HyperFileLens.Node

open Transition

namespace AgentRoute

abbrev Instance := String
abbrev Session := Nat

/-- The value of the key, and the last time at which it is found. -/
structure Route where
  ws : Instance
  session : Session
  expiry : Nat
deriving DecidableEq

/-- Where a call of `ensure_agent_location_on_heartbeat` is. -/
inductive Phase where
  | idle
  | watching (version : Nat)
  /-- The key was read. -/
  | checked (version : Nat) (found : Bool)
  | done
deriving DecidableEq

structure Call where
  session : Session
  ws : Instance
  attempts : Nat
  phase : Phase
deriving DecidableEq

structure Connection where
  session : Session
  ws : Instance
  opened : Bool
deriving DecidableEq

structure State where
  now : Nat
  route : Option Route
  version : Nat
  connections : List Connection
  calls : List Call
  /-- A start-up that is under way, and whether it has found the key to be its own. -/
  cleaning : Instance → Option Bool

inductive Event where
  /-- `set_agent_location` -/
  | connect (session : Session) (ws : Instance)
  | frame (session : Session)
  | watch (call : Nat)
  | get (call : Nat)
  | exec (call : Nat)
  | disconnect (session : Session)
  | restart (ws : Instance)
  | cleanGet (ws : Instance)
  | cleanDelete (ws : Instance)
  | wait (ms : Nat)
deriving DecidableEq

namespace State

def newest (s : State) : Option Session := s.connections.head?.map Connection.session

def connection (s : State) (session : Session) : Option Connection :=
  (s.connections.find? (·.session = session)).filter Connection.opened

def touch (s : State) (route : Option Route) : State :=
  { s with route := route, version := s.version + 1 }

def setCall (s : State) (i : Nat) (call : Call) : State := { s with calls := s.calls.set i call }

def close (s : State) (p : Connection → Bool) : State :=
  { s with connections := s.connections.map fun c =>
      { c with opened := c.opened && !p c } }

end State

/-- The script of `clear_agent_location_if_session`. -/
def clearIfSession (s : State) (session : Session) : State :=
  match s.route with
  | none => s
  | some route => if route.session ≠ session then s else s.touch none

def execute (ttl : Nat) (s : State) (i : Nat) (call : Call) (version : Nat) (found : Bool) : State :=
  if s.version ≠ version then
    s.setCall i { call with
      attempts := call.attempts - 1
      phase := if call.attempts ≤ 1 then .done else .idle }
  else
    let expiry := s.now + 1000 * ttl
    let renewed :=
      if found then s.touch (s.route.map fun route => { route with expiry := expiry })
      else s.touch (some ⟨call.ws, call.session, expiry⟩)
    renewed.setCall i { call with phase := .done }

def step (ttl : Nat) (s : State) : Event → Option State
  | .connect session ws =>
    if s.connections.any (·.session = session) ∨ s.cleaning ws ≠ none then none
    else some { s.touch (some ⟨ws, session, s.now + 1000 * ttl⟩) with
      connections := ⟨session, ws, true⟩ :: s.connections }
  | .frame session =>
    (s.connection session).map fun c =>
      { s with calls := s.calls ++ [⟨session, c.ws, 2, .idle⟩] }
  | .watch i =>
    match s.calls[i]? with
    | some call =>
      if call.phase = .idle then
        some (s.setCall i { call with phase := .watching s.version })
      else none
    | none => none
  | .get i =>
    match s.calls[i]? with
    | some call =>
      match call.phase, s.route with
      | .watching version, none =>
        some (s.setCall i { call with phase := .checked version false })
      | .watching version, some route =>
        some (s.setCall i { call with
          phase := if route.session ≠ call.session then .done else .checked version true })
      | _, _ => none
    | none => none
  | .exec i =>
    match s.calls[i]? with
    | some call =>
      match call.phase with
      | .checked version found => some (execute ttl s i call version found)
      | _ => none
    | none => none
  | .disconnect session =>
    if (s.connection session).isSome then
      some ((clearIfSession s session).close (·.session = session))
    else none
  | .restart ws =>
    some { s.close (·.ws = ws) with
      calls := s.calls.map fun c => if c.ws = ws then { c with phase := .done } else c
      cleaning := Function.update s.cleaning ws (some false) }
  | .cleanGet ws =>
    match s.cleaning ws with
    | some collected =>
      let mine := s.route.any (·.ws = ws)
      some { s with cleaning := Function.update s.cleaning ws (some (collected || mine)) }
    | none => none
  | .cleanDelete ws =>
    match s.cleaning ws with
    | some collected =>
      some { (if collected then s.touch none else s) with
        cleaning := Function.update s.cleaning ws none }
    | none => none
  | .wait ms =>
    let later := { s with now := s.now + ms }
    if s.route.any (·.expiry < s.now + ms) then some (later.touch none) else some later

/-- One Agent, with a time to live of its route in seconds. -/
def system (ttl : Nat) : System State Event where
  init s := s.route = none ∧ s.connections = [] ∧ s.calls = [] ∧ s.cleaning = fun _ => none
  step := step ttl

/-! ## Orderly runs -/

/-- A frame writes a missing key only for the last session, and a start-up deletes only a key
that no other instance has written since. -/
def Orderly (s : State) : Event → Prop
  | .exec i => ∀ call, s.calls[i]? = some call → call.phase = .checked s.version false →
      s.newest = some call.session
  | .cleanDelete ws => s.cleaning ws = some true → ∀ route ∈ s.route, route.ws = ws
  | _ => True

def Event.actsFor (s : State) : Event → Option Session
  | .exec i => s.calls[i]?.map Call.session
  | .disconnect session => some session
  | _ => none

variable {ttl : Nat} {s s' : State} {i : Nat}

/-! ## What a call knows -/

/-- A call has a connection, and what it has read stands as long as the key is not touched. -/
structure CallOk (s : State) (call : Call) : Prop where
  connected : ∃ c ∈ s.connections, c.session = call.session ∧ c.ws = call.ws
  watched : ∀ version, call.phase = .watching version → version ≤ s.version
  checked : ∀ version found, call.phase = .checked version found → version ≤ s.version
  found : call.phase = .checked s.version true → ∃ route, s.route = some route ∧
    route.session = call.session

/-- The route is that of the session that has connected last. -/
structure Sound (s : State) : Prop where
  route : ∀ route, s.route = some route → ∃ c rest, s.connections = c :: rest ∧
    c.session = route.session ∧ c.ws = route.ws
  calls : ∀ call ∈ s.calls, CallOk s call
  keyed : ∀ c ∈ s.connections, ∀ c' ∈ s.connections, c.session = c'.session → c.ws = c'.ws
  cleaning : ∀ ws, s.cleaning ws ≠ none → ∀ c ∈ s.connections, c.ws = ws → c.opened = false

theorem Sound.newest (h : Sound s) {route : Route} (hroute : s.route = some route) :
    s.newest = some route.session := by
  obtain ⟨c, rest, hconnections, hsession, -⟩ := h.route route hroute
  rw [State.newest, hconnections, ← hsession]
  rfl

variable {call : Call}

theorem CallOk.same (h : CallOk s call)
    (hconnections : ∀ c ∈ s.connections, ∃ c' ∈ s'.connections, c'.session = c.session ∧ c'.ws =
      c.ws) (hversion : s'.version = s.version) (hroute : s'.route = s.route) : CallOk s' call := by
  obtain ⟨c, hc, hsession, hws⟩ := h.connected
  obtain ⟨c', hc', hsession', hws'⟩ := hconnections c hc
  refine ⟨⟨c', hc', hsession'.trans hsession, hws'.trans hws⟩, ?_, ?_, ?_⟩
  · rw [hversion]
    exact h.watched
  · rw [hversion]
    exact h.checked
  · rw [hversion, hroute]
    exact h.found

theorem CallOk.touched (h : CallOk s call)
    (hconnections : ∀ c ∈ s.connections, ∃ c' ∈ s'.connections, c'.session = c.session ∧ c'.ws =
      c.ws) (hversion : s.version < s'.version) : CallOk s' call := by
  obtain ⟨c, hc, hsession, hws⟩ := h.connected
  obtain ⟨c', hc', hsession', hws'⟩ := hconnections c hc
  refine ⟨⟨c', hc', hsession'.trans hsession, hws'.trans hws⟩, fun v hv => ?_, fun v f hv => ?_,
    fun hv => ?_⟩
  · exact Nat.le_of_lt (Nat.lt_of_le_of_lt (h.watched v hv) hversion)
  · exact Nat.le_of_lt (Nat.lt_of_le_of_lt (h.checked v f hv) hversion)
  · exact absurd (h.checked _ _ hv) (Nat.not_le.mpr hversion)

/-! ## Steps -/

theorem sessions_close (p : Connection → Bool) :
    ∀ c ∈ s.connections, ∃ c' ∈ (s.close p).connections, c'.session = c.session ∧ c'.ws = c.ws :=
  fun c hc => ⟨_, List.mem_map.mpr ⟨c, hc, rfl⟩, rfl, rfl⟩

theorem Sound.close (h : Sound s) (p : Connection → Bool) : Sound (s.close p) := by
  refine ⟨fun route hroute => ?_, fun call hcall => ?_, fun c hc c' hc' heq => ?_,
    fun ws hws c hc heq => ?_⟩
  · obtain ⟨c, rest, hconnections, hsession, hws⟩ := h.route route hroute
    have hclose : (s.close p).connections = { c with opened := c.opened && !p c } ::
        rest.map fun c => { c with opened := c.opened && !p c } := by
      rw [State.close, hconnections]
      rfl
    exact ⟨_, _, hclose, hsession, hws⟩
  · exact (h.calls call hcall).same (sessions_close p) rfl rfl
  · obtain ⟨d, hd, rfl⟩ := List.mem_map.mp hc
    obtain ⟨d', hd', rfl⟩ := List.mem_map.mp hc'
    exact h.keyed d hd d' hd' heq
  · obtain ⟨d, hd, rfl⟩ := List.mem_map.mp hc
    have hclosed := h.cleaning ws hws d hd heq
    simp [hclosed]

theorem Sound.clear (h : Sound s) : Sound (s.touch none) := by
  refine ⟨fun route hroute => ?_, fun call hcall => ?_, h.keyed, h.cleaning⟩
  · cases hroute
  · exact (h.calls call hcall).touched (fun c hc => ⟨c, hc, rfl, rfl⟩) (Nat.lt_succ_self _)

theorem Sound.setCall (h : Sound s) (hcall : CallOk s call) : Sound (s.setCall i call) := by
  refine ⟨h.route, fun c hc => ?_, h.keyed, h.cleaning⟩
  rcases List.mem_or_eq_of_mem_set hc with hc | rfl
  · exact (h.calls c hc).same (fun c hc => ⟨c, hc, rfl, rfl⟩) rfl rfl
  · exact hcall.same (fun c hc => ⟨c, hc, rfl, rfl⟩) rfl rfl

theorem CallOk.rest {call call' : Call} (h : CallOk s call) (hsession : call'.session = call.session)
    (hws : call'.ws = call.ws) (hphase : call'.phase = .idle ∨ call'.phase = .done) :
    CallOk s call' := by
  refine ⟨?_, fun v hv => ?_, fun v f hv => ?_, fun hv => ?_⟩
  · rw [hsession, hws]
    exact h.connected
  · rcases hphase with hphase | hphase
    · simp [hphase] at hv
    · simp [hphase] at hv
  · rcases hphase with hphase | hphase
    · simp [hphase] at hv
    · simp [hphase] at hv
  · rcases hphase with hphase | hphase
    · simp [hphase] at hv
    · simp [hphase] at hv

section

variable (h : Sound s)

include h

variable {ws : Instance} {session : Session}

theorem Sound.connect (hstep : step ttl s (.connect session ws) = some s') : Sound s' := by
  simp only [step] at hstep
  split at hstep
  · cases hstep
  · rename_i hfresh
    obtain ⟨hnew, hidle⟩ := not_or.mp hfresh
    have hnew' : ∀ c ∈ s.connections, c.session ≠ session := by simpa using hnew
    cases hstep
    refine ⟨?_, fun call hcall => ?_, fun c hc c' hc' heq => ?_, fun w hw c hc heq => ?_⟩
    · rintro route ⟨⟩
      exact ⟨_, _, rfl, rfl, rfl⟩
    · exact (h.calls call hcall).touched (fun c hc => ⟨c, List.mem_cons_of_mem _ hc, rfl, rfl⟩)
        (Nat.lt_succ_self _)
    · rcases List.mem_cons.mp hc with rfl | hc
      · rcases List.mem_cons.mp hc' with rfl | hc'
        · rfl
        · exact absurd heq.symm (hnew' c' hc')
      · rcases List.mem_cons.mp hc' with rfl | hc'
        · exact absurd heq (hnew' c hc)
        · exact h.keyed c hc c' hc' heq
    · rcases List.mem_cons.mp hc with rfl | hc
      · subst heq
        exact absurd hw hidle
      · exact h.cleaning w hw c hc heq

theorem Sound.frame (hstep : step ttl s (.frame session) = some s') : Sound s' := by
  simp only [step, Option.map_eq_some_iff] at hstep
  obtain ⟨c, hc, rfl⟩ := hstep
  obtain ⟨hfind, -⟩ := Option.filter_eq_some_iff.mp hc
  have hmem := List.mem_of_find?_eq_some hfind
  have hsession : c.session = session := by simpa using List.find?_some hfind
  refine ⟨h.route, fun call hcall => ?_, h.keyed, h.cleaning⟩
  rcases List.mem_append.mp hcall with hcall | hcall
  · exact (h.calls call hcall).same (fun c hc => ⟨c, hc, rfl, rfl⟩) rfl rfl
  · rw [List.mem_singleton.mp hcall]
    exact ⟨⟨c, hmem, hsession, rfl⟩, (fun v hv => by cases hv), (fun v f hv => by cases hv),
      fun hv => by cases hv⟩

theorem Sound.watch (hstep : step ttl s (.watch i) = some s') : Sound s' := by
  simp only [step] at hstep
  split at hstep
  · rename_i call hcall
    split at hstep
    · cases hstep
      have hok := h.calls call (List.mem_of_getElem? hcall)
      refine h.setCall ⟨hok.connected, ?_, (fun v f hv => by cases hv), fun hv => by cases hv⟩
      rintro v ⟨⟩
      exact Nat.le_refl _
    · cases hstep
  · cases hstep

theorem Sound.get (hstep : step ttl s (.get i) = some s') : Sound s' := by
  simp only [step] at hstep
  split at hstep
  · rename_i call hcall
    have hok := h.calls call (List.mem_of_getElem? hcall)
    split at hstep
    · rename_i version hphase hroute
      cases hstep
      refine h.setCall ⟨hok.connected, (fun v hv => by cases hv), ?_, fun hv => by cases hv⟩
      rintro v f ⟨⟩
      exact hok.watched _ hphase
    · rename_i version route hphase hroute
      cases hstep
      by_cases hother : route.session ≠ call.session
      · rw [if_pos hother]
        exact h.setCall (hok.rest rfl rfl (.inr rfl))
      · rw [if_neg hother]
        refine h.setCall ⟨hok.connected, (fun v hv => by cases hv), ?_, fun _ => ?_⟩
        · rintro v f ⟨⟩
          exact hok.watched _ hphase
        · exact ⟨route, hroute, not_not.mp hother⟩
    · cases hstep
  · cases hstep

theorem Sound.exec (hok : Orderly s (.exec i))
    (hstep : step ttl s (.exec i) = some s') : Sound s' := by
  simp only [step] at hstep
  split at hstep
  · rename_i call hcall
    have hcallOk := h.calls call (List.mem_of_getElem? hcall)
    split at hstep
    · rename_i version found hphase
      cases hstep
      rw [execute]
      split
      · refine h.setCall (hcallOk.rest rfl rfl ?_)
        by_cases hlast : call.attempts ≤ 1
        · simp [hlast]
        · simp [hlast]
      · rename_i hversion
        have hsame : s.version = version := not_not.mp hversion
        have htouched : ∀ route, (∀ r, route = some r → ∃ c rest, s.connections = c :: rest ∧
            c.session = r.session ∧ c.ws = r.ws) → Sound (s.touch route) := by
          intro route hroute
          exact ⟨hroute, fun c hc => (h.calls c hc).touched (fun c hc => ⟨c, hc, rfl, rfl⟩)
            (Nat.lt_succ_self _), h.keyed, h.cleaning⟩
        have hfinish : ∀ route, Sound (s.touch route) →
            Sound ((s.touch route).setCall i { call with phase := .done }) := by
          intro route hroute
          refine hroute.setCall (CallOk.rest (hcallOk.touched (fun c hc => ⟨c, hc, rfl, rfl⟩)
            (Nat.lt_succ_self _)) rfl rfl (.inr rfl))
        cases found with
        | true =>
          refine hfinish _ (htouched _ fun r hr => ?_)
          obtain ⟨route, hroute, rfl⟩ := Option.map_eq_some_iff.mp hr
          exact h.route route hroute
        | false =>
          refine hfinish _ (htouched _ fun r hr => ?_)
          obtain ⟨c, hc, hsession, hws⟩ := hcallOk.connected
          have hnewest := hok call hcall (hsame ▸ hphase)
          cases hr
          cases hconnections : s.connections with
          | nil => simp [hconnections] at hc
          | cons first rest =>
            have hfirst : first.session = call.session := by
              simpa [State.newest, hconnections] using hnewest
            refine ⟨first, rest, rfl, hfirst, ?_⟩
            rw [← hws]
            exact h.keyed first (by simp [hconnections]) c hc (hfirst.trans hsession.symm)
    · cases hstep
  · cases hstep

theorem Sound.clearIfSession (session : Session) : Sound (clearIfSession s session) := by
  rw [AgentRoute.clearIfSession]
  split
  · exact h
  · split
    · exact h
    · exact h.clear

theorem Sound.restart (hstep : step ttl s (.restart ws) = some s') : Sound s' := by
  simp only [step, Option.some.injEq] at hstep
  subst hstep
  have hclose := h.close (·.ws = ws)
  refine ⟨hclose.route, fun call hcall => ?_, hclose.keyed, fun w hw c hc heq => ?_⟩
  · obtain ⟨before, hbefore, rfl⟩ := List.mem_map.mp hcall
    have hok := (h.calls before hbefore).same (sessions_close (·.ws = ws)) rfl rfl
    split
    · have hdone : CallOk (s.close (·.ws = ws)) { before with phase := .done } :=
        hok.rest rfl rfl (.inr rfl)
      exact hdone.same (fun c hc => ⟨c, hc, rfl, rfl⟩) rfl rfl
    · exact hok.same (fun c hc => ⟨c, hc, rfl, rfl⟩) rfl rfl
  · by_cases hws : w = ws
    · obtain ⟨before, -, rfl⟩ := List.mem_map.mp hc
      have hmine : before.ws = ws := heq.trans hws
      simp [hmine]
    · refine hclose.cleaning w ?_ c hc heq
      change Function.update s.cleaning ws (some false) w ≠ none at hw
      rwa [Function.update_of_ne hws] at hw

theorem Sound.setCleaning {cleaning : Option Bool} (hws : cleaning ≠ none → s.cleaning ws ≠ none) :
    Sound { s with cleaning := Function.update s.cleaning ws cleaning } := by
  refine ⟨h.route, fun call hcall => (h.calls call hcall).same (fun c hc => ⟨c, hc, rfl, rfl⟩)
    rfl rfl, h.keyed, fun w hw c hc heq => ?_⟩
  change Function.update s.cleaning ws cleaning w ≠ none at hw
  by_cases hsame : w = ws
  · subst hsame
    rw [Function.update_self] at hw
    exact h.cleaning w (hws hw) c hc heq
  · rw [Function.update_of_ne hsame] at hw
    exact h.cleaning w hw c hc heq

theorem Sound.wait {ms : Nat} (hstep : step ttl s (.wait ms) = some s') : Sound s' := by
  have hlater : Sound { s with now := s.now + ms } :=
    ⟨h.route, fun call hcall => (h.calls call hcall).same (fun c hc => ⟨c, hc, rfl, rfl⟩) rfl rfl,
      h.keyed, h.cleaning⟩
  simp only [step] at hstep
  split at hstep
  · cases hstep
    exact hlater.clear
  · cases hstep
    exact hlater

theorem Sound.step {event : Event} (hok : Orderly s event)
    (hstep : step ttl s event = some s') : Sound s' := by
  cases event with
  | connect session ws => exact h.connect hstep
  | frame session => exact h.frame hstep
  | watch i => exact h.watch hstep
  | get i => exact h.get hstep
  | exec i => exact h.exec hok hstep
  | disconnect session =>
    simp only [AgentRoute.step] at hstep
    split at hstep
    · cases hstep
      exact (h.clearIfSession session).close _
    · cases hstep
  | restart ws => exact h.restart hstep
  | cleanGet ws =>
    simp only [AgentRoute.step] at hstep
    split at hstep
    · rename_i collected hcleaning
      cases hstep
      exact h.setCleaning fun _ => by simp [hcleaning]
    · cases hstep
  | cleanDelete ws =>
    simp only [AgentRoute.step] at hstep
    split at hstep
    · rename_i collected hcleaning
      cases hstep
      cases collected with
      | false => exact h.setCleaning fun hne => absurd rfl hne
      | true => exact h.clear.setCleaning fun hne => absurd rfl hne
    · cases hstep
  | wait ms => exact h.wait hstep

end

theorem Sound.of_reachable (h : (system ttl).ReachableUnder Orderly s) : Sound s := by
  refine h.invariant (I := Sound) ?_ ?_
  · rintro s ⟨hroute, hconnections, hcalls, hcleaning⟩
    refine ⟨?_, ?_, ?_, ?_⟩
    · simp [hroute]
    · simp [hcalls]
    · simp [hconnections]
    · simp [hcleaning]
  · intro s event s' hsound hok hstep
    exact hsound.step hok hstep

/-! ## The route belongs to the last session -/

theorem Sound.unchanged (h : Sound s) {event : Event} (hok : Orderly s event)
    (hstep : AgentRoute.step ttl s event = some s') {session : Session}
    (hacts : event.actsFor s = some session) (hearlier : s.newest ≠ some session) :
    s'.route = s.route := by
  cases event with
  | exec i =>
    simp only [AgentRoute.step] at hstep
    split at hstep
    · rename_i call hcall
      have hsession : call.session = session := by
        simpa [Event.actsFor, hcall] using hacts
      split at hstep
      · rename_i version found hphase
        cases hstep
        rw [execute]
        split
        · rfl
        · rename_i hversion
          have hsame : s.version = version := not_not.mp hversion
          subst hsame
          cases found with
          | true =>
            obtain ⟨route, hroute, howner⟩ :=
              (h.calls call (List.mem_of_getElem? hcall)).found hphase
            exact absurd (by rw [h.newest hroute, howner, hsession]) hearlier
          | false => exact absurd (by rw [hok call hcall hphase, hsession]) hearlier
      · cases hstep
    · cases hstep
  | disconnect disconnected =>
    simp only [AgentRoute.step] at hstep
    split at hstep
    · have hsession : disconnected = session := by simpa [Event.actsFor] using hacts
      cases hstep
      show (AgentRoute.clearIfSession s disconnected).route = s.route
      rw [AgentRoute.clearIfSession]
      split
      · rfl
      · rename_i route hroute
        split
        · rfl
        · rename_i howner
          exact absurd (by rw [h.newest hroute, not_not.mp howner, hsession]) hearlier
    · cases hstep
  | connect session ws => cases hacts
  | frame session => cases hacts
  | watch i => cases hacts
  | get i => cases hacts
  | restart ws => cases hacts
  | cleanGet ws => cases hacts
  | cleanDelete ws => cases hacts
  | wait ms => cases hacts

theorem Sound.kept (h : Sound s) {event : Event} (hok : Orderly s event)
    (hstep : AgentRoute.step ttl s event = some s') {route : Route} (hroute : s.route = some route)
    (hopen : s.connection route.session ≠ none) :
    (∃ route', s'.route = some route' ∧ route'.session = route.session) ∨
      event = .disconnect route.session ∨ (∃ session ws, event = .connect session ws) ∨
      ∃ ms, event = .wait ms ∧ route.expiry < s.now + ms := by
  have hsame : s'.route = s.route → ∃ route', s'.route = some route' ∧
      route'.session = route.session := fun heq => ⟨route, heq.trans hroute, rfl⟩
  cases event with
  | connect session ws => exact .inr (.inr (.inl ⟨session, ws, rfl⟩))
  | frame session =>
    simp only [AgentRoute.step, Option.map_eq_some_iff] at hstep
    obtain ⟨c, -, rfl⟩ := hstep
    exact .inl (hsame rfl)
  | watch i =>
    simp only [AgentRoute.step] at hstep
    split at hstep
    · split at hstep
      · cases hstep
        exact .inl (hsame rfl)
      · cases hstep
    · cases hstep
  | get i =>
    simp only [AgentRoute.step] at hstep
    split at hstep
    · split at hstep
      · cases hstep
        exact .inl (hsame rfl)
      · cases hstep
        exact .inl (hsame rfl)
      · cases hstep
    · cases hstep
  | exec i =>
    simp only [AgentRoute.step] at hstep
    split at hstep
    · rename_i call hcall
      split at hstep
      · rename_i version found hphase
        cases hstep
        rw [execute]
        split
        · exact .inl ⟨route, hroute, rfl⟩
        · rename_i hversion
          have hversion' : s.version = version := not_not.mp hversion
          subst hversion'
          refine .inl ?_
          cases found with
          | true =>
            refine ⟨{ route with expiry := s.now + 1000 * ttl }, ?_, rfl⟩
            simp [State.touch, State.setCall, hroute]
          | false =>
            have hnewest := hok call hcall hphase
            rw [h.newest hroute] at hnewest
            exact ⟨_, rfl, (Option.some.inj hnewest).symm⟩
      · cases hstep
    · cases hstep
  | disconnect session =>
    by_cases howner : route.session = session
    · exact .inr (.inl (by rw [howner]))
    · refine .inl (hsame (h.unchanged hok hstep rfl ?_))
      rw [h.newest hroute]
      exact fun heq => howner (Option.some.inj heq)
  | restart ws =>
    simp only [AgentRoute.step, Option.some.injEq] at hstep
    subst hstep
    exact .inl (hsame rfl)
  | cleanGet ws =>
    simp only [AgentRoute.step] at hstep
    split at hstep
    · cases hstep
      exact .inl (hsame rfl)
    · cases hstep
  | cleanDelete ws =>
    simp only [AgentRoute.step] at hstep
    split at hstep
    · rename_i collected hcleaning
      cases hstep
      cases collected with
      | false => exact .inl (hsame rfl)
      | true =>
        -- the route would be that of an instance without open sessions
        obtain ⟨c, rest, hconnections, hsession, hws⟩ := h.route route hroute
        have hmine := hok hcleaning route hroute
        have hclosed := h.cleaning ws (by simp [hcleaning]) c (by simp [hconnections])
          (hws.trans hmine)
        refine absurd ?_ hopen
        simp [State.connection, hconnections, hsession, hclosed]
    · cases hstep
  | wait ms =>
    simp only [AgentRoute.step] at hstep
    split at hstep
    · rename_i hexpired
      rw [hroute] at hexpired
      exact .inr (.inr (.inr ⟨ms, rfl, by simpa using hexpired⟩))
    · cases hstep
      exact .inl (hsame rfl)

def noSession : State := ⟨0, none, 0, [], [], fun _ => none⟩

end AgentRoute
end HyperFileLens.Node
