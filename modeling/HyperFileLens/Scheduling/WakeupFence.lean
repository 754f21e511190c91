import HyperFileLens.Scheduling.PeriodicWakeup

/-!
# Leases of periodic wake-ups are fenced by their tokens

Whatever Beat and the workers do in any order, with messages of any age, a call
changes the lease of its own token only, but for the renewal of a queued lease by
Beat. So a running lease lasts until its token gives it up or it expires, and a
queued lease ends within the second of its deadline.

*Deadlines.*  The scripts subtract the clock in whole seconds from the deadline, and
Redis adds the difference to the clock in milliseconds. The expiry is after the
deadline by the fraction of the second at which the script runs.
-/

namespace HyperFileLens.Scheduling

open KeyStore Service Transition

/-! ## Values -/

def IsLeaseOf (token value : List Char) : Prop :=
  value = claimingPrefix ++ token ∨ value = queuedPrefix ++ token ∨ value = runningPrefix ++ token

theorem head_claiming (token : List Char) : (claimingPrefix ++ token).head? = some 'c' := rfl

theorem head_queued (token : List Char) : (queuedPrefix ++ token).head? = some 'q' := rfl

theorem head_running (token : List Char) : (runningPrefix ++ token).head? = some 'r' := rfl

theorem queuedDeadline_of_head {value : List Char} (h : value.head? ≠ some 'q') :
    queuedDeadline value = none := by
  rw [queuedDeadline, if_neg]
  rintro ⟨rest, rfl⟩
  exact h (head_queued rest)

theorem queuedDeadline_claiming (token : List Char) :
    queuedDeadline (claimingPrefix ++ token) = none :=
  queuedDeadline_of_head (by rw [head_claiming]; decide)

theorem queuedDeadline_running (token : List Char) :
    queuedDeadline (runningPrefix ++ token) = none :=
  queuedDeadline_of_head (by rw [head_running]; decide)

theorem claiming_ne_running (token token' : List Char) :
    claimingPrefix ++ token ≠ runningPrefix ++ token' := fun h => by
  have hhead := congrArg List.head? h
  rw [head_claiming, head_running] at hhead
  exact absurd hhead (by decide)

theorem queued_ne_running (token token' : List Char) :
    queuedPrefix ++ token ≠ runningPrefix ++ token' := fun h => by
  have hhead := congrArg List.head? h
  rw [head_queued, head_running] at hhead
  exact absurd hhead (by decide)

theorem eq_of_isLeaseOf_running {token token' : List Char}
    (h : IsLeaseOf token (runningPrefix ++ token')) : token' = token := by
  rcases h with h | h | h
  · exact absurd h.symm (claiming_ne_running token token')
  · exact absurd h.symm (queued_ne_running token token')
  · exact List.append_cancel_left h

section Tokens

variable {settings : WakeupSettings} {clock : Nat} {nonce : Nonce}

theorem takeWhile_digits (n : Nat) (rest : List Char) :
    (Nat.toDigits 10 n ++ ':' :: rest).takeWhile Char.isDigit = Nat.toDigits 10 n := by
  rw [List.takeWhile_append_of_pos fun c hc => Nat.isDigit_of_mem_toDigits (by decide) (by decide) hc]
  simp [List.takeWhile]

theorem dropWhile_digits (n : Nat) (rest : List Char) :
    (Nat.toDigits 10 n ++ ':' :: rest).dropWhile Char.isDigit = ':' :: rest := by
  rw [List.dropWhile_append_of_pos fun c hc => Nat.isDigit_of_mem_toDigits (by decide) (by decide) hc]
  simp [List.dropWhile]

theorem isPySpace_of_isHex {c : Char} (h : isHex c = true) : Text.isPySpace c = false := by
  have hrange : 48 ≤ c.toNat ∧ c.toNat ≤ 57 ∨ 97 ≤ c.toNat ∧ c.toNat ≤ 102 := by
    simp only [isHex, Char.isDigit, Bool.or_eq_true, Bool.and_eq_true, decide_eq_true_eq] at h
    rcases h with h | h
    · exact .inl ⟨UInt32.le_iff_toNat_le.mp h.1, UInt32.le_iff_toNat_le.mp h.2⟩
    · exact .inr ⟨UInt32.le_iff_toNat_le.mp h.1, UInt32.le_iff_toNat_le.mp h.2⟩
  simp only [Text.isPySpace, Text.isSpace, Bool.or_eq_false_iff, Bool.and_eq_false_iff,
    decide_eq_false_iff_not, beq_eq_false_iff_ne]
  omega

theorem normalizeToken_claimToken :
    normalizeToken (claimToken settings clock nonce) = claimToken settings clock nonce := by
  have hhex : nonce.hex ≠ [] := List.ne_nil_of_length_pos (by rw [nonce.length]; decide)
  have htrim : Text.trim Text.isPySpace (claimToken settings clock nonce) =
      claimToken settings clock nonce := by
    refine Text.trim_eq_self (fun c hc => isPySpace_of_isHex ?_) fun c hc => isPySpace_of_isHex ?_
    · rw [claimToken, List.head?_append_of_ne_nil _ Nat.toDigits_ne_nil] at hc
      have hdigit := Nat.isDigit_of_mem_toDigits (by decide) (by decide) (List.mem_of_head? hc)
      simp [isHex, hdigit]
    · rw [claimToken, List.getLast?_append_of_ne_nil _ (by simp), List.getLast?_cons,
        List.getLast?_eq_some_getLast hhex, Option.getD_some] at hc
      cases hc
      exact List.all_eq_true.mp nonce.isHex _ (List.getLast_mem hhex)
  have htoken : isToken (claimToken settings clock nonce) = true := by
    rw [isToken, claimToken, dropWhile_digits, takeWhile_digits]
    simp [nonce.length, nonce.isHex, Nat.toDigits_ne_nil]
  rw [normalizeToken, htrim]
  simp [htoken]

theorem queuedDeadline_claimToken :
    queuedDeadline (queuedPrefix ++ claimToken settings clock nonce) =
      some (clock + (max 60 settings.maxQueueSeconds).toNat) := by
  rw [queuedDeadline, if_pos (List.prefix_append _ _), List.drop_left, claimToken]
  dsimp only
  rw [takeWhile_digits, dropWhile_digits, if_pos ⟨Nat.toDigits_ne_nil, rfl⟩,
    Nat.ofDigitChars_toDigits (by decide) (by decide)]

end Tokens

/-! ## Calls -/

def BeatCall (key token : List Char) : RedisCall → Prop
  | .setNx k value _ => k = key ∧ value = claimingPrefix ++ token
  | .eval (.renew k _) => k = key
  | .eval (.promote k claiming queued _) =>
    k = key ∧ claiming = claimingPrefix ++ token ∧ queued = queuedPrefix ++ token
  | .eval (.release k claiming queued running) =>
    k = key ∧ claiming = claimingPrefix ++ token ∧ queued = queuedPrefix ++ token ∧
      running = runningPrefix ++ token
  | _ => False

def WorkerCall (key token : List Char) : RedisCall → Prop
  | .eval (.markRunning k claiming queued running _) =>
    k = key ∧ claiming = claimingPrefix ++ token ∧ queued = queuedPrefix ++ token ∧
      running = runningPrefix ++ token
  | .eval (.requeue k queued running _) =>
    k = key ∧ queued = queuedPrefix ++ token ∧ running = runningPrefix ++ token
  | .eval (.release k claiming queued running) =>
    k = key ∧ claiming = claimingPrefix ++ token ∧ queued = queuedPrefix ++ token ∧
      running = runningPrefix ++ token
  | _ => False

/-! ## Jobs -/

section Jobs

variable (sha256 : List Char → List Char) (settings : WakeupSettings)

def WakeupJob.key (job : WakeupJob) : List Char := leaseKey sha256 job.name

/-- The token a job acts for: Beat for the one it claims, a worker for the one of its
message. -/
def WakeupJob.token : WakeupJob → List Char
  | .applyAsync _ clock nonce _ => claimToken settings clock nonce
  | .prerun stamps => normalizeToken (requestWakeup stamps).2
  | .postrun stamps _ => normalizeToken (requestWakeup stamps).2
  | .revoked stamps => normalizeToken (requestWakeup stamps).2

def WakeupJob.IsBeat : WakeupJob → Prop
  | .applyAsync _ _ _ _ => True
  | _ => False

def WakeupJob.Makes (job : WakeupJob) (r : RedisCall) : Prop :=
  (job.IsBeat ∧ BeatCall (job.key sha256) (job.token settings) r) ∨
    (¬ job.IsBeat ∧ WorkerCall (job.key sha256) (job.token settings) r)

variable {sha256 settings} {G : RedisCall → Prop} {name token : List Char}

theorem makes_evalBool {script : WakeupScript} (h : G (.eval script)) : (evalBool script).Makes G :=
  ⟨h, fun _ => trivial⟩

theorem makes_claim {clock : Nat} {nonce : Nonce}
    (hset : G (.setNx (leaseKey sha256 name) (claimingPrefix ++ claimToken settings clock nonce)
      (max 5 settings.claimSeconds)))
    (hrenew : G (.eval (.renew (leaseKey sha256 name) (max 60 settings.leaseSeconds)))) :
    (claimPeriodicWakeup sha256 settings name clock nonce).Yields G
      fun claim => ∀ token, claim = .token token → token = claimToken settings clock nonce := by
  refine ⟨hset, fun acquired => ?_⟩
  match acquired with
  | none => exact fun token h => by simp at h
  | some true => exact fun token h => (ClaimResult.token.inj h).symm
  | some false =>
    refine ⟨hrenew, fun r => ?_⟩
    match r with
    | none => exact fun token h => by simp at h
    | some _ => exact fun token h => by simp at h

theorem makes_promote (h : G (.eval (.promote (leaseKey sha256 name)
    (claimingPrefix ++ normalizeToken token) (queuedPrefix ++ normalizeToken token)
    (max 60 settings.leaseSeconds)))) :
    (promotePeriodicWakeup sha256 settings name token).Makes G := by
  rw [promotePeriodicWakeup]
  split
  · trivial
  · exact makes_evalBool h

theorem makes_markRunning (h : G (.eval (.markRunning (leaseKey sha256 name)
    (claimingPrefix ++ normalizeToken token) (queuedPrefix ++ normalizeToken token)
    (runningPrefix ++ normalizeToken token) (max 60 (settings.taskTimeLimit + 300))))) :
    (markPeriodicWakeupRunning sha256 settings name token).Makes G := by
  rw [markPeriodicWakeupRunning]
  split
  · trivial
  · exact makes_evalBool h

theorem makes_requeue (h : G (.eval (.requeue (leaseKey sha256 name)
    (queuedPrefix ++ normalizeToken token) (runningPrefix ++ normalizeToken token)
    (max 60 settings.leaseSeconds)))) :
    (requeuePeriodicWakeup sha256 settings name token).Makes G := by
  rw [requeuePeriodicWakeup]
  split
  · trivial
  · exact makes_evalBool h

theorem makes_release (h : G (.eval (.release (leaseKey sha256 name)
    (claimingPrefix ++ normalizeToken token) (queuedPrefix ++ normalizeToken token)
    (runningPrefix ++ normalizeToken token)))) :
    (releasePeriodicWakeup sha256 name token).Makes G := by
  rw [releasePeriodicWakeup]
  split
  · trivial
  · exact makes_evalBool h

theorem makes_withWakeup {stamps : Option Stamps} {f : List Char → List Char → RedisProg Bool}
    (h : (f (requestWakeup stamps).1 (requestWakeup stamps).2).Makes G) :
    (withWakeup stamps f).Makes G := by
  rw [withWakeup]
  split
  · trivial
  · exact h

theorem makes_body (job : WakeupJob) :
    (job.body sha256 settings).Makes (job.Makes sha256 settings) := by
  cases job with
  | applyAsync name clock nonce published =>
    refine (makes_claim (.inl ⟨trivial, rfl, rfl⟩) (.inl ⟨trivial, rfl⟩)).bind
      fun claim htoken => ?_
    cases claim with
    | token token =>
      obtain rfl := htoken token rfl
      cases published with
      | true =>
        refine makes_promote (.inl ⟨trivial, rfl, ?_⟩)
        rw [normalizeToken_claimToken]
        exact ⟨rfl, rfl⟩
      | false =>
        refine makes_release (.inl ⟨trivial, rfl, ?_⟩)
        rw [normalizeToken_claimToken]
        exact ⟨rfl, rfl, rfl⟩
    | taken => trivial
    | unavailable => trivial
  | prerun stamps =>
    exact makes_withWakeup (makes_markRunning (.inr ⟨id, rfl, rfl, rfl, rfl⟩))
  | postrun stamps retry =>
    cases retry with
    | true => exact makes_withWakeup (makes_requeue (.inr ⟨id, rfl, rfl, rfl⟩))
    | false => exact makes_withWakeup (makes_release (.inr ⟨id, rfl, rfl, rfl, rfl⟩))
  | revoked stamps => exact makes_withWakeup (makes_release (.inr ⟨id, rfl, rfl, rfl, rfl⟩))

end Jobs

/-! ## Effects -/

/-- What a call for a token does to the leases. `beat` tells who calls. -/
structure Fenced (key token : List Char) (beat : Prop) (s s' : Leases) : Prop where
  /-- Other wake-ups are left alone. -/
  others : ∀ k, k ≠ key → s'.lookup k = s.lookup k
  /-- Only Beat makes a lease, of its own token. -/
  claimed : s.lookup key = none → ∀ e, s'.lookup key = some e →
    beat ∧ e.value = claimingPrefix ++ token
  /-- The lease of another token is left alone, but for the renewal of a queued one by
  Beat before its deadline. -/
  owned : ∀ e, s.lookup key = some e → s'.lookup key = some e ∨ IsLeaseOf token e.value ∨
    beat ∧ (∃ deadline, queuedDeadline e.value = some deadline ∧ s.seconds < deadline) ∧
      ∃ e', s'.lookup key = some e' ∧ e'.value = e.value
  running : beat → ∀ e owner, s.lookup key = some e → e.value = runningPrefix ++ owner →
    s'.lookup key = some e ∨ s'.lookup key = none

section Effects

variable {s : Leases} {key token v value : List Char} {beat : Prop} {ttl : Nat} {e : Item (List Char)}

theorem Fenced.refl (s : Leases) : Fenced key token beat s s :=
  ⟨fun _ _ => rfl, fun hnone e he => by simp [hnone] at he, fun e he => .inl he,
    fun _ e _ he _ => .inl he⟩

theorem lookup_of_get (h : get s key = some v) : ∃ e, s.lookup key = some e ∧ e.value = v :=
  Option.map_eq_some_iff.mp h

theorem Fenced.put (h : get s key = some v) (hv : IsLeaseOf token v)
    (hbeat : beat → v = claimingPrefix ++ token) :
    Fenced key token beat s (s.put key value ttl) := by
  obtain ⟨e, he, rfl⟩ := lookup_of_get h
  refine ⟨fun k hk => Store.lookup_put_of_ne hk, fun hnone => by simp [hnone] at he,
    fun e' he' => ?_, fun hb e' owner he' hrunning => ?_⟩
  · obtain rfl := Option.some.inj (he.symm.trans he')
    exact .inr (.inl hv)
  · obtain rfl := Option.some.inj (he.symm.trans he')
    exact absurd ((hbeat hb).symm.trans hrunning) (claiming_ne_running token owner)

theorem Fenced.remove (h : get s key = some v) (hv : IsLeaseOf token v) :
    Fenced key token beat s (s.remove key) := by
  obtain ⟨e, he, rfl⟩ := lookup_of_get h
  refine ⟨fun k hk => Store.lookup_remove_of_ne hk, fun hnone => by simp [hnone] at he,
    fun e' he' => ?_, fun _ _ _ _ _ => .inr Store.lookup_remove_self⟩
  obtain rfl := Option.some.inj (he.symm.trans he')
  exact .inr (.inl hv)

theorem fenced_setNx (ex : Int) (hbeat : beat) : Fenced key token beat s
      (redisEffect s (.setNx key (claimingPrefix ++ token) ex)).2 := by
  rw [redisEffect]
  cases hlookup : s.lookup key with
  | none =>
    refine ⟨fun k hk => Store.lookup_put_of_ne hk, fun _ e he => ?_,
      fun e he => by simp [hlookup] at he, fun _ e _ he _ => by simp [hlookup] at he⟩
    obtain rfl := Option.some.inj (Store.lookup_put_self.symm.trans he)
    exact ⟨hbeat, rfl⟩
  | some e => exact .refl s

theorem fenced_renew (ttl : Int) (hbeat : beat) :
    Fenced key token beat s (renewScript key ttl s).2 := by
  rw [renewScript]
  split
  · exact .refl s
  rename_i current hget
  obtain ⟨e, he, rfl⟩ := lookup_of_get hget
  split
  · exact .refl s
  rename_i deadline hdeadline
  dsimp only
  split
  · exact .refl s
  rename_i hremaining
  refine ⟨fun k hk => Store.lookup_put_of_ne hk, fun hnone => by simp [hnone] at he,
    fun e' he' => ?_, fun _ e' owner he' hrunning => ?_⟩
  · obtain rfl := Option.some.inj (he.symm.trans he')
    exact .inr (.inr ⟨hbeat, ⟨deadline, hdeadline, by omega⟩, _, Store.lookup_put_self, rfl⟩)
  · obtain rfl := Option.some.inj (he.symm.trans he')
    rw [hrunning, queuedDeadline_running] at hdeadline
    simp at hdeadline

theorem fenced_promote (ttl : Int) : Fenced key token beat s
      (promoteScript key (claimingPrefix ++ token) (queuedPrefix ++ token) ttl s).2 := by
  rw [promoteScript]
  split
  · rename_i hget
    split
    · exact .refl s
    dsimp only
    split
    · exact .refl s
    · exact .put hget (.inl rfl) fun _ => rfl
  · exact .refl s

theorem fenced_markRunning (ttl : Int) (hworker : ¬ beat) :
    Fenced key token beat s (markRunningScript key (claimingPrefix ++ token)
      (queuedPrefix ++ token) (runningPrefix ++ token) ttl s).2 := by
  rw [markRunningScript]
  split
  · rename_i hget
    rcases hget with hget | hget
    · exact .put hget (.inl rfl) fun hb => absurd hb hworker
    · exact .put hget (.inr (.inl rfl)) fun hb => absurd hb hworker
  · exact .refl s

theorem fenced_requeue (ttl : Int) (hworker : ¬ beat) : Fenced key token beat s
      (requeueScript key (queuedPrefix ++ token) (runningPrefix ++ token) ttl s).2 := by
  rw [requeueScript]
  split
  · exact .refl s
  rename_i hget
  obtain ⟨v, hv, hlease⟩ : ∃ v, get s key = some v ∧ IsLeaseOf token v := by
    rw [not_and_or, not_not, not_not] at hget
    rcases hget with hget | hget
    · exact ⟨_, hget, .inr (.inr rfl)⟩
    · exact ⟨_, hget, .inr (.inl rfl)⟩
  split
  · exact .refl s
  dsimp only
  split
  · exact .remove hv hlease
  · exact .put hv hlease fun hb => absurd hb hworker

theorem fenced_release : Fenced key token beat s (releaseScript key (claimingPrefix ++ token)
      (queuedPrefix ++ token) (runningPrefix ++ token) s).2 := by
  rw [releaseScript]
  split
  · rename_i hget
    rcases hget with hget | hget | hget
    · exact .remove hget (.inl rfl)
    · exact .remove hget (.inr (.inl rfl))
    · exact .remove hget (.inr (.inr rfl))
  · exact .refl s

theorem fenced_respond {r : RedisCall} (choice : RedisChoice)
    (h : beat ∧ BeatCall key token r ∨ ¬ beat ∧ WorkerCall key token r) :
    Fenced key token beat s (redis.respond s r choice).2 := by
  have heffect : Fenced key token beat s (redisEffect s r).2 := by
    rcases h with ⟨hbeat, h⟩ | ⟨hworker, h⟩
    · match r, h with
      | .setNx _ _ ex, ⟨rfl, rfl⟩ => exact fenced_setNx ex hbeat
      | .eval (.renew _ ttl), rfl => exact fenced_renew ttl hbeat
      | .eval (.promote _ _ _ ttl), ⟨rfl, rfl, rfl⟩ => exact fenced_promote ttl
      | .eval (.release _ _ _ _), ⟨rfl, rfl, rfl, rfl⟩ => exact fenced_release
    · match r, h with
      | .eval (.markRunning _ _ _ _ ttl), ⟨rfl, rfl, rfl, rfl⟩ =>
        exact fenced_markRunning ttl hworker
      | .eval (.requeue _ _ _ ttl), ⟨rfl, rfl, rfl⟩ => exact fenced_requeue ttl hworker
      | .eval (.release _ _ _ _), ⟨rfl, rfl, rfl, rfl⟩ => exact fenced_release
  cases choice with
  | answered => exact heffect
  | lost => exact heffect
  | refused => exact .refl s

end Effects

/-! ## Deadlines -/

/-- A queued lease ends within the second of its deadline. -/
def EndsInTime (s : Leases) : Prop :=
  ∀ key e deadline, s.item key = some e → queuedDeadline e.value = some deadline →
    e.expiry < 1000 * (deadline + 1)

section Deadlines

variable {s : Leases} {key token value queued : List Char} {ttl : Nat}

section

variable (h : EndsInTime s)

include h

theorem EndsInTime.put (hvalue : ∀ deadline, queuedDeadline value = some deadline →
      s.now + 1000 * ttl < 1000 * (deadline + 1)) : EndsInTime (s.put key value ttl) := by
  intro k e deadline he hdeadline
  by_cases hk : k = key
  · subst hk
    obtain rfl := Option.some.inj ((Function.update_self k _ s.item).symm.trans he)
    exact hvalue deadline hdeadline
  · exact h k e deadline ((Function.update_of_ne hk _ s.item).symm.trans he) hdeadline

theorem EndsInTime.remove : EndsInTime (s.remove key) := by
  intro k e deadline he hdeadline
  by_cases hk : k = key
  · subst hk
    exact absurd ((Function.update_self k _ s.item).symm.trans he) (by simp)
  · exact h k e deadline ((Function.update_of_ne hk _ s.item).symm.trans he) hdeadline

theorem EndsInTime.put_remaining {deadline : Nat} {limit : Int}
    (hdeadline : queuedDeadline queued = some deadline)
    (hremaining : ¬ (deadline : Int) - s.seconds ≤ 0) :
    EndsInTime (s.put key queued (min limit (deadline - s.seconds)).toNat) := by
  refine h.put fun d hd => ?_
  obtain rfl := Option.some.inj (hdeadline.symm.trans hd)
  -- the clock in seconds is behind the clock by less than a second
  have hclock : s.now < 1000 * (s.seconds + 1) := by
    rw [Store.seconds]
    omega
  omega

theorem endsInTime_setNx (ex : Int) :
    EndsInTime (redisEffect s (.setNx key (claimingPrefix ++ token) ex)).2 := by
  rw [redisEffect]
  split
  · exact h.put fun d hd => by simp [queuedDeadline_claiming] at hd
  · exact h

theorem endsInTime_renew (ttl : Int) : EndsInTime (renewScript key ttl s).2 := by
  rw [renewScript]
  split
  · exact h
  split
  · exact h
  rename_i hdeadline
  dsimp only
  split
  · exact h
  · rename_i hremaining
    exact h.put_remaining hdeadline hremaining

theorem endsInTime_promote (claiming : List Char) (ttl : Int) :
    EndsInTime (promoteScript key claiming queued ttl s).2 := by
  rw [promoteScript]
  split
  · split
    · exact h
    rename_i hdeadline
    dsimp only
    split
    · exact h
    · rename_i hremaining
      exact h.put_remaining hdeadline hremaining
  · exact h

theorem endsInTime_markRunning (claiming : List Char) (ttl : Int) :
    EndsInTime (markRunningScript key claiming queued (runningPrefix ++ token) ttl s).2 := by
  rw [markRunningScript]
  split
  · exact h.put fun d hd => by simp [queuedDeadline_running] at hd
  · exact h

theorem endsInTime_requeue (running : List Char) (ttl : Int) :
    EndsInTime (requeueScript key queued running ttl s).2 := by
  rw [requeueScript]
  split
  · exact h
  split
  · exact h
  rename_i hdeadline
  dsimp only
  split
  · exact h.remove
  · rename_i hremaining
    exact h.put_remaining hdeadline hremaining

theorem endsInTime_release (claiming queued running : List Char) :
    EndsInTime (releaseScript key claiming queued running s).2 := by
  rw [releaseScript]
  split
  · exact h.remove
  · exact h

end

theorem endsInTime_respond {r : RedisCall} {beat : Prop} (choice : RedisChoice)
    (hcall : beat ∧ BeatCall key token r ∨ ¬ beat ∧ WorkerCall key token r)
    (h : EndsInTime s) : EndsInTime (redis.respond s r choice).2 := by
  have heffect : EndsInTime (redisEffect s r).2 := by
    rcases hcall with ⟨-, hcall⟩ | ⟨-, hcall⟩
    · match r, hcall with
      | .setNx _ _ ex, ⟨rfl, rfl⟩ => exact endsInTime_setNx h ex
      | .eval (.renew _ ttl), _ => exact endsInTime_renew h ttl
      | .eval (.promote _ claiming _ ttl), _ => exact endsInTime_promote h claiming ttl
      | .eval (.release _ claiming queued running), _ =>
        exact endsInTime_release h claiming queued running
    · match r, hcall with
      | .eval (.markRunning _ _ _ _ ttl), ⟨rfl, rfl, rfl, rfl⟩ =>
        exact endsInTime_markRunning h _ ttl
      | .eval (.requeue _ _ running ttl), _ => exact endsInTime_requeue h running ttl
      | .eval (.release _ claiming queued running), _ =>
        exact endsInTime_release h claiming queued running
  cases choice with
  | answered => exact heffect
  | lost => exact heffect
  | refused => exact h

end Deadlines

/-! ## Runs -/

abbrev Wakeups := Pool Leases RedisCall RedisAnswer Empty Bool WakeupJob

def Running (s : Leases) (key token : List Char) : Prop :=
  ∃ e, s.lookup key = some e ∧ e.value = runningPrefix ++ token

section Runs

variable {sha256 : List Char → List Char} {settings : WakeupSettings} {start : Nat}
  {s s' : Wakeups}

theorem Fenced.running_of_ne {key key' token token' : List Char} {beat : Prop} {t t' : Leases}
    (h : Fenced key' token' beat t t') (hrunning : Running t key token)
    (hne : ¬ (key' = key ∧ token' = token)) : Running t' key token := by
  obtain ⟨e, he, hvalue⟩ := hrunning
  by_cases hkey : key' = key
  · subst hkey
    rcases h.owned e he with hsame | howned | ⟨-, ⟨deadline, hdeadline, -⟩, -⟩
    · exact ⟨e, hsame, hvalue⟩
    · exact absurd ⟨rfl, (eq_of_isLeaseOf_running (hvalue ▸ howned)).symm⟩ hne
    · rw [hvalue, queuedDeadline_running] at hdeadline
      simp at hdeadline
  · exact ⟨e, (h.others key (Ne.symm hkey)).trans he, hvalue⟩

/-- What does not disturb a running lease: calls for other leases or tokens, and time
before it expires. -/
def Undisturbed (sha256 : List Char → List Char) (settings : WakeupSettings)
    (key token : List Char) (s : Wakeups) : PoolEvent WakeupJob RedisChoice Nat → Prop
  | .start _ => True
  | .call i _ => ∀ job p, s.client i = some (job, p) →
      ¬ (job.key sha256 = key ∧ job.token settings = token)
  | .env ms => ∀ e, s.state.lookup key = some e → s.state.now + ms ≤ e.expiry

theorem fenced_call (h : (wakeupSystem sha256 settings start).Reachable s) {i : Nat}
    {choice : RedisChoice}
    (hs : (wakeupSystem sha256 settings start).step s (.call i choice) = some s') :
    ∃ job p, s.client i = some (job, p) ∧
      Fenced (job.key sha256) (job.token settings) job.IsBeat s.state s'.state := by
  have hstep : poolStep redis (WakeupJob.body sha256 settings) Store.advance s
      (.call i choice) = some s' := hs
  obtain ⟨job, r, k, hclient, rfl⟩ := poolStep_call hstep
  exact ⟨job, _, hclient, fenced_respond choice (guard_of_reachable makes_body h hclient)⟩

theorem running_step (h : (wakeupSystem sha256 settings start).Reachable s)
    {key token : List Char} {a : PoolEvent WakeupJob RedisChoice Nat}
    (hundisturbed : Undisturbed sha256 settings key token s a)
    (hs : (wakeupSystem sha256 settings start).step s a = some s')
    (hrunning : Running s.state key token) : Running s'.state key token := by
  cases a with
  | start job =>
    cases hs
    exact hrunning
  | call i choice =>
    obtain ⟨job, p, hclient, hfenced⟩ := fenced_call h hs
    exact hfenced.running_of_ne hrunning (hundisturbed job p hclient)
  | env ms =>
    cases hs
    obtain ⟨e, he, hvalue⟩ := hrunning
    exact ⟨e, Store.lookup_advance he (hundisturbed e he), hvalue⟩

/-- What holds of the wake-ups at any time. -/
structure AreFenced (sha256 : List Char → List Char) (settings : WakeupSettings) (start : Nat)
    (s : Wakeups) : Prop where
  fenced : ∀ i choice s', (wakeupSystem sha256 settings start).step s (.call i choice) = some s' →
    ∃ job p, s.client i = some (job, p) ∧
      Fenced (job.key sha256) (job.token settings) job.IsBeat s.state s'.state
  /-- Nothing else does. -/
  elapsed : ∀ ms s', (wakeupSystem sha256 settings start).step s (.env ms) = some s' →
    s'.state.item = s.state.item
  one : ∀ key token token', Running s.state key token → Running s.state key token' →
    token = token'
  /-- It runs until its lease is disturbed or expires. -/
  lasting : ∀ key token s',
    (wakeupSystem sha256 settings start).Path (Undisturbed sha256 settings key token) s s' →
      Running s.state key token → Running s'.state key token
  /-- A queued lease ends within the second of its deadline. -/
  deadline : ∀ key e deadline, s.state.lookup key = some e →
    queuedDeadline e.value = some deadline → e.expiry < 1000 * (deadline + 1)

/-- Wake-ups are fenced by their tokens in every run. -/
theorem areFenced_of_reachable (h : (wakeupSystem sha256 settings start).Reachable s) :
    AreFenced sha256 settings start s where
  fenced := fun _ _ _ hs => fenced_call h hs
  elapsed := fun ms s' hs => by
    cases hs
    rfl
  one := fun key token token' hrunning hrunning' => by
    obtain ⟨e, he, hvalue⟩ := hrunning
    obtain ⟨e', he', hvalue'⟩ := hrunning'
    obtain rfl := Option.some.inj (he.symm.trans he')
    exact List.append_cancel_left (hvalue.symm.trans hvalue')
  lasting := fun key token s' hpath hrunning => by
    have hboth : (wakeupSystem sha256 settings start).Reachable s' ∧ Running s'.state key token := by
      refine System.Path.invariant (T := wakeupSystem sha256 settings start)
        (I := fun s => (wakeupSystem sha256 settings start).Reachable s ∧
          Running s.state key token) ?_ hpath ⟨h, hrunning⟩
      intro t a t' hI hok hstep
      exact ⟨hI.1.step trivial hstep, running_step hI.1 hok hstep hI.2⟩
    exact hboth.2
  deadline := fun key e d he hd => by
    have hends : EndsInTime s.state := by
      refine state_invariant makes_body (fun key e d he => by simp at he) ?_ ?_ h
      · exact fun t job r choice ht hr => endsInTime_respond choice hr ht
      · exact fun t ms ht => ht
    exact hends key e d (Store.lookup_eq_some_iff.mp he).1 hd

end Runs

/-! ## The fraction of a second -/

/-- Settings of a schedule that waits a minute at most. -/
def shortQueue : WakeupSettings where
  maxQueueSeconds := 60
  claimSeconds := 30
  leaseSeconds := 300
  taskTimeLimit := 3600

/-- A wake-up that was claimed and published half a second after the start of a
second. -/
def halfSecond : Wakeups :=
  ((wakeupSystem id shortQueue 1000500).exec ⟨⟨fun _ => none, 1000500⟩, fun _ => none, 0⟩
    [.start (.applyAsync "sync".toList 1000 ⟨List.replicate 32 'a', rfl, by decide⟩ true),
      .call 0 .answered, .call 0 .answered]).get (by decide)

theorem reachable_halfSecond : (wakeupSystem id shortQueue 1000500).Reachable halfSecond :=
  .of_exec rfl (Option.some_get _).symm

theorem areFenced_halfSecond : AreFenced id shortQueue 1000500 halfSecond :=
  areFenced_of_reachable (.of_exec rfl (Option.some_get _).symm)

/-- A queued lease may end after its deadline. -/
theorem not_before_deadline :
    ¬ ∀ s, (wakeupSystem id shortQueue 1000500).Reachable s → ∀ key e deadline,
      s.state.lookup key = some e → queuedDeadline e.value = some deadline →
        e.expiry ≤ 1000 * deadline := by
  intro h
  have hlookup : halfSecond.state.lookup (leaseKey id "sync".toList) =
      some ⟨queuedPrefix ++ claimToken shortQueue 1000
        ⟨List.replicate 32 'a', rfl, by decide⟩, 1060500⟩ := by
    decide
  have hle := h halfSecond reachable_halfSecond _ _ 1060 hlookup queuedDeadline_claimToken
  exact absurd hle (by decide)

end HyperFileLens.Scheduling
