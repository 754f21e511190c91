import HyperFileLens.Node.UpgradeVerify

/-!
# What is recorded of an upgrade

The history of a detached upgrade, and what a verification has to know of it.

*History.*  A list of what the row was told while it was running: sessions, inventories,
disconnects, the reports of the host, and the starts of the clock.

*Watch.*  The session, the inventory, the report and the clock that a history comes to. The
clock stops at whatever makes the evidence void.

*Facts.*  When the clock runs, the history has nothing of that kind since it was started
(`watch_clock`), and what is known of a build was told in its session (`watch_told`).
-/

namespace HyperFileLens.Node

inductive UpgradeRecord where
  | session (session : String)
  | inventory (session : String) (inventory : Dict)
  | disconnect
  /-- The host has reported how the upgrade ended. -/
  | host (succeeded : Bool)
  | clock (time : Time)
deriving DecidableEq

/-- The build and the capabilities that a session has told. -/
structure UpgradeInventory where
  session : String
  version : String
  commit : String
  capabilities : List String
deriving DecidableEq

structure UpgradeWatch where
  session : Option String := none
  inventory : Option UpgradeInventory := none
  host : Option Bool := none
  clock : Option Time := none

def capabilitiesOf (inventory : Dict) : List String :=
  nameSet ((iterated (inventory.get "capabilities")).getD [])

/-- What a session has told with an inventory. What the inventory leaves out has not changed
in the session. -/
def told (known : Option UpgradeInventory) (session : String) (inventory : Dict) :
    UpgradeInventory :=
  let version := stripped (inventory.get "agent_version")
  let commit := strippedLower (inventory.get "agent_commit")
  match known.filter fun known => known.session = session with
  | none => ⟨session, version, commit, capabilitiesOf inventory⟩
  | some known =>
    { session
      version := if version = "" then known.version else version
      commit :=
        if version = "" || (version = known.version && commit = "") then known.commit else commit
      capabilities :=
        if isList (inventory.get "capabilities") then capabilitiesOf inventory
        else known.capabilities }

/-- Two inventories are of one session and tell the same. -/
def UpgradeInventory.same (inventory inventory' : UpgradeInventory) : Bool :=
  inventory.session = inventory'.session && inventory.version = inventory'.version &&
    inventory.commit = inventory'.commit &&
    sameNames inventory'.capabilities inventory.capabilities

def UpgradeWatch.step (watch : UpgradeWatch) : UpgradeRecord → UpgradeWatch
  | .session session =>
    if watch.session = some session then watch
    else { watch with session := some session, clock := none }
  | .inventory session inventory =>
    let told := told watch.inventory session inventory
    if watch.inventory.any (·.same told) then watch
    else { watch with inventory := some told, clock := none }
  | .disconnect => { watch with clock := none }
  | .host succeeded => { watch with host := some succeeded }
  | .clock time => { watch with clock := some time }

variable {records : List UpgradeRecord}

theorem UpgradeWatch.host_step_session (watch : UpgradeWatch) (session : String) :
    (watch.step (.session session)).host = watch.host := by
  rw [step]
  split <;> rfl

theorem UpgradeWatch.host_step_inventory (watch : UpgradeWatch) (session : String)
    (inventory : Dict) : (watch.step (.inventory session inventory)).host = watch.host := by
  change (ite _ _ _ : UpgradeWatch).host = watch.host
  split <;> rfl

def watch (records : List UpgradeRecord) : UpgradeWatch := records.foldl UpgradeWatch.step {}

theorem watch_append (records records' : List UpgradeRecord) :
    watch (records ++ records') = records'.foldl UpgradeWatch.step (watch records) :=
  List.foldl_append

@[simp] theorem watch_concat (records : List UpgradeRecord) (r : UpgradeRecord) :
    watch (records ++ [r]) = (watch records).step r := by
  rw [watch_append, List.foldl_cons, List.foldl_nil]

/-! ## The clock -/

/-- A record tells of no other session than the known one, of no other build or capabilities,
and of no disconnect. -/
def Agrees (session : Option String) (inventory : Option UpgradeInventory) :
    UpgradeRecord → Prop
  | .session other => session = some other
  | .inventory other told' => inventory.any (·.same (told inventory other told')) = true
  | .disconnect => False
  | .host _ => True
  | .clock _ => True

/-- A record with which the clock runs has started it, or agrees with what is known. -/
theorem UpgradeWatch.step_clock {watch : UpgradeWatch} {r : UpgradeRecord} {t : Time}
    (h : (watch.step r).clock = some t) : r = .clock t ∨
      (watch.clock = some t ∧ Agrees watch.session watch.inventory r ∧
        (watch.step r).session = watch.session ∧ (watch.step r).inventory = watch.inventory) := by
  cases r with
  | session session =>
    rw [step] at h ⊢
    split at h
    · rename_i hsame
      rw [if_pos hsame]
      exact .inr ⟨h, hsame, rfl, rfl⟩
    · cases h
  | inventory session inventory =>
    change (ite _ _ _ : UpgradeWatch).clock = some t at h
    split at h
    · rename_i hsame
      refine .inr ⟨h, hsame, ?_⟩
      rw [step, if_pos hsame]
      exact ⟨rfl, rfl⟩
    · cases h
  | disconnect => cases h
  | host succeeded => exact .inr ⟨h, trivial, rfl, rfl⟩
  | clock time =>
    cases h
    exact .inl rfl

/-- When the clock runs, it was started, and all that is recorded since agrees with what was
known then. -/
theorem watch_clock {t : Time} (h : (watch records).clock = some t) : ∃ before after,
      records = before ++ .clock t :: after ∧
        (∀ r ∈ after, Agrees (watch records).session (watch records).inventory r) ∧
        (watch records).session = (watch before).session ∧
        (watch records).inventory = (watch before).inventory := by
  induction records using List.reverseRecOn with
  | nil => cases h
  | append_singleton records r ih =>
    rw [watch_concat] at h ⊢
    rcases UpgradeWatch.step_clock h with rfl | ⟨hclock, hagrees, hsession, hinventory⟩
    · exact ⟨records, [], rfl, fun r hr => (by cases hr), rfl, rfl⟩
    · obtain ⟨before, after, heq, hafter, hs, hi⟩ := ih hclock
      rw [hsession, hinventory]
      refine ⟨before, after ++ [r], ?_, fun r' hr' => ?_, hs, hi⟩
      · rw [heq, List.append_assoc, List.cons_append]
      · rcases List.mem_append.mp hr' with hold | hnew
        · exact hafter r' hold
        · obtain rfl := List.mem_singleton.mp hnew
          exact hagrees

/-! ## Where the evidence comes from -/

structure ToldIn (records : List UpgradeRecord) (known : UpgradeInventory) : Prop where
  version : known.version = "" ∨ ∃ inventory, .inventory known.session inventory ∈ records ∧
    stripped (inventory.get "agent_version") = known.version
  commit : known.commit = "" ∨ ∃ inventory, .inventory known.session inventory ∈ records ∧
    stripped (inventory.get "agent_version") = known.version ∧
      strippedLower (inventory.get "agent_commit") = known.commit
  capabilities : ∃ inventory, .inventory known.session inventory ∈ records ∧
    capabilitiesOf inventory = known.capabilities

variable {known : UpgradeInventory}

theorem ToldIn.mono {records' : List UpgradeRecord} (h : ToldIn records known)
    (hsub : ∀ r ∈ records, r ∈ records') : ToldIn records' known where
  version := h.version.imp_right fun ⟨d, hd, hv⟩ => ⟨d, hsub _ hd, hv⟩
  commit := h.commit.imp_right fun ⟨d, hd, hc⟩ => ⟨d, hsub _ hd, hc⟩
  capabilities := h.capabilities.imp fun _ hd => ⟨hsub _ hd.1, hd.2⟩

theorem toldIn_told {known : Option UpgradeInventory} (h : ∀ k, known = some k → ToldIn records k)
    (session : String) (inventory : Dict) :
    ToldIn (records ++ [.inventory session inventory]) (told known session inventory) := by
  have hlast : UpgradeRecord.inventory session inventory ∈
      records ++ [.inventory session inventory] := List.mem_append_right _ List.mem_cons_self
  cases hknown : known.filter fun known => known.session = session with
  | none =>
    have htold : told known session inventory = ⟨session, stripped (inventory.get "agent_version"),
        strippedLower (inventory.get "agent_commit"), capabilitiesOf inventory⟩ := by
      rw [told, hknown]
    rw [htold]
    exact ⟨.inr ⟨_, hlast, rfl⟩, .inr ⟨_, hlast, rfl, rfl⟩, _, hlast, rfl⟩
  | some k =>
    obtain ⟨hk, hsession⟩ := Option.filter_eq_some_iff.mp hknown
    obtain rfl : k.session = session := by simpa using hsession
    have hold := (h k hk).mono fun r hr => List.mem_append_left [.inventory k.session inventory] hr
    rw [told, hknown]
    refine ⟨?_, ?_, ?_⟩
    · dsimp only
      split
      · exact hold.version
      · exact .inr ⟨_, hlast, rfl⟩
    · dsimp only
      by_cases hversion : stripped (inventory.get "agent_version") = ""
      · rw [if_pos hversion, if_pos (by simp [hversion])]
        exact hold.commit
      rw [if_neg hversion]
      split
      · rename_i hkept
        obtain ⟨hsame, -⟩ : stripped (inventory.get "agent_version") = k.version ∧
            strippedLower (inventory.get "agent_commit") = "" := by
          simpa [hversion] using hkept
        rw [hsame]
        exact hold.commit
      · exact .inr ⟨_, hlast, rfl, rfl⟩
    · dsimp only
      split
      · exact ⟨_, hlast, rfl⟩
      · exact hold.capabilities

theorem watch_toldIn (h : (watch records).inventory = some known) : ToldIn records known := by
  induction records using List.reverseRecOn generalizing known with
  | nil => cases h
  | append_singleton records r ih =>
    have hold (hsame : (watch records).inventory = some known) : ToldIn (records ++ [r]) known :=
      (ih hsame).mono fun _ hr => List.mem_append_left _ hr
    rw [watch_concat] at h
    cases r with
    | session session =>
      rw [UpgradeWatch.step] at h
      split at h
      · exact hold h
      · exact hold h
    | inventory session inventory =>
      change (ite _ _ _ : UpgradeWatch).inventory = some known at h
      split at h
      · exact hold h
      · cases h
        exact toldIn_told (fun _ => ih) session inventory
    | disconnect => exact hold h
    | host succeeded => exact hold h
    | clock time => exact hold h

/-! ## The report of the host -/

def LastReport (records : List UpgradeRecord) (succeeded : Bool) : Prop :=
  ∃ before after, records = before ++ .host succeeded :: after ∧
    ∀ r ∈ after, ∀ other, r ≠ .host other

theorem watch_host {succeeded : Bool} (h : (watch records).host = some succeeded) :
    LastReport records succeeded := by
  induction records using List.reverseRecOn with
  | nil => cases h
  | append_singleton records r ih =>
    rw [watch_concat] at h
    have hkept (hold : (watch records).host = some succeeded) (hr : ∀ other, r ≠ .host other) :
        LastReport (records ++ [r]) succeeded := by
      obtain ⟨before, after, heq, hafter⟩ := ih hold
      refine ⟨before, after ++ [r], ?_, fun r' hr' => ?_⟩
      · rw [heq, List.append_assoc, List.cons_append]
      · rcases List.mem_append.mp hr' with hmem | hmem
        · exact hafter r' hmem
        · obtain rfl := List.mem_singleton.mp hmem
          exact hr
    cases r with
    | session session =>
      rw [UpgradeWatch.host_step_session] at h
      exact hkept h fun _ heq => by cases heq
    | inventory session inventory =>
      rw [UpgradeWatch.host_step_inventory] at h
      exact hkept h fun _ heq => by cases heq
    | disconnect => exact hkept h fun _ heq => by cases heq
    | clock time => exact hkept h fun _ heq => by cases heq
    | host other =>
      cases h
      exact ⟨records, [], rfl, fun r hr => (by cases hr)⟩

end HyperFileLens.Node
