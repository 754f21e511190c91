import HyperFileLens.Library.KeyStore
import HyperFileLens.Library.Pool
import HyperFileLens.Library.Text

/-!
# Leases of periodic wake-ups

The functions of `periodic_wakeup.py` on a Redis store, with Beat and the workers
that call them.

*Values.*  A lease is a text: a prefix for its phase and the token of its owner. A
token starts with the deadline of its wake-up in the queue.

*Scripts.*  A Lua script runs at once, at one time of the clock of the store.

*Failures.*  A call of Redis may fail before it has an effect, or after. The
functions catch the exception.

*Jobs.*  Beat and the workers call the functions whenever they like, with tokens of
any age. Messages carry the name and the token of a wake-up as stamps.
-/

namespace HyperFileLens.Scheduling

open KeyStore Service

/-! ## Texts -/

def keyPrefix : List Char := "hfl:periodic-wakeup:".toList

def claimingPrefix : List Char := "claiming:".toList

def queuedPrefix : List Char := "queued:".toList

def runningPrefix : List Char := "running:".toList

/-- A character of `[0-9a-f]`. -/
def isHex (c : Char) : Bool := c.isDigit || ('a' ≤ c && c ≤ 'f')

/-- `_TOKEN_PATTERN.fullmatch`. -/
def isToken (value : List Char) : Bool :=
  match value.dropWhile Char.isDigit with
  | ':' :: nonce =>
    !(value.takeWhile Char.isDigit).isEmpty && nonce.length = 32 && nonce.all isHex
  | _ => false

def normalizeToken (token : List Char) : List Char :=
  let value := Text.trim Text.isPySpace token
  if isToken value then value else []

/-- `string.match(value, '^queued:(%d+):')`, as a number. -/
def queuedDeadline (value : List Char) : Option Nat :=
  if queuedPrefix <+: value then
    let rest := value.drop queuedPrefix.length
    let digits := rest.takeWhile Char.isDigit
    if digits ≠ [] ∧ (rest.dropWhile Char.isDigit).head? = some ':' then
      some (Nat.ofDigitChars 10 digits 0)
    else none
  else none

/-- A `uuid4().hex`. -/
structure Nonce where
  hex : List Char
  length : hex.length = 32
  isHex : hex.all isHex = true
deriving DecidableEq

/-! ## Redis -/

abbrev Leases := Store (List Char) (List Char)

inductive WakeupScript where
  | renew (key : List Char) (ttl : Int)
  | promote (key claiming queued : List Char) (ttl : Int)
  | markRunning (key claiming queued running : List Char) (ttl : Int)
  | requeue (key queued running : List Char) (ttl : Int)
  | release (key claiming queued running : List Char)
deriving DecidableEq

/-- `redis.call('get', key)`. -/
def get (s : Leases) (key : List Char) : Option (List Char) := (s.lookup key).map Item.value

/-- The script of `claim_periodic_wakeup`. -/
def renewScript (key : List Char) (ttl : Int) (s : Leases) : Option Int × Leases :=
  match get s key with
  | none => (some 0, s)
  | some current =>
    match queuedDeadline current with
    | none => (some 0, s)
    | some deadline =>
      let remaining : Int := deadline - s.seconds
      if remaining ≤ 0 then (some 0, s)
      else (some 1, s.put key current (min ttl remaining).toNat)

/-- The script of `promote_periodic_wakeup`. -/
def promoteScript (key claiming queued : List Char) (ttl : Int) (s : Leases) :
    Option Int × Leases :=
  if get s key = some claiming then
    match queuedDeadline queued with
    | none => (none, s)
    | some deadline =>
      let remaining : Int := deadline - s.seconds
      if remaining ≤ 0 then (some 0, s)
      else (some 1, s.put key queued (min ttl remaining).toNat)
  else (some 0, s)

/-- The script of `mark_periodic_wakeup_running`. -/
def markRunningScript (key claiming queued running : List Char) (ttl : Int) (s : Leases) :
    Option Int × Leases :=
  if get s key = some claiming ∨ get s key = some queued then
    (some 1, s.put key running ttl.toNat)
  else (some 0, s)

/-- The script of `requeue_periodic_wakeup`. -/
def requeueScript (key queued running : List Char) (ttl : Int) (s : Leases) :
    Option Int × Leases :=
  if get s key ≠ some running ∧ get s key ≠ some queued then (some 0, s)
  else
    match queuedDeadline queued with
    | none => (none, s)
    | some deadline =>
      let remaining : Int := deadline - s.seconds
      if remaining ≤ 0 then (some 0, s.remove key)
      else (some 1, s.put key queued (min ttl remaining).toNat)

/-- The script of `release_periodic_wakeup`. -/
def releaseScript (key claiming queued running : List Char) (s : Leases) :
    Option Int × Leases :=
  if get s key = some claiming ∨ get s key = some queued ∨ get s key = some running then
    (some 1, s.remove key)
  else (some 0, s)

def WakeupScript.run : WakeupScript → Leases → Option Int × Leases
  | .renew key ttl => renewScript key ttl
  | .promote key claiming queued ttl => promoteScript key claiming queued ttl
  | .markRunning key claiming queued running ttl => markRunningScript key claiming queued running ttl
  | .requeue key queued running ttl => requeueScript key queued running ttl
  | .release key claiming queued running => releaseScript key claiming queued running

inductive RedisCall where
  | setNx (key value : List Char) (ex : Int)
  | eval (script : WakeupScript)
deriving DecidableEq

def RedisAnswer : RedisCall → Type
  | .setNx _ _ _ => Option Bool
  | .eval _ => Option Int

/-- What the environment chooses for a call. -/
inductive RedisChoice where
  | answered
  /-- The call has its effect, but the answer is lost. -/
  | lost
  | refused

def redisEffect (s : Leases) : (r : RedisCall) → RedisAnswer r × Leases
  | .setNx key value ex =>
    match s.lookup key with
    | none => (some true, s.put key value ex.toNat)
    | some _ => (some false, s)
  | .eval script => script.run s

def raised : (r : RedisCall) → RedisAnswer r
  | .setNx _ _ _ => (none : Option Bool)
  | .eval _ => (none : Option Int)

def redis : Server Leases RedisCall RedisAnswer RedisChoice where
  respond := fun s r choice =>
    match choice with
    | .answered => redisEffect s r
    | .lost => (raised r, (redisEffect s r).2)
    | .refused => (raised r, s)

abbrev RedisProg (α : Type) := Prog RedisCall RedisAnswer Empty α

def setNx (key value : List Char) (ex : Int) : RedisProg (Option Bool) :=
  Prog.request (RedisCall.setNx key value ex)

def eval (script : WakeupScript) : RedisProg (Option Int) := Prog.request (RedisCall.eval script)

/-- `int(client.eval(...) or 0) == 1`, and `False` after an exception. -/
def evalBool (script : WakeupScript) : RedisProg Bool := do
  let r ← eval script
  pure (r = some 1)

/-! ## The functions -/

structure WakeupSettings where
  maxQueueSeconds : Int
  claimSeconds : Int
  leaseSeconds : Int
  taskTimeLimit : Int

/-- What `claim_periodic_wakeup` returns. -/
inductive ClaimResult where
  | token (token : List Char)
  /-- `False`. -/
  | taken
  /-- `None`. -/
  | unavailable
deriving DecidableEq

section Functions

variable (sha256 : List Char → List Char) (settings : WakeupSettings)

/-- `_lease_key`, where `sha256` is the hex digest of the name. -/
def leaseKey (name : List Char) : List Char := keyPrefix ++ sha256 name

def claimToken (clock : Nat) (nonce : Nonce) : List Char :=
  let queueDeadline := clock + (max 60 settings.maxQueueSeconds).toNat
  Nat.toDigits 10 queueDeadline ++ ':' :: nonce.hex

def claimPeriodicWakeup (name : List Char) (clock : Nat) (nonce : Nonce) :
    RedisProg ClaimResult := do
  let token := claimToken settings clock nonce
  let key := leaseKey sha256 name
  let acquired ← setNx key (claimingPrefix ++ token) (max 5 settings.claimSeconds)
  match acquired with
  | none => pure .unavailable
  | some true => pure (.token token)
  | some false => do
      let r ← eval (.renew key (max 60 settings.leaseSeconds))
      match r with
      | none => pure .unavailable
      | some _ => pure .taken

def promotePeriodicWakeup (name token : List Char) : RedisProg Bool :=
  let value := normalizeToken token
  if value = [] then pure false
  else
    evalBool (.promote (leaseKey sha256 name) (claimingPrefix ++ value) (queuedPrefix ++ value)
      (max 60 settings.leaseSeconds))

def markPeriodicWakeupRunning (name token : List Char) : RedisProg Bool :=
  let value := normalizeToken token
  if value = [] then pure false
  else
    evalBool (.markRunning (leaseKey sha256 name) (claimingPrefix ++ value)
      (queuedPrefix ++ value) (runningPrefix ++ value) (max 60 (settings.taskTimeLimit + 300)))

def requeuePeriodicWakeup (name token : List Char) : RedisProg Bool :=
  let value := normalizeToken token
  if value = [] then pure false
  else
    evalBool (.requeue (leaseKey sha256 name) (queuedPrefix ++ value) (runningPrefix ++ value)
      (max 60 settings.leaseSeconds))

def releasePeriodicWakeup (name token : List Char) : RedisProg Bool :=
  let value := normalizeToken token
  if value = [] then pure false
  else
    evalBool (.release (leaseKey sha256 name) (claimingPrefix ++ value) (queuedPrefix ++ value)
      (runningPrefix ++ value))

/-! ## Beat and the workers -/

/-- `CoalescingDatabaseScheduler.apply_async` of a managed schedule, when the broker
accepts the message or does not. -/
def applyAsync (name : List Char) (clock : Nat) (nonce : Nonce) (published : Bool) :
    RedisProg Bool := do
  let claim ← claimPeriodicWakeup sha256 settings name clock nonce
  match claim with
  | .token token =>
    if published then promotePeriodicWakeup sha256 settings name token
    else releasePeriodicWakeup sha256 name token
  | .taken => pure false
  | .unavailable => pure published

/-- `request.stamps` of a message. -/
structure Stamps where
  name : Option (List Char)
  token : Option (List Char)

def requestWakeup : Option Stamps → List Char × List Char
  | some stamps =>
    (Text.trim Text.isPySpace (stamps.name.getD []), Text.trim Text.isPySpace (stamps.token.getD []))
  | none => ([], [])

/-- `if name and token`, for the stamps of a message. -/
def withWakeup (stamps : Option Stamps) (f : List Char → List Char → RedisProg Bool) :
    RedisProg Bool :=
  let r := requestWakeup stamps
  if r.1 = [] ∨ r.2 = [] then pure false else f r.1 r.2

inductive WakeupJob where
  | applyAsync (name : List Char) (clock : Nat) (nonce : Nonce) (published : Bool)
  | prerun (stamps : Option Stamps)
  | postrun (stamps : Option Stamps) (retry : Bool)
  | revoked (stamps : Option Stamps)

def WakeupJob.name : WakeupJob → List Char
  | .applyAsync name _ _ _ => name
  | .prerun stamps => (requestWakeup stamps).1
  | .postrun stamps _ => (requestWakeup stamps).1
  | .revoked stamps => (requestWakeup stamps).1

def WakeupJob.body : WakeupJob → RedisProg Bool
  | .applyAsync name clock nonce published =>
    Scheduling.applyAsync sha256 settings name clock nonce published
  | .prerun stamps => withWakeup stamps (markPeriodicWakeupRunning sha256 settings)
  | .postrun stamps true => withWakeup stamps (requeuePeriodicWakeup sha256 settings)
  | .postrun stamps false => withWakeup stamps (releasePeriodicWakeup sha256)
  | .revoked stamps => withWakeup stamps (releasePeriodicWakeup sha256)

/-- Beat and the workers on one Redis, which starts at any time. -/
def wakeupSystem (start : Nat) :=
  poolSystem redis (WakeupJob.body sha256 settings) Store.advance ⟨fun _ => none, start⟩

end Functions

end HyperFileLens.Scheduling
