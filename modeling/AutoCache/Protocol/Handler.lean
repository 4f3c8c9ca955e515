import AutoCache.Cluster.Router
import AutoCache.Replication.Log
import AutoCache.Store.Collections

/-!
# Handlers (`internal/protocol/handler.go`)

A handler runs engine calls and writes one reply. The handlers of the commands that are replicated
run their engine call through `applyReplicationWrite`, which in a cluster logs it.

A command reads the clock once here: `now` is what every `time.Now` of its handler and of its
engine calls returns. Texts are strings with one character per byte.
-/

namespace AutoCache.Protocol

open Cluster Replication

/-! ## Words and replies -/

def ascii (word : String) : Bytes := word.toList.map fun c => UInt8.ofNat c.toNat

def text (bytes : Bytes) : String := String.ofList (bytes.map fun c => Char.ofNat c.toNat)

/-- `upperTable`. -/
def upperByte (c : UInt8) : UInt8 := if 97 ≤ c ∧ c ≤ 122 then c - 32 else c

/-- `ToUpperInPlace`. `strings.ToUpper` agrees on what is compared with a word of letters other
than `I` and `S`. -/
def toUpper (bytes : Bytes) : Bytes := bytes.map upperByte

/-- What a handler writes to the connection. -/
inductive Reply where
  | simple (text : String)
  | error (text : String)
  | bulk (bytes : Bytes)
  | null
  | int (n : Int)
  | array (items : List Reply)

namespace Reply

def ok : Reply := .simple "OK"

def flag (b : Bool) : Reply := .int (if b then 1 else 0)

def bulks (items : List Bytes) : Reply := .array (items.map .bulk)

def orNull : Option Bytes → Reply
  | some bytes => .bulk bytes
  | none => .null

def wrongArity (command : String) : Reply :=
  .error ("ERR wrong number of arguments for '" ++ command ++ "' command")

def notInteger : Reply := .error "ERR value is not an integer or out of range"

def wrongType : Reply :=
  .error "WRONGTYPE Operation against a key holding the wrong kind of value"

end Reply

/-! ## Errors -/

/-- `err.Error()` of the errors of the engine. -/
def errorText : StoreError → String
  | .keyNotFound => "key not found"
  | .wrongType => "WRONGTYPE Operation against a key holding the wrong kind of value"
  | .notInteger => "value is not an integer or out of range"
  | .invalidArgs => "wrong number of arguments"
  | .wrongNumber => "wrong number of arguments"
  | .ring .bufferFull => "ring buffer full"
  | .ring .entryTooLarge => "entry too large for buffer"
  | .ring .invalidOffset => "invalid offset"
  | .decode text => text

/-- The errors of an `apply` callback: `errReplicationNoop` is a write that was not due. -/
inductive ApplyError where
  | noop
  | store (e : StoreError)

def slotErrorText : SlotError → String
  | .invalidSlot slot => "invalid slot: " ++ toString slot.toNat
  | .notAssigned slot => "slot " ++ toString slot.toNat ++ " not assigned"
  | .replicaNotFound nodeID slot =>
    "replica " ++ nodeID ++ " not found for slot " ++ toString slot.toNat

def writeErrorText : WriteError ApplyError → String
  | .apply .noop => "replication noop"
  | .apply (.store e) => errorText e
  | .allocate slot err =>
    "allocate lsn for slot " ++ toString slot.toNat ++ ": " ++ slotErrorText err
  | .append err =>
    "append replication op: slot " ++ toString err.slot.toNat ++ " append out of order: got " ++
      toString err.got.toNat ++ " want " ++ toString err.want.toNat

def writeDataError : WriteError ApplyError → Reply
  | .apply (.store .wrongType) => .wrongType
  | .apply (.store .keyNotFound) => .null
  | err => .error ("ERR " ++ writeErrorText err)

/-! ## Nodes -/

/-- What commands change: the store and, in a cluster, what numbers and logs the writes. -/
structure Server (σ : Type) where
  store : Store σ
  manager : Option Manager

abbrev HandlerM (σ : Type) : Type → Type := StateT (Server σ) Go

/-- What the commands of a node depend on: the engine, the cluster's view, the float conversions of
`strconv`, the order of sorted sets, and for `MIGRATE` which values serialize and what the target
answers to the items in turn. `other` has the handlers of the commands that are not on keys. -/
structure NodeConfig (σ : Type) where
  engine : Engine σ
  view : View
  parseFloat : Bytes → Option Score
  formatFloat : Score → Bytes
  sortedZMembers : GoMap Bytes Score → List Bytes
  serializes : TypedValue → Bool
  migrated : ℕ → Except String Unit
  other : Bytes → Option (List Bytes → HandlerM σ Reply)

variable {σ : Type}

def engineCall {α : Type} (x : StoreM σ α) : HandlerM σ α := fun s => do
  let (a, store) ← x s.store
  return (a, { s with store })

lemma engineCall_bind {α β : Type} {x : StoreM σ α} {k : α → HandlerM σ β} {s : Server σ} {a : α}
    {store : Store σ} (hx : x s.store = .ok (a, store)) :
    (engineCall x >>= k) s = k a { s with store := store } := by
  change ((x s.store >>= fun p => pure (p.1, { s with store := p.2 })) >>= fun p => k p.1 p.2) = _
  rw [hx]
  rfl

def callReply {α : Type} (reply : α → Reply) : Except StoreError α → Reply
  | .ok a => reply a
  | .error e => writeDataError (.apply (.store e))

/-- An engine call whose error is the reply. -/
def call {α : Type} (reply : α → Reply) (x : StoreM σ (Except StoreError α)) : HandlerM σ Reply := do
  let result ← engineCall x
  return callReply reply result

lemma call_run {α : Type} {reply : α → Reply} {x : StoreM σ (Except StoreError α)} {s : Server σ}
    {r : Except StoreError α} {store : Store σ} (hx : x s.store = .ok (r, store)) :
    call reply x s = .ok (callReply reply r, { s with store := store }) := by
  unfold call
  rw [engineCall_bind hx]
  rfl

/-- `strconv.ParseInt` of an argument. -/
def withInt (arg : Bytes) (k : Int → HandlerM σ Reply) : HandlerM σ Reply :=
  match parseInt arg with
  | none => return .notInteger
  | some n => k n

/-! ## The write path -/

/-- `strings.Join(parts, "\x00")`. -/
def encodeReplicationPayload (args : List Bytes) : Bytes := List.intercalate [0] args

/-- A callback that keeps its result in a captured variable, for `ApplyWrite`. -/
def captured {α ε : Type} (apply : StoreM σ (Except ε α)) (p : α × Store σ) :
    Go (Option ε × α × Store σ) := do
  let (result, store) ← apply p.2
  match result with
  | .error e => return (some e, p.1, store)
  | .ok a => return (none, a, store)

/-- `applyReplicationWrite`; the callback's result starts as `zero`. Without a replication manager
the callback just runs. -/
def applyReplicationWrite {α : Type} (cfg : NodeConfig σ) (key : Bytes) (opType : OpType)
    (args : List Bytes) (expireAtNs : Int) (zero : α) (apply : StoreM σ (Except ApplyError α)) :
    HandlerM σ (Except (WriteError ApplyError) α) := fun s =>
  match s.manager with
  | none => do
    let (result, store) ← apply s.store
    return (result.mapError .apply, { s with store })
  | some m => do
    let req : WriteRequest :=
      { slot := cfg.view.keySlot key, opType := opType, key := key,
        payload := encodeReplicationPayload args, expireAtNs := expireAtNs }
    let (result, m, a, store) ← m.applyWrite req (captured apply) (zero, s.store)
    return (result.map fun _ => a, { store := store, manager := some m })

/-- A callback all of whose errors come from the engine. -/
def engineApply {α : Type} (x : StoreM σ (Except StoreError α)) : StoreM σ (Except ApplyError α) :=
  do
    let result ← x
    return result.mapError .store

/-- A callback that cannot fail. -/
def sureApply {α : Type} (x : StoreM σ α) : StoreM σ (Except ApplyError α) := do
  let a ← x
  return .ok a

/-- A logged write whose error is the reply. -/
def logged {α : Type} (reply : α → Reply)
    (x : HandlerM σ (Except (WriteError ApplyError) α)) : HandlerM σ Reply := do
  match ← x with
  | .ok a => return reply a
  | .error err => return writeDataError err

end AutoCache.Protocol
