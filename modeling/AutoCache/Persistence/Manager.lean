import AutoCache.Persistence.WriteBehind
import AutoCache.Tiered.View

/-!
# The tiers with write-behind (`tiered.Manager`, `WriteBehind.LoadIntoMemory`)

The manager writes strings to the hot tier and queues them for the database, which is its warm tier. A
read that finds a string in the warm tier may start a goroutine that promotes it, whenever that runs.
After a restart the memory is loaded from the database.

A call is one step here, at one moment, and so is a flush and the run of a goroutine.
-/

namespace AutoCache.Persistence

open Tiered Views

/-- `marshal` is `json.Marshal`. -/
structure Setup where
  logical : LogicalConfig
  batchSize : ℕ
  marshal : TypedValue → Option Bytes

/-- A goroutine of `maybePromote`: the string, and the entry it was read from. -/
structure Promotion where
  key : Bytes
  value : Bytes
  entry : EngineEntry

/-- The memory, the queue with the database, and the goroutines that have not run yet. -/
structure Manager where
  hot : Store Cache
  loop : WriteBehind
  promotions : List Promotion

inductive Event where
  | loop (event : LoopEvent)
  | set (key value : Bytes) (ttl : Int)
  | del (keys : List Bytes)
  | flushDB
  | get (key : Bytes) (promotes : Bool)
  | getEntry (key : Bytes)
  | promote (i : ℕ)
  | load
  | restart

/-- Why there is no next state. -/
inductive Stuck where
  | disabled
  | fault (f : Fault)

namespace Setup

variable (S : Setup)

/-- `SerializeEntryValue`, taken apart into its first byte and the rest. -/
def serialize : Value → Option (ValueType × Bytes)
  | .string text => some (.string, text)
  | .object value => (S.marshal value).map (value.type, ·)

/-- `LoadIntoMemory` at one item. An entry whose deadline has passed is left out. -/
def loadKey (now : Int) (db : Warm) (key : Bytes) : StoreM Cache Unit := do
  match ← Store.engineEntry S.logical.engine key now with
  | some _ => return ()
  | none =>
    match db.get key now with
    | none => return ()
    | some entry =>
      match S.serialize entry.value with
      | none => return ()
      | some (type, payload) =>
        let ttl := entry.expireAt.elim 0 (Store.timeUntil · now)
        if ttl < 0 then return ()
        else
          let _ ← Store.restoreEntry S.logical.engine key type payload ttl now
          return ()

def loadKeys (now : Int) (db : Warm) : List Bytes → StoreM Cache Unit
  | [] => return ()
  | key :: keys => do
    S.loadKey now db key
    loadKeys now db keys

/-- `LoadIntoMemory`: the iterator gives the keys in order. -/
def load (now : Int) (db : Warm) : StoreM Cache Unit := S.loadKeys now db (db.keys.sort (· ≤ ·))

/-- `Get` up to `maybePromote`: the string that may be promoted. -/
def readForPromotion (now : Int) (key : Bytes) : TierM Cache (Option Promotion) := do
  match ← hotCall (Store.get S.logical.engine key now) with
  | .ok _ => return none
  | .error _ =>
    match ← warmCall fun warm => (warm.get key now, warm) with
    | none => return none
    | some entry =>
      match stringEntryValue entry with
      | .error _ => return none
      | .ok value => return some ⟨key, value, entry⟩

def runPromotion (now : Int) (p : Promotion) : TierM Cache Unit := do
  match ← hotCall (Store.set S.logical.engine p.key p.value (entryTTL now p.entry) now) with
  | .error _ => return ()
  | .ok () =>
    let _ ← warmCall fun warm => Warm.del now [p.key] warm
    return ()

end Setup

namespace Manager

variable (S : Setup) (s : Manager)

def now : Int := s.loop.now

def tiers : Tiers Cache := ⟨s.hot, s.loop.db⟩

def call {α : Type} (x : TierM Cache α) : Except Stuck (α × Manager) :=
  match x s.tiers with
  | .ok (a, t) => .ok (a, { s with hot := t.hot, loop := { s.loop with db := t.warm } })
  | .error f => .error (.fault f)

def queue (event : LoopEvent) : Except Stuck Manager :=
  match s.loop.step S.batchSize event with
  | .ok loop => .ok { s with loop }
  | .error _ => .error .disabled

/-- `AppendDel` for each key. -/
def appendDels : List Bytes → Manager → Except Stuck Manager
  | [], s => .ok s
  | key :: keys, s =>
    match s.queue S (.append (.del key)) with
    | .error e => .error e
    | .ok s => appendDels keys s

def step (s : Manager) : Event → Except Stuck Manager
  | .loop event => s.queue S event
  | .set key value ttl => do
    let (result, s) ← s.call (Tiered.set S.logical.engine s.now key value ttl)
    match result with
    | .error _ => .ok s
    | .ok () => s.queue S (.append (.set key ⟨.string value, Warm.deadline ttl s.now⟩))
  | .del keys => do
    let (_, s) ← s.call (Tiered.del S.logical.engine s.now keys)
    appendDels S keys s
  | .flushDB => do
    let (_, s) ← s.call (hotCall (Store.flushDB S.logical.engine))
    .ok { s with loop := { s.loop with db := ∅ } }
  | .get key promotes => do
    let (promotion, s) ← s.call (S.readForPromotion s.now key)
    match promotion, promotes with
    | some p, true => .ok { s with promotions := s.promotions ++ [p] }
    | _, _ => .ok s
  | .getEntry key => do
    let (_, s) ← s.call (Tiered.getEntry S.logical.engine s.now key)
    .ok s
  | .promote i =>
    match s.promotions[i]? with
    | none => .error .disabled
    | some p => do
      let (_, s) ← s.call (S.runPromotion s.now p)
      .ok { s with promotions := s.promotions.eraseIdx i }
  | .load => do
    let (_, s) ← s.call (hotCall (S.load s.now s.loop.db))
    .ok s
  | .restart => .ok ⟨⟨∅, ∅, ∅⟩, .start s.now s.loop.db, []⟩

/-- A read of the key returns the value: `Get` or `GetEntry`. -/
def Reads (key : Bytes) (value : Value) : Prop :=
  (∃ text t, value = .string text ∧ Tiered.get S.logical.engine s.now key s.tiers = .ok (.ok text, t)) ∨
    ∃ deadline t, Tiered.getEntry S.logical.engine s.now key s.tiers = .ok (some ⟨value, deadline⟩, t)

def fresh : Manager := ⟨⟨∅, ∅, ∅⟩, .start 0 ∅, []⟩

/-- A small memory, and a loop with room in its batch. -/
def smallSetup : Setup := ⟨smallHot, 512, fun _ => none⟩

end Manager

end AutoCache.Persistence
