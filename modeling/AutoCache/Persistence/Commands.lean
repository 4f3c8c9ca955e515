import AutoCache.Persistence.Provenance
import AutoCache.Tiered.Adapter

/-!
# The writes of the adapter with write-behind

`TieredStoreAdapter` decides method by method what goes to the queue. `Set` and `Del` of the manager
queue what they write. After a write to a collection the adapter queues the entry of the key, if the
reply says that something was added or taken out. `Incr`, `Decr`, `MSet`, `Expire`, `ExpireAt`,
`Persist`, `RestoreEntry` and the `Rename` of a collection queue nothing.

The queue drops nothing here. What waits in it is flushed in order, in batches of any size.
-/

namespace AutoCache.Persistence

open Tiered

/-- A `time.Duration`. -/
abbrev Duration : Type := { ns : Int // -2 ^ 63 ≤ ns ∧ ns < 2 ^ 63 }

/-- The tiers of a process, and the operations that wait for a flush, the oldest first. -/
structure Process where
  now : Int
  tiers : Tiers Cache
  queue : List WriteOp

abbrev ProcessM : Type → Type := StateT Process Go

namespace Process

def onTiers {α : Type} (x : TierM Cache α) : ProcessM α := fun s => do
  let (a, tiers) ← x s.tiers
  return (a, { s with tiers })

/-- `AppendSet` and `AppendDel`. -/
def push (op : WriteOp) : ProcessM Unit := fun s => return ((), { s with queue := s.queue ++ [op] })

/-! ## The manager -/

section Manager

variable (S : Setup) (now : Int)

def set (key value : Bytes) (ttl : Int) : ProcessM (Except TierError Unit) := do
  match ← onTiers (Tiered.set S.logical.engine now key value ttl) with
  | .error e => return .error e
  | .ok () =>
    push (.set key ⟨.string value, Warm.deadline ttl now⟩)
    return .ok ()

def pushDels : List Bytes → ProcessM Unit
  | [] => return ()
  | key :: keys => do
    push (.del key)
    pushDels keys

def del (keys : List Bytes) : ProcessM Int := do
  let count ← onTiers (Tiered.del S.logical.engine now keys)
  pushDels keys
  return count

def setNX (key value : Bytes) (ttl : Int) : ProcessM (Except TierError Bool) := do
  let count ← onTiers (Tiered.existsKeys S.logical.engine now [key])
  if count > 0 then return .ok false
  else
    let result ← set S now key value ttl
    return result.map fun _ => true

def setXX (key value : Bytes) (ttl : Int) : ProcessM (Except TierError Bool) := do
  let count ← onTiers (Tiered.existsKeys S.logical.engine now [key])
  if count = 0 then return .ok false
  else
    let result ← set S now key value ttl
    return result.map fun _ => true

/-- The family of `GetSet`, `IncrBy` and `Append`. -/
def rewrite {α : Type} (key : Bytes) (next : Option Bytes → Except TierError (Bytes × α)) :
    ProcessM (Except TierError α) := do
  let write (current : Option Bytes) : ProcessM (Except TierError α) :=
    match next current with
    | .error e => return .error e
    | .ok (value, reply) => do
      let _ ← del S now [key]
      let result ← set S now key value 0
      return result.map fun _ => reply
  match ← onTiers (Tiered.get S.logical.engine now key) with
  | .ok current => write (some current)
  | .error .keyNotFound => write none
  | .error e => return .error e

def getSet (key value : Bytes) : ProcessM (Except TierError Bytes) :=
  rewrite S now key fun current => .ok (value, current.getD [])

def incrBy (key : Bytes) (delta : Int) : ProcessM (Except TierError Int) :=
  rewrite S now key fun current =>
    match current.elim (some 0) parseInt with
    | none => .error .invalidSyntax
    | some n => .ok (formatInt (wrap64 (n + delta)), wrap64 (n + delta))

def append (key suffix : Bytes) : ProcessM (Except TierError Int) :=
  rewrite S now key fun current =>
    .ok (current.getD [] ++ suffix, ((current.getD [] ++ suffix).length : Int))

end Manager

end Process

/-! ## The adapter -/

inductive CollectionWrite where
  | hset (pairs : List Bytes)
  | hdel (fields : List Bytes)
  | lpush (values : List Bytes)
  | rpush (values : List Bytes)
  | lpop
  | rpop
  | lset (index : Int) (value : Bytes)
  | ltrim (start stop : Int)
  | sadd (members : List Bytes)
  | srem (members : List Bytes)
  | zadd (members : List (Score × Bytes))
  | zrem (members : List Bytes)

namespace CollectionWrite

/-- `n > 0`. -/
def counted : Except StoreError Int → Bool
  | .ok n => decide (n > 0)
  | .error _ => false

/-- `val != ""`. -/
def nonempty : Except StoreError Bytes → Bool
  | .ok value => decide (value ≠ [])
  | .error _ => false

/-- `err == nil`. -/
def succeeded : Except StoreError Unit → Bool
  | .ok () => true
  | .error _ => false

/-- The call on the memory store, and whether the entry of the key is queued after it. -/
def call {σ : Type} (E : Engine σ) (now : Int) (key : Bytes) : CollectionWrite → StoreM σ Bool
  | hset pairs => counted <$> Store.hset E key pairs now
  | hdel fields => counted <$> Store.hdel E key fields now
  | lpush values => counted <$> Store.lpush E key values now
  | rpush values => counted <$> Store.rpush E key values now
  | lpop => nonempty <$> Store.lpop E key now
  | rpop => nonempty <$> Store.rpop E key now
  | lset index value => succeeded <$> Store.lset E key index value now
  | ltrim start stop => succeeded <$> Store.ltrim E key start stop now
  | sadd members => counted <$> Store.sadd E key members now
  | srem members => counted <$> Store.srem E key members now
  | zadd members => counted <$> Store.zadd E key members now
  | zrem members => counted <$> Store.zrem E key members now

end CollectionWrite

/-- The commands that write. `DecrBy` is `IncrBy` of the negated number. -/
inductive Command where
  | set (key value : Bytes) (ttl : Duration)
  | setNX (key value : Bytes) (ttl : Duration)
  | setXX (key value : Bytes) (ttl : Duration)
  | getSet (key value : Bytes)
  | incr (key : Bytes)
  | decr (key : Bytes)
  | incrBy (key : Bytes) (delta : Int)
  | decrBy (key : Bytes) (delta : Int)
  | append (key suffix : Bytes)
  | mset (pairs : List Bytes)
  | collection (key : Bytes) (write : CollectionWrite)
  | del (keys : List Bytes)
  | rename (key newkey : Bytes)
  | expire (key : Bytes) (ttl : Duration)
  | expireAt (key : Bytes) (t : Int)
  | persist (key : Bytes)
  | flushDB
  | restoreEntry (key : Bytes) (type : ValueType) (payload : Bytes) (ttl : Duration)

namespace Process

section Adapter

variable (S : Setup) (marshal : TypedValue → Go Bytes) (now : Int)

def pushEntry (key : Bytes) : ProcessM Unit := do
  match ← onTiers (hotCall (Store.engineEntry S.logical.engine key now)) with
  | none => push (.del key)
  | some entry => push (.set key entry)

/-- `Rename`; `marshal` is `mustSerializeEntry`, which may panic. -/
def rename (key newkey : Bytes) : ProcessM (Except TierError Unit) := do
  match ← onTiers (Tiered.getEntry S.logical.engine now key) with
  | none => return .error .keyNotFound
  | some entry =>
    let ttl ← onTiers (Tiered.ttl S.logical.engine now key)
    let _ ← del S now [newkey]
    let _ ← del S now [key]
    match entry.value with
    | .object value =>
      let payload ← (marshal value : ProcessM Bytes)
      let result ← onTiers (hotCall (Store.restoreEntry S.logical.engine newkey value.type payload ttl now))
      return result.mapError .hot
    | .string text => set S now newkey text ttl

def flushDB : ProcessM Unit := onTiers do
  hotCall (Store.flushDB S.logical.engine)
  warmCall fun _ => ((), ∅)

def ignore {α : Type} (x : ProcessM α) : ProcessM Unit := do
  let _ ← x
  return ()

end Adapter

end Process

open Process

def Command.run (S : Setup) (marshal : TypedValue → Go Bytes) (now : Int) : Command → ProcessM Unit
  | set key value ttl => Process.ignore (Process.set S now key value ttl)
  | setNX key value ttl => Process.ignore (Process.setNX S now key value ttl)
  | setXX key value ttl => Process.ignore (Process.setXX S now key value ttl)
  | getSet key value => Process.ignore (Process.getSet S now key value)
  | incr key => ignore (onTiers (Tiered.incr S.logical.engine now key))
  | decr key => ignore (onTiers (Tiered.decr S.logical.engine now key))
  | incrBy key delta => Process.ignore (Process.incrBy S now key delta)
  | decrBy key delta => Process.ignore (Process.incrBy S now key (wrap64 (-delta)))
  | append key suffix => Process.ignore (Process.append S now key suffix)
  | mset pairs => ignore (onTiers (Tiered.mset S.logical.engine now pairs))
  | collection key write => do
    if ← onTiers (hotCall (write.call S.logical.engine now key)) then pushEntry S now key
  | del keys => Process.ignore (Process.del S now keys)
  | rename key newkey => Process.ignore (Process.rename S marshal now key newkey)
  | expire key ttl => ignore (onTiers (Tiered.expire S.logical.engine now key ttl))
  | expireAt key t =>
    ignore (onTiers (Tiered.expire S.logical.engine now key (Store.timeUntil t now)))
  | persist key => ignore (onTiers (Tiered.persist S.logical.engine now key))
  | flushDB => Process.flushDB S
  | restoreEntry key type payload ttl => ignore
    (onTiers (hotCall (Store.restoreEntry S.logical.engine key type payload ttl now)))

/-! ## Runs -/

/-- A command, time that passes, or a flush of some of the operations that wait. -/
inductive ProcessEvent where
  | wait (ns : ℕ)
  | command (c : Command)
  | flush (n : ℕ)

namespace Process

variable (S : Setup) (marshal : TypedValue → Go Bytes)

/-- The clock counts nanoseconds in 64 bits. -/
def step (s : Process) : ProcessEvent → Except Stuck Process
  | .wait ns => if s.now + ns < 2 ^ 63 - 1 then .ok { s with now := s.now + ns } else .error .disabled
  | .command c =>
    match c.run S marshal s.now s with
    | .ok (_, s) => .ok s
    | .error f => .error (.fault f)
  | .flush n => .ok { s with
      tiers := { s.tiers with warm := Persistence.flush s.now (s.queue.take n) s.tiers.warm }
      queue := s.queue.drop n }

/-- A process that starts with nothing in memory and in the database. -/
def start (now : Fin (2 ^ 63 - 1)) : Process := ⟨now, ⟨⟨∅, ∅, ∅⟩, ∅⟩, []⟩

/-- **The state survives a restart**: after `LoadIntoMemory` into an empty store, `GetEntry` of the
memory store reports the same for every key. -/
def Survives (s : Process) : Prop :=
  ∃ hot, S.load s.now s.tiers.warm ⟨∅, ∅, ∅⟩ = .ok ((), hot) ∧
    ∀ key, ∃ entry t u, Store.engineEntry S.logical.engine key s.now hot = .ok (entry, t) ∧
      Store.engineEntry S.logical.engine key s.now s.tiers.hot = .ok (entry, u)

end Process

/-- A collection that its JSON gives back. -/
def Setup.RoundTrips (S : Setup) (value : TypedValue) : Prop :=
  ∃ payload, S.marshal value = some payload ∧ S.logical.unmarshal value.type payload = .ok value

/-- When a command brings all that it writes into the queue, in the state before it. A command that
queues nothing leaves the memory as it is; a string does not cover a collection that comes back when it
expires; what is queued of a collection can be loaded; and nothing waits that would come after
`FlushDB`. -/
def Command.Queued (S : Setup) (s : Process) : Command → Prop :=
  let now := s.now
  let w := s.tiers.hot.live now
  fun
  | set key _ ttl | setXX key _ ttl => (w key).obj = none ∨ ttl.val ≤ 0 ∧ Readable key
  | setNX _ _ _ | getSet _ _ | incrBy _ _ | decrBy _ _ | append _ _ | del _ => True
  | incr key => (w.incrBy key 1).2 = w
  | decr key => (w.incrBy key (-1)).2 = w
  | mset pairs => pairs.length % 2 = 0 → (w.mset S.logical.size now pairs).2 = w
  | collection key write => ∀ queued hot,
      write.call S.logical.engine now key s.tiers.hot = .ok (queued, hot) →
        if queued then ∀ o ∈ (hot.live now key).obj, S.RoundTrips o.value else hot.live now = w
  | rename key _ => ∀ entry ∈ (s.tiers.view now).entry now key, ∃ text, entry.value = .string text
  | expire key ttl => (w.expire key ttl now).2 = w
  | expireAt key t => (w.expire key (Store.timeUntil t now) now).2 = w
  | persist key => (w.expire key 0 now).2 = w
  | flushDB => ∀ key, written s.queue (fun _ => none) key = none
  | restoreEntry key type payload ttl => ∀ value,
      Store.restoredValue S.logical type payload = .ok value →
        (w.restore S.logical.size key ttl now value).2 = w

def Process.Queued (S : Setup) (s : Process) : ProcessEvent → Prop
  | .command c => c.Queued S s
  | _ => True

end AutoCache.Persistence
