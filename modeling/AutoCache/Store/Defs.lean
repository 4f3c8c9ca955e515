import Mathlib.Data.Finset.Sort
import AutoCache.Store.Backend

/-!
# The store (`internal/engine/memory/{store,dict,expiry}.go`)

A store is a sharded cache for strings, a dictionary for collections and an index from cluster
slots to keys. A call is a program over the store's state that may fault. It reads the clock
once; `now`, durations and deadlines are in nanoseconds.

With an evictor, `NewStore` turns the recording of accesses on, and the first write to the cache
overflows the stack (`recordAccess`); so `TryEvict` only ever meets an empty cache, where it does
nothing, and is left out here.
-/

namespace AutoCache

open AutoCache.Ring

/-! ## Values -/

inductive ValueType where
  | string | list | set | hash | zset
  deriving DecidableEq, Repr

/-- The bits of a `float64` score. -/
abbrev Score : Type := UInt64

/-- A `typedValue`. A hash restored from the text `null` is a nil map. -/
inductive TypedValue where
  | hash (fields : Option (GoMap Bytes Bytes))
  | list (items : List Bytes)
  | set (members : Finset Bytes)
  | zset (scores : GoMap Bytes Score)

def TypedValue.type : TypedValue → ValueType
  | .hash _ => .hash
  | .list _ => .list
  | .set _ => .set
  | .zset _ => .zset

def TypedValue.asHash? : TypedValue → Option (Option (GoMap Bytes Bytes))
  | .hash fields => some fields
  | _ => none

def TypedValue.asList? : TypedValue → Option (List Bytes)
  | .list items => some items
  | _ => none

def TypedValue.asSet? : TypedValue → Option (Finset Bytes)
  | .set members => some members
  | _ => none

def TypedValue.asZSet? : TypedValue → Option (GoMap Bytes Score)
  | .zset scores => some scores
  | _ => none

/-- The `Entry` of a dictionary; a deadline of `0` is none. -/
structure Object where
  value : TypedValue
  expireAt : Int

/-- `IsExpired`. -/
def Object.expired (o : Object) (now : Int) : Prop := o.expireAt ≠ 0 ∧ now > o.expireAt

instance (o : Object) (now : Int) : Decidable (o.expired now) := by
  unfold Object.expired
  infer_instance

/-- The deadline of a time to live: `now + ttl` in 64 bits. -/
def objectDeadline (ttl now : Int) : Int := if ttl > 0 then wrap64 (now + ttl) else 0

inductive StoreError where
  | keyNotFound
  | wrongType
  | notInteger
  | invalidArgs
  | wrongNumber
  | ring (e : RingError)
  | decode (text : String)
  deriving DecidableEq

/-! ## State -/

/-- What the calls of a store depend on: the shards, the slot function if one is installed, and
`json.Unmarshal` into the Go type of a value. -/
structure Engine (σ : Type) extends Backend σ where
  slotFunc : Option (Bytes → UInt16)
  unmarshal : ValueType → Bytes → Except String TypedValue

structure Store (σ : Type) where
  shards : σ
  slotIndex : GoMap UInt16 (Finset Bytes)
  objects : GoMap Bytes Object

abbrev StoreM (σ : Type) : Type → Type := StateT (Store σ) Go

namespace Store

variable {σ : Type} (E : Engine σ)

/-! ## The slot index -/

def trackKey (key : Bytes) : StoreM σ Unit := fun s =>
  match E.slotFunc with
  | none => return ((), s)
  | some slotFunc =>
    let slot := slotFunc key
    let keys := insert key ((s.slotIndex.lookup slot).getD ∅)
    return ((), { s with slotIndex := s.slotIndex.insert slot keys })

/-- A key leaves the set of its slot; an empty set leaves the index. -/
def untrackKey (key : Bytes) : StoreM σ Unit := fun s =>
  match E.slotFunc with
  | none => return ((), s)
  | some slotFunc =>
    let slot := slotFunc key
    match s.slotIndex.lookup slot with
    | none => return ((), s)
    | some keys =>
      let keys := keys.erase key
      if keys = ∅ then return ((), { s with slotIndex := s.slotIndex.erase slot })
      else return ((), { s with slotIndex := s.slotIndex.insert slot keys })

/-! ## The cache -/

def onShards {α : Type} (call : σ → Go (σ × α)) : StoreM σ α := fun s => do
  let (shards, a) ← call s.shards
  return (a, { s with shards })

def cacheGet (key : Bytes) (now : Int) : StoreM σ (Option Bytes) :=
  onShards fun c => E.get c key now

def cacheExists (key : Bytes) (now : Int) : StoreM σ Bool := do
  let value ← cacheGet E key now
  return value.isSome

/-- The end of a cache write: an entry that went to the ring puts its key into the slot index. -/
def trackAppended (key : Bytes) (outcome : WriteOutcome) : StoreM σ WriteOutcome := do
  if outcome = .appended then
    trackKey E key
    return outcome
  else return outcome

def cacheSet (key value : Bytes) (ttl now : Int) : StoreM σ WriteOutcome := do
  let outcome ← onShards fun c => E.set c key value ttl now
  trackAppended E key outcome

def cacheSetNX (key value : Bytes) (ttl now : Int) : StoreM σ WriteOutcome := do
  let outcome ← onShards fun c => E.setNX c key value ttl now
  trackAppended E key outcome

/-- `SetXX` leaves the slot index alone. -/
def cacheSetXX (key value : Bytes) (ttl now : Int) : StoreM σ WriteOutcome :=
  onShards fun c => E.setXX c key value ttl now

/-- `Expire` leaves the slot index alone. -/
def cacheExpire (key : Bytes) (ttl now : Int) : StoreM σ Bool :=
  onShards fun c => E.expire c key ttl now

/-- Only a counter that is new to the index enters the slot index. -/
def cacheIncrBy (key : Bytes) (delta now : Int) : StoreM σ Shard.IncrOutcome := do
  match ← onShards fun c => E.incrBy c key delta now with
  | .created n =>
    trackKey E key
    return .created n
  | outcome => return outcome

def cacheDelete (key : Bytes) : StoreM σ Bool := do
  let deleted ← onShards fun c => return E.delete c key
  if deleted then
    untrackKey E key
    return true
  else return false

def cacheTTL (key : Bytes) (now : Int) : StoreM σ (Option Int) :=
  onShards fun c => do
    let ttl ← E.ttl c key now
    return (c, ttl)

def cacheClear : StoreM σ Unit := fun s =>
  return ((), { s with shards := E.clear s.shards, slotIndex := ∅ })

/-! ## The dictionary -/

/-- `Dict.Get` deletes an expired entry; the slot index keeps its key. -/
def objectGet (key : Bytes) (now : Int) : StoreM σ (Option Object) := fun s =>
  match s.objects.lookup key with
  | none => return (none, s)
  | some o =>
    if o.expired now then return (none, { s with objects := s.objects.erase key })
    else return (some o, s)

def objectSetEntry (key : Bytes) (o : Object) : StoreM σ Unit := fun s =>
  return ((), { s with objects := s.objects.insert key o })

def objectSet (key : Bytes) (value : TypedValue) (ttl now : Int) : StoreM σ Unit :=
  objectSetEntry key ⟨value, objectDeadline ttl now⟩

/-- An assignment to the `Value` of a `typedValue` in the dictionary. -/
def objectPut (key : Bytes) (value : TypedValue) : StoreM σ Unit := fun s =>
  match s.objects.lookup key with
  | none => return ((), s)
  | some o => return ((), { s with objects := s.objects.insert key { o with value } })

def objectDel (key : Bytes) : StoreM σ Bool := fun s =>
  if key ∈ s.objects then return (true, { s with objects := s.objects.erase key })
  else return (false, s)

def objectExpire (key : Bytes) (ttl now : Int) : StoreM σ Bool := fun s =>
  match s.objects.lookup key with
  | none => return (false, s)
  | some o =>
    if o.expired now then return (false, s)
    else
      let o := { o with expireAt := objectDeadline ttl now }
      return (true, { s with objects := s.objects.insert key o })

def objectTTL (key : Bytes) (now : Int) : StoreM σ (Option Int) := do
  match ← objectGet key now with
  | none => return none
  | some o =>
    if o.expireAt = 0 then return some (-1)
    else
      let remaining := wrap64 (o.expireAt - now)
      if remaining < 0 then return none else return some remaining

def getObjectValue (key : Bytes) (now : Int) : StoreM σ (Option TypedValue) := do
  let o ← objectGet key now
  return o.map Object.value

def hasObjectKey (key : Bytes) (now : Int) : StoreM σ Bool := do
  let value ← getObjectValue key now
  return value.isSome

/-- The object copy of a key goes and the key leaves the slot index, whether or not the cache
holds another copy. -/
def deleteObjectKey (key : Bytes) : StoreM σ Bool := do
  if ← objectDel key then
    untrackKey E key
    return true
  else return false

def removeObjectKey (key : Bytes) : StoreM σ Unit := do
  let _ ← deleteObjectKey E key
  return ()

/-! ## Strings -/

def writeError : WriteOutcome → Except StoreError Unit
  | .failed e => .error (.ring e)
  | _ => .ok ()

def writeDone : WriteOutcome → Except StoreError Bool
  | .failed e => .error (.ring e)
  | .refused => .ok false
  | _ => .ok true

/-- `Get` and `GetBytes`. -/
def get (key : Bytes) (now : Int) : StoreM σ (Except StoreError Bytes) := do
  match ← cacheGet E key now with
  | some value => return .ok value
  | none =>
    if ← hasObjectKey key now then return .error .wrongType
    else return .error .keyNotFound

/-- `Set` leaves an object copy of the key alone. -/
def set (key value : Bytes) (ttl now : Int) : StoreM σ (Except StoreError Unit) := do
  let outcome ← cacheSet E key value ttl now
  return writeError outcome

def setNX (key value : Bytes) (ttl now : Int) : StoreM σ (Except StoreError Bool) := do
  if ← hasObjectKey key now then return .ok false
  else
    let outcome ← cacheSetNX E key value ttl now
    return writeDone outcome

def setXX (key value : Bytes) (ttl now : Int) : StoreM σ (Except StoreError Bool) := do
  if ← hasObjectKey key now then
    removeObjectKey E key
    let outcome ← cacheSet E key value ttl now
    return (writeError outcome).map fun _ => true
  else
    let outcome ← cacheSetXX E key value ttl now
    return writeDone outcome

/-- The test of `GetSet` and `Append`: no string, but a collection. -/
def holdsOther (current : Option Bytes) (key : Bytes) (now : Int) : StoreM σ Bool :=
  match current with
  | some _ => return false
  | none => hasObjectKey key now

def getSet (key value : Bytes) (now : Int) : StoreM σ (Except StoreError Bytes) := do
  let current ← cacheGet E key now
  if ← holdsOther current key now then return .error .wrongType
  else
    removeObjectKey E key
    let outcome ← cacheSet E key value 0 now
    return (writeError outcome).map fun _ => current.getD []

/-- `IncrBy` does not look at the dictionary. -/
def incrBy (key : Bytes) (delta now : Int) : StoreM σ (Except StoreError Int) := do
  match ← cacheIncrBy E key delta now with
  | .created n => return .ok n
  | .updated n => return .ok n
  | .notInteger => return .error .notInteger

def incr (key : Bytes) (now : Int) : StoreM σ (Except StoreError Int) := incrBy E key 1 now

def decr (key : Bytes) (now : Int) : StoreM σ (Except StoreError Int) := incrBy E key (-1) now

def decrBy (key : Bytes) (delta now : Int) : StoreM σ (Except StoreError Int) :=
  incrBy E key (wrap64 (-delta)) now

def append (key value : Bytes) (now : Int) : StoreM σ (Except StoreError Int) := do
  let current ← cacheGet E key now
  if ← holdsOther current key now then return .error .wrongType
  else
    let str := current.getD [] ++ value
    removeObjectKey E key
    let outcome ← cacheSet E key str 0 now
    return (writeError outcome).map fun _ => (str.length : Int)

def strlen (key : Bytes) (now : Int) : StoreM σ (Except StoreError Int) := do
  match ← cacheGet E key now with
  | some value => return .ok value.length
  | none =>
    if ← hasObjectKey key now then return .error .wrongType
    else return .ok 0

/-- `MGet` and `MGetBytes`: an error is a missing value. -/
def mget (now : Int) : List Bytes → StoreM σ (List (Option Bytes))
  | [] => return []
  | key :: keys => do
    let value ← get E key now
    let values ← mget now keys
    return value.toOption :: values

/-- The pairs of `MSet` one after the other, until one fails. -/
def msetPairs (now : Int) : List Bytes → StoreM σ (Except StoreError Unit)
  | key :: value :: pairs => do
    match ← set E key value 0 now with
    | .error e => return .error e
    | .ok () => msetPairs now pairs
  | _ => return .ok ()

def mset (pairs : List Bytes) (now : Int) : StoreM σ (Except StoreError Unit) :=
  if pairs.length % 2 ≠ 0 then return .error .wrongNumber else msetPairs E now pairs

/-! ## Keys of any type -/

def delKey (key : Bytes) : StoreM σ Bool := do
  let inCache ← cacheDelete E key
  let inObjects ← deleteObjectKey E key
  return inCache || inObjects

def del : List Bytes → StoreM σ Int
  | [] => return 0
  | key :: keys => do
    let deleted ← delKey E key
    let count ← del keys
    return (if deleted then 1 else 0) + count

/-- `s.cache.Exists(key) || s.hasObjectKey(key)`. -/
def hasKey (key : Bytes) (now : Int) : StoreM σ Bool := do
  if ← cacheExists E key now then return true else hasObjectKey key now

def existsKeys (now : Int) : List Bytes → StoreM σ Int
  | [] => return 0
  | key :: keys => do
    let found ← hasKey E key now
    let count ← existsKeys now keys
    return (if found then 1 else 0) + count

/-- `Type`; `none` is the text `none`. -/
def type (key : Bytes) (now : Int) : StoreM σ (Option ValueType) := do
  if ← cacheExists E key now then return some .string
  else
    let value ← getObjectValue key now
    return value.map TypedValue.type

def ttl (key : Bytes) (now : Int) : StoreM σ Int := do
  match ← cacheTTL E key now with
  | some ttl => return ttl
  | none =>
    match ← objectTTL key now with
    | some ttl => return ttl
    | none => return -2000000000

def ttlOrZero (key : Bytes) (now : Int) : StoreM σ Int := do
  let ttl ← ttl E key now
  return if ttl < 0 then 0 else ttl

def rename (key newkey : Bytes) (now : Int) : StoreM σ (Except StoreError Unit) := do
  match ← cacheGet E key now with
  | some value =>
    let ttl ← ttlOrZero E key now
    let _ ← cacheDelete E key
    let _ ← deleteObjectKey E newkey
    let outcome ← cacheSet E newkey value ttl now
    return writeError outcome
  | none =>
    match ← objectGet key now with
    | none => return .error .keyNotFound
    | some o =>
      let _ ← deleteObjectKey E key
      let _ ← cacheDelete E newkey
      objectSetEntry newkey o
      trackKey E newkey
      return .ok ()

def expire (key : Bytes) (ttl now : Int) : StoreM σ Bool := do
  if ← cacheExpire E key ttl now then return true else objectExpire key ttl now

/-- `time.Until`: the difference of two times, saturated to 64 bits. -/
def timeUntil (t now : Int) : Int := max (-2 ^ 63) (min (2 ^ 63 - 1) (t - now))

/-- `ExpireAt`; the time `t` is in nanoseconds and of any size. -/
def expireAt (key : Bytes) (t now : Int) : StoreM σ Bool := do
  let ttl := timeUntil t now
  if ttl < 0 then delKey E key
  else if ← cacheExpire E key ttl now then return true
  else objectExpire key ttl now

def persist (key : Bytes) (now : Int) : StoreM σ Bool := do
  if ← cacheExpire E key 0 now then return true else objectExpire key 0 now

def flushDB : StoreM σ Unit := do
  cacheClear E
  fun s => return ((), { s with objects := ∅ })

/-- `RestoreEntry`; a payload that does not decode changes nothing. -/
def restoreEntry (key : Bytes) (type : ValueType) (payload : Bytes) (ttl now : Int) :
    StoreM σ (Except StoreError Unit) :=
  match type with
  | .string => do
    let _ ← cacheDelete E key
    let _ ← deleteObjectKey E key
    removeObjectKey E key
    let outcome ← cacheSet E key payload ttl now
    return writeError outcome
  | _ =>
    match E.unmarshal type payload with
    | .error text => return .error (.decode text)
    | .ok value => do
      let _ ← cacheDelete E key
      let _ ← deleteObjectKey E key
      objectSet key value ttl now
      trackKey E key
      return .ok ()

/-- The loop of `KeysInSlot`. -/
def keepLive (count : ℕ) (now : Int) : List Bytes → List Bytes → StoreM σ (List Bytes)
  | [], result => return result
  | key :: keys, result => do
    if count > 0 ∧ result.length ≥ count then return result
    else if ← hasKey E key now then keepLive count now keys (result ++ [key])
    else keepLive count now keys result

/-- `KeysInSlot`: the keys the index lists for the slot, sorted, less those that are not live. -/
def keysInSlot (slot : UInt16) (count : ℕ) (now : Int) : StoreM σ (List Bytes) := fun s =>
  keepLive E count now (((s.slotIndex.lookup slot).getD ∅).sort (· ≤ ·)) [] s

/-! ## Active expiry -/

/-- One round over sampled keys of the cache; the number of keys deleted. -/
def expireCacheKeys (now : Int) : List Bytes → StoreM σ ℕ
  | [] => return 0
  | key :: keys => do
    match ← cacheTTL E key now with
    | none => expireCacheKeys now keys
    | some ttl =>
      if ttl = -1 then expireCacheKeys now keys
      else if ttl ≤ 0 then
        let _ ← cacheDelete E key
        let expired ← expireCacheKeys now keys
        return expired + 1
      else expireCacheKeys now keys

/-- One round over sampled keys of the dictionary. -/
def expireObjectKeys (now : Int) : List Bytes → StoreM σ ℕ
  | [] => return 0
  | key :: keys => do
    match ← objectTTL key now with
    | none => expireObjectKeys now keys
    | some ttl =>
      if ttl = -1 then expireObjectKeys now keys
      else if ttl ≤ 0 then
        let deleted ← deleteObjectKey E key
        let expired ← expireObjectKeys now keys
        return if deleted then expired + 1 else expired
      else expireObjectKeys now keys

/-- The rounds of one kind: `RandomKeys` yields the samples, and a round in which fewer than a
quarter of the keys were expired is the last. -/
def expireRounds (round : List Bytes → StoreM σ ℕ) : List (List Bytes) → StoreM σ Unit
  | [] => return ()
  | keys :: samples =>
    if keys = [] then return ()
    else do
      let expired ← round keys
      if 4 * expired < keys.length then return () else expireRounds round samples

/-- `activeExpireCycle`, given what `RandomKeys` yields in its rounds. -/
def activeExpireCycle (cacheSamples objectSamples : List (List Bytes)) (now : Int) :
    StoreM σ Unit := do
  expireRounds (expireCacheKeys E now) cacheSamples
  expireRounds (expireObjectKeys E now) objectSamples

/-! ## What the smallest steps leave -/

variable (key : Bytes)

lemma trackKey_run (s : Store σ) : ∃ index, trackKey E key s = .ok ((), { s with slotIndex := index }) := by
  unfold trackKey
  split
  · exact ⟨s.slotIndex, rfl⟩
  · exact ⟨_, rfl⟩

lemma untrackKey_run (s : Store σ) : ∃ index, untrackKey E key s = .ok ((), { s with slotIndex := index }) := by
  unfold untrackKey
  split
  · exact ⟨s.slotIndex, rfl⟩
  · dsimp only
    split
    · exact ⟨s.slotIndex, rfl⟩
    · split <;> exact ⟨_, rfl⟩

lemma objectDel_run (s : Store σ) :
    objectDel key s = .ok (decide (key ∈ s.objects), { s with objects := s.objects.erase key }) := by
  unfold objectDel
  split
  · next h => rw [decide_eq_true h]; rfl
  · next h => rw [decide_eq_false h, GoMap.erase_of_notMem h]; rfl

lemma objectGet_cases (now : Int) (s : Store σ) :
    objectGet key now s = .ok (none, { s with objects := s.objects.erase key }) ∨
      ∃ o, s.objects.lookup key = some o ∧ ¬ o.expired now ∧ objectGet key now s = .ok (some o, s) := by
  unfold objectGet
  split
  · next h =>
    rw [GoMap.erase_of_notMem (Finmap.lookup_eq_none.1 h)]
    exact .inl rfl
  · next o h =>
    split
    · exact .inl rfl
    · next hexp => exact .inr ⟨o, h, hexp, rfl⟩

end Store

end AutoCache
