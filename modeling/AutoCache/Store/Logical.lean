import AutoCache.Store.Collections

/-!
# The cache as a map

What the shards amount to as long as no two keys share a hash and no write has to evict: a map
from keys to what the index holds for them, a counter or an entry. The bytes of the ring are gone,
but not what they do to values: lengths are cut to 16 bits, so a long value is stored truncated
and a long key is stored under another name, where no read finds it.

A `Store` over this map is the state the protocol layer is about. `Store.live` is what it shows
of a key at a moment: the copy in the cache and the copy in the dictionary, each if it has not
expired. A key can be live in both; the copy in the cache hides the other until it is gone.
-/

namespace AutoCache

open AutoCache.Ring

/-! ## Slots -/

structure Entry where
  value : Bytes
  expireAt : Int64
  short : value.length < 65536

/-- `header.ExpireAt > 0 && now > header.ExpireAt`. -/
def Entry.expired (e : Entry) (now : Int) : Prop :=
  e.expireAt.toInt > 0 ∧ now > e.expireAt.toInt

instance (e : Entry) (now : Int) : Decidable (e.expired now) := by
  unfold Entry.expired
  infer_instance

/-- What the index holds for a key: a counter of 63 bits, or an entry. -/
inductive Slot where
  | counter (n : ℕ) (h : n < 2 ^ 63)
  | entry (e : Entry)

/-- The counter a 64-bit integer is stored as. -/
def counterSlot (n : Int) : Slot := .counter (n % 2 ^ 63).toNat (by omega)

/-- A value as its entry keeps it. -/
def storedValue (value : Bytes) : Bytes := value.take (value.length % 65536)

lemma storedValue_length (value : Bytes) : (storedValue value).length = value.length % 65536 := by
  rw [storedValue, List.length_take]
  exact Nat.min_eq_left (Nat.mod_le _ _)

lemma storedValue_of_short {value : Bytes} (h : value.length < 65536) : storedValue value = value := by
  rw [storedValue, Nat.mod_eq_of_lt h, List.take_length]

/-- The entry of a string write. -/
def writtenEntry (value : Bytes) (ttl now : Int) : Entry where
  value := storedValue value
  expireAt := deadline ttl now
  short := by rw [storedValue_length]; omega

/-- The key of an entry under it is stored in full, so that reads find it. -/
def Readable (key : Bytes) : Prop := key.length < 65536

instance (key : Bytes) : Decidable (Readable key) := inferInstanceAs (Decidable (_ < _))

def Slot.text : Slot → Bytes
  | .counter n _ => formatInt n
  | .entry e => e.value

def Slot.deadline : Slot → Int
  | .counter _ _ => 0
  | .entry e => e.expireAt.toInt

def Slot.isCounter : Slot → Bool
  | .counter _ _ => true
  | .entry _ => false

/-- Reads of `key` find the slot at the moment `t`. -/
def Slot.Live (key : Bytes) (t : Int) : Slot → Prop
  | .counter _ _ => True
  | .entry e => Readable key ∧ ¬ e.expired t

instance (key : Bytes) (t : Int) : DecidablePred (Slot.Live key t) := fun slot => by
  cases slot <;> unfold Slot.Live <;> infer_instance

/-! ## The map -/

abbrev Cache : Type := GoMap Bytes Slot

/-- A capacity `NewRingBuffer` can produce. -/
structure RingSize where
  bytes : Int
  min_le : minRingBufferSize ≤ bytes

namespace Cache

variable (size : RingSize) (c : Cache)

/-- The entry does not fit into the ring. -/
def TooLarge (key value : Bytes) : Prop := headerSize + key.length + value.length > size.bytes

instance (key value : Bytes) : Decidable (TooLarge size key value) :=
  inferInstanceAs (Decidable (_ > _))

def put (key value : Bytes) (ttl now : Int) : Cache × WriteOutcome :=
  if TooLarge size key value then (c, .failed .entryTooLarge)
  else (c.insert key (.entry (writtenEntry value ttl now)), .appended)

def get (key : Bytes) (now : Int) : Cache × Option Bytes :=
  match c.lookup key with
  | none => (c, none)
  | some (.counter n _) => (c, some (formatInt n))
  | some (.entry e) =>
    if ¬ Readable key then (c, none)
    else if e.expired now then (c.erase key, none)
    else (c, some e.value)

/-- A counter goes first, whether or not the entry then fits. -/
def set (key value : Bytes) (ttl now : Int) : Cache × WriteOutcome :=
  match c.lookup key with
  | none => put size c key value ttl now
  | some (.counter _ _) => put size (c.erase key) key value ttl now
  | some (.entry e) =>
    if key.length + value.length ≤ key.length % 65536 + e.value.length then
      (c.insert key (.entry (writtenEntry value ttl now)), .inPlace)
    else put size c key value ttl now

/-- A counter does not count as a value here. -/
def HoldsForNX (key : Bytes) (now : Int) : Prop :=
  ∃ e, c.lookup key = some (.entry e) ∧ Readable key ∧
    (e.expireAt = 0 ∨ now ≤ e.expireAt.toInt)

instance (key : Bytes) (now : Int) : Decidable (HoldsForNX c key now) :=
  match h : c.lookup key with
  | some (.entry e) =>
    decidable_of_iff (Readable key ∧ (e.expireAt = 0 ∨ now ≤ e.expireAt.toInt)) <| by
      simp [HoldsForNX, h]
  | some (.counter _ _) => .isFalse <| by simp [HoldsForNX, h]
  | none => .isFalse <| by simp [HoldsForNX, h]

def setNX (key value : Bytes) (ttl now : Int) : Cache × WriteOutcome :=
  if HoldsForNX c key now then (c, .refused) else put size c key value ttl now

/-- The test of `SetXX` and `Expire`: a live entry. -/
def HoldsForXX (key : Bytes) (now : Int) : Prop :=
  ∃ e, c.lookup key = some (.entry e) ∧ Readable key ∧ ¬ e.expired now

instance (key : Bytes) (now : Int) : Decidable (HoldsForXX c key now) :=
  match h : c.lookup key with
  | some (.entry e) =>
    decidable_of_iff (Readable key ∧ ¬ e.expired now) <| by simp [HoldsForXX, h]
  | some (.counter _ _) => .isFalse <| by simp [HoldsForXX, h]
  | none => .isFalse <| by simp [HoldsForXX, h]

def setXX (key value : Bytes) (ttl now : Int) : Cache × WriteOutcome :=
  if HoldsForXX c key now then put size c key value ttl now else (c, .refused)

def expire (key : Bytes) (ttl now : Int) : Cache × Bool :=
  match c.lookup key with
  | some (.entry e) =>
    if Readable key ∧ ¬ e.expired now then
      (c.insert key (.entry { e with expireAt := deadline ttl now }), true)
    else (c, false)
  | _ => (c, false)

def incrBy (key : Bytes) (delta now : Int) : Cache × Shard.IncrOutcome :=
  match c.lookup key with
  | none => (c.insert key (counterSlot delta), .created delta)
  | some (.counter n _) =>
    let n := wrap64 (n + delta)
    (c.insert key (counterSlot n), .updated n)
  | some (.entry e) =>
    if ¬ Readable key ∨ e.expired now then (c.insert key (counterSlot delta), .updated delta)
    else
      match parseInt e.value with
      | none => (c, .notInteger)
      | some current =>
        let n := wrap64 (current + delta)
        (c.insert key (counterSlot n), .updated n)

def delete (key : Bytes) : Cache × Bool := if key ∈ c then (c.erase key, true) else (c, false)

/-- `TTL` also sees entries whose key no read finds. -/
def ttl (key : Bytes) (now : Int) : Option Int :=
  match c.lookup key with
  | none => none
  | some (.counter _ _) => some (-1)
  | some (.entry e) =>
    if e.expireAt = 0 then some (-1)
    else
      let remaining := wrap64 (e.expireAt.toInt - now)
      if remaining < 0 then none else some remaining

end Cache

open Cache

/-- The map as the backend of a store; its calls always return. -/
def logicalBackend (size : RingSize) : Backend Cache where
  get c key now := pure (get c key now)
  set c key value ttl now := pure (set size c key value ttl now)
  setNX c key value ttl now := pure (setNX size c key value ttl now)
  setXX c key value ttl now := pure (setXX size c key value ttl now)
  expire c key ttl now := pure (expire c key ttl now)
  incrBy c key delta now := pure (incrBy c key delta now)
  delete c key := delete c key
  ttl c key now := pure (ttl c key now)
  clear _ := ∅

/-- What a store over the map depends on besides it. -/
structure LogicalConfig where
  size : RingSize
  slotFunc : Option (Bytes → UInt16)
  unmarshal : ValueType → Bytes → Except String TypedValue

def LogicalConfig.engine (L : LogicalConfig) : Engine Cache where
  toBackend := logicalBackend L.size
  slotFunc := L.slotFunc
  unmarshal := L.unmarshal

/-! ## What a store shows -/

/-- The live copies of a key. -/
@[ext] structure KeyState where
  str : Option Slot
  obj : Option Object

/-- The string copy: its text and its deadline, and the copy in the dictionary. Whether a string is
stored as a counter does not show. -/
def KeyState.content (k : KeyState) : Option (Bytes × Int) × Option Object :=
  (k.str.map fun slot => (slot.text, slot.deadline), k.obj)

inductive Value where
  | string (text : Bytes)
  | object (value : TypedValue)

/-- The copy in the cache hides the other. -/
def KeyState.value (k : KeyState) : Option Value :=
  match k.str with
  | some slot => some (.string slot.text)
  | none => k.obj.map fun o => .object o.value

abbrev World : Type := Bytes → KeyState

namespace Store

def live (s : Store Cache) (t : Int) : World := fun key =>
  { str := (s.shards.lookup key).filter (Slot.Live key t)
    obj := (s.objects.lookup key).filter (¬ Object.expired · t) }

/-- What a client sees of a key at the moment `t`. -/
def shows (s : Store Cache) (t : Int) (key : Bytes) : Option Value := (s.live t key).value

/-- **The logical state**: value, type and deadline of every key. -/
def SameState (t : Int) (s s' : Store Cache) : Prop :=
  ∀ key, (s.live t key).content = (s'.live t key).content

end Store

end AutoCache
