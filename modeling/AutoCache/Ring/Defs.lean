import AutoCache.Lib.ByteMem

/-!
# The ring buffer of the memory engine (`internal/engine/memory/ringbuf.go`)

Serialized entries lie one after the other in a byte buffer: a header of 24 bytes, the key, the
value. A write that finds too little room evicts entries from `head` on, one header after the
other; a write that does not fit before the end of the buffer starts again at `0`.

Slice expressions are modelled with their bounds check: an expression `data[lo:]` outside the
buffer is a run-time panic, and so is a `PutUint64` or `Uint64` on a slice that is too short.
The two eviction loops are written with fuel; running out of it is the fault `diverges`.
-/

namespace AutoCache

/-! ## Faults -/

/-- What ends a Go program that does not return. -/
inductive Fault where
  | sliceBounds
  | indexRange
  | stackOverflow
  | diverges
  | nilMap
  deriving DecidableEq, Repr

/-- A computation that returns or faults. Errors the source returns are part of the value. -/
abbrev Go : Type → Type := Except Fault

namespace Go

@[simp] lemma ok_bind {α β : Type} (a : α) (f : α → Go β) : (Except.ok a >>= f) = f a := rfl

@[simp] lemma error_bind {α β : Type} (e : Fault) (f : α → Go β) : ((Except.error e : Go α) >>= f) = Except.error e := rfl

@[simp] lemma pure_eq_ok {α : Type} (a : α) : (pure a : Go α) = Except.ok a := rfl

@[simp] lemma throw_eq_error {α : Type} (e : Fault) : (throw e : Go α) = Except.error e := rfl

lemma bind_eq_ok {ε α β : Type} {x : Except ε α} {f : α → Except ε β} {b : β} :
    (x >>= f) = .ok b ↔ ∃ a, x = .ok a ∧ f a = .ok b := by
  cases x with
  | error e => exact ⟨nofun, nofun⟩
  | ok a => exact ⟨fun h => ⟨a, rfl, h⟩, fun ⟨_, rfl, h⟩ => h⟩

end Go

namespace Ring

/-! ## Entry headers -/

def headerSize : Int := 24

/-- `minRingBufferSize = 1 << 20`. -/
def minRingBufferSize : Int := 1048576

inductive RingError where
  | bufferFull
  | invalidOffset
  | entryTooLarge
  deriving DecidableEq, Repr

structure EvictedEntry where
  hash : UInt64
  offset : Int
  deriving DecidableEq, Repr

/-- The header of an entry; `expireAt` is in Unix nanoseconds, `0` is no expiry. -/
structure EntryHeader where
  expireAt : Int64
  hash64 : UInt64
  keyLen : UInt16
  valLen : UInt16
  valCap : UInt16
  flags : UInt16
  deriving DecidableEq

def entryTypeString : UInt16 := 0

/-- The 24 bytes `MarshalTo` writes. -/
def EntryHeader.marshal (h : EntryHeader) : Bytes :=
  leBytes 8 h.expireAt.toUInt64.toNat ++ leBytes 8 h.hash64.toNat ++ leBytes 2 h.keyLen.toNat ++
    leBytes 2 h.valLen.toNat ++ leBytes 2 h.valCap.toNat ++ leBytes 2 h.flags.toNat

/-- The header `UnmarshalFrom` reads from the first 24 bytes of a slice. -/
def EntryHeader.unmarshal (buf : Bytes) : EntryHeader where
  expireAt := (UInt64.ofNat (leNat (buf.take 8))).toInt64
  hash64 := UInt64.ofNat (leNat ((buf.drop 8).take 8))
  keyLen := UInt16.ofNat (leNat ((buf.drop 16).take 2))
  valLen := UInt16.ofNat (leNat ((buf.drop 18).take 2))
  valCap := UInt16.ofNat (leNat ((buf.drop 20).take 2))
  flags := UInt16.ofNat (leNat ((buf.drop 22).take 2))

def headerEntrySize (h : EntryHeader) : Int := headerSize + h.keyLen.toNat + h.valLen.toNat

/-! ## The buffer -/

structure RingBuffer where
  data : Mem
  capacity : Int
  tail : Int
  head : Int
  used : Int
  writeCount : Int
  evictCount : Int

def newRingBuffer (capacity : Int) : RingBuffer where
  data := Mem.zero
  capacity := if capacity < minRingBufferSize then minRingBufferSize else capacity
  tail := 0
  head := 0
  used := 0
  writeCount := 0
  evictCount := 0

namespace RingBuffer

variable (rb : RingBuffer)

/-- `Reset`: the bytes stay. -/
def reset : RingBuffer :=
  { rb with tail := 0, head := 0, used := 0, writeCount := 0, evictCount := 0 }

/-- The bounds check of `data[lo:hi]`. -/
def slice (lo hi : Int) : Go Unit :=
  if 0 ≤ lo ∧ lo ≤ hi ∧ hi ≤ rb.capacity then pure () else throw .sliceBounds

/-- `header.UnmarshalFrom(rb.data[offset:])`. -/
def unmarshalFrom (offset : Int) : Go EntryHeader := do
  rb.slice offset rb.capacity
  rb.slice offset (offset + headerSize)
  return .unmarshal (rb.data.load offset headerSize.toNat)

/-- `header.MarshalTo(rb.data[offset:])`. -/
def marshalTo (offset : Int) (h : EntryHeader) : Go RingBuffer := do
  rb.slice offset rb.capacity
  rb.slice offset (offset + headerSize)
  return { rb with data := rb.data.store offset h.marshal }

/-- `copy(rb.data[offset:], src)`: no more than the room up to the end of the buffer. -/
def copyTo (offset : Int) (src : Bytes) : Go RingBuffer := do
  rb.slice offset rb.capacity
  return { rb with data := rb.data.store offset (src.take (rb.capacity - offset).toNat) }

def readHeaderAt (offset : Int) : Go (Except RingError EntryHeader) :=
  if offset < 0 ∨ offset + headerSize > rb.capacity then
    return .error .invalidOffset
  else do
    let h ← rb.unmarshalFrom offset
    return .ok h

def readAt (offset : Int) : Go (Except RingError (Bytes × Bytes × EntryHeader)) :=
  if offset < 0 ∨ offset + headerSize > rb.capacity then
    return .error .invalidOffset
  else do
    let header ← rb.unmarshalFrom offset
    let keyStart := offset + headerSize
    let keyEnd := keyStart + header.keyLen.toNat
    let valEnd := keyEnd + header.valLen.toNat
    if valEnd > rb.capacity then
      return .error .invalidOffset
    else do
      rb.slice keyStart keyEnd
      rb.slice keyEnd valEnd
      return .ok (rb.data.load keyStart header.keyLen.toNat,
        rb.data.load keyEnd header.valLen.toNat, header)

/-- The header, the key and the value, one after the other from `offset` on. -/
def writeEntry (offset : Int) (header : EntryHeader) (key value : Bytes) : Go RingBuffer := do
  let rb ← rb.marshalTo offset header
  let keyStart := offset + headerSize
  let rb ← rb.copyTo keyStart key
  let valStart := keyStart + key.length
  rb.copyTo valStart value

def updateInPlace (offset : Int) (header : EntryHeader) (key value : Bytes) :
    Go (RingBuffer × Bool) :=
  let newSize := headerSize + key.length + value.length
  if offset < 0 ∨ offset + headerSize > rb.capacity then
    return (rb, false)
  else do
    let oldHeader ← rb.unmarshalFrom offset
    let oldSize := headerEntrySize oldHeader
    if newSize > oldSize then
      return (rb, false)
    else do
      let rb ← rb.writeEntry offset header key value
      return ({ rb with writeCount := rb.writeCount + 1 }, true)

/-! ## Eviction -/

end RingBuffer

/-- The locals of `WriteWithEvict` that its two loops change. -/
structure Cursor where
  head : Int
  tail : Int
  used : Int
  evicted : List EvictedEntry
  evictCount : Int

/-- The branch that gives up on the buffer's contents. -/
def Cursor.reset (c : Cursor) : Cursor :=
  { c with head := 0, tail := 0, used := 0, evicted := [] }

namespace RingBuffer

variable (rb : RingBuffer)

/-- One pass through a loop's body: the cursor after the eviction of the entry at `head`, or
`none` when the header there is not one an entry can have and the loop breaks. -/
def evictOne (c : Cursor) : Go (Option Cursor) := do
  match ← rb.readHeaderAt c.head with
  | .error _ => return none
  | .ok h =>
    let itemSize := headerEntrySize h
    if itemSize ≤ 0 ∨ itemSize > rb.capacity then
      return none
    else
      let head := c.head + itemSize
      return some { c with
        evicted := c.evicted ++ [⟨h.hash64, c.head⟩]
        head := if head ≥ rb.capacity then 0 else head
        used := c.used - itemSize
        evictCount := c.evictCount + 1 }

/-- A loop `for cond { … }` with the body `evictOne`. -/
def evictLoop (cond : Cursor → Bool) : ℕ → Cursor → Go Cursor
  | 0, c => if cond c then throw .diverges else return c
  | fuel + 1, c =>
    if cond c then do
      match ← rb.evictOne c with
      | none => return c.reset
      | some c' => evictLoop cond fuel c'
    else return c

/-- The first loop: evict until the entry fits into what is free. -/
def makeRoom (entrySize : Int) (c : Cursor) : Go Cursor :=
  rb.evictLoop (fun c => entrySize > rb.capacity - c.used) c.used.toNat c

/-- The second part: an entry that does not fit before the end starts again at `0`, and what
lies there is evicted. -/
def wrapTail (entrySize : Int) (c : Cursor) : Go Cursor :=
  if c.tail + entrySize > rb.capacity then
    let c := { c with tail := 0 }
    rb.evictLoop (fun c => c.used > 0 ∧ entrySize > c.head) c.used.toNat c
  else return c

def writeWithEvict (header : EntryHeader) (key value : Bytes) :
    Go (RingBuffer × Except RingError (Int × List EvictedEntry)) :=
  let entrySize := headerSize + key.length + value.length
  if entrySize > rb.capacity then
    return (rb, .error .entryTooLarge)
  else do
    let c ← rb.makeRoom entrySize ⟨rb.head, rb.tail, rb.used, [], rb.evictCount⟩
    let c ← rb.wrapTail entrySize c
    let offset := c.tail
    let rb ← rb.writeEntry offset header key value
    return ({ rb with
      head := c.head
      tail := offset + entrySize
      used := c.used + entrySize
      writeCount := rb.writeCount + 1
      evictCount := c.evictCount }, .ok (offset, c.evicted))

end RingBuffer

end Ring

end AutoCache
