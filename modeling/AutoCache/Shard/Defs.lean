import AutoCache.Lib.Decimal
import AutoCache.Lib.GoMap
import AutoCache.Ring.Defs

/-!
# A shard of the cache (`internal/engine/memory/shard.go`)

A shard is an index from key hashes to 64-bit words and a ring buffer. A word with bit 63 set is
an integer counter stored in the index itself; any other word is the offset of an entry in the
ring. The hash function is a parameter and may collide.

Every operation reads the clock once; `now` and durations are in nanoseconds. The order in which
Go's `range` yields the index and the frequency estimates of the sketch are inputs of the
operations that use them.
-/

namespace AutoCache

open AutoCache.Ring

/-! ## Index words -/

def inlineFlag : UInt64 := 0x8000000000000000

def inlineMask : UInt64 := 0x7fffffffffffffff

def encodeInlineInt (v : Int) : UInt64 := inlineFlag ||| (UInt64.ofInt v &&& inlineMask)

/-- `int64(v & inlineMask)`; the mask keeps the result below `2^63`. -/
def decodeInlineInt (raw : UInt64) : Int := (raw &&& inlineMask).toNat

def isInlineInt (raw : UInt64) : Bool := raw &&& inlineFlag ≠ 0

/-- `int64(raw)`. -/
def offsetOf (raw : UInt64) : Int := raw.toInt64.toInt

/-- `uint64(offset)`. -/
def wordOf (offset : Int) : UInt64 := UInt64.ofInt offset

/-- The two's complement value of a 64-bit sum. -/
def wrap64 (x : Int) : Int := (x + 2 ^ 63) % 2 ^ 64 - 2 ^ 63

lemma wrap64_of_fits {x : Int} (hmin : -2 ^ 63 ≤ x) (hmax : x < 2 ^ 63) : wrap64 x = x := by
  unfold wrap64
  omega

/-! ## The cache -/

/-- What the operations of all shards share. -/
structure CacheConfig where
  hash : Bytes → UInt64
  sampleSize : ℕ
  skipLFU : Bool

structure Shard where
  index : GoMap UInt64 UInt64
  ring : RingBuffer

def newShard (ringSize : Int64) : Shard := ⟨∅, newRingBuffer ringSize.toInt⟩

/-- `recordAccess` calls itself unless `skipLFU` is set. -/
def recordAccess (cfg : CacheConfig) : Go Unit :=
  if cfg.skipLFU then return () else throw .stackOverflow

/-- The deadline of an entry that is written with a time to live. -/
def deadline (ttl now : Int) : Int64 := if ttl > 0 then Int64.ofInt (now + ttl) else 0

/-- The header of a string entry: the lengths are truncated to 16 bits. -/
def stringHeader (cfg : CacheConfig) (key value : Bytes) (ttl now : Int) : EntryHeader where
  expireAt := deadline ttl now
  hash64 := cfg.hash key
  keyLen := UInt16.ofNat key.length
  valLen := UInt16.ofNat value.length
  valCap := 0
  flags := entryTypeString

/-- `header.ExpireAt > 0 && now > header.ExpireAt`. -/
def EntryExpired (header : EntryHeader) (now : Int) : Prop :=
  header.expireAt.toInt > 0 ∧ now > header.expireAt.toInt

instance (header : EntryHeader) (now : Int) : Decidable (EntryExpired header now) := by
  unfold EntryExpired
  infer_instance

inductive WriteOutcome where
  | inPlace
  | appended
  | refused
  | failed (e : RingError)
  deriving DecidableEq

namespace Shard

variable (cfg : CacheConfig) (sh : Shard)

/-- Reported entries lose their index word, unless it has moved on. -/
def dropEvicted (index : GoMap UInt64 UInt64) (evicted : List EvictedEntry) : GoMap UInt64 UInt64 :=
  evicted.foldl (fun index ev =>
    if index.lookup ev.hash = some (wordOf ev.offset) then index.erase ev.hash else index) index

/-- The end of every write: the entry goes to the ring, what that evicted leaves the index, and
the index word becomes the new offset. -/
def append (header : EntryHeader) (hash : UInt64) (key value : Bytes) :
    Go (Shard × WriteOutcome) := do
  let (ring, result) ← sh.ring.writeWithEvict header key value
  match result with
  | .error e => return ({ sh with ring }, .failed e)
  | .ok (offset, evicted) =>
    let index := (dropEvicted sh.index evicted).insert hash (wordOf offset)
    return ({ sh with index, ring }, .appended)

/-- The end of `Set`, `SetNX` and `SetXX`. -/
def appendString (key value : Bytes) (ttl now : Int) : Go (Shard × WriteOutcome) := do
  let header := stringHeader cfg key value ttl now
  let (sh, outcome) ← sh.append header (cfg.hash key) key value
  if outcome = .appended then recordAccess cfg
  return (sh, outcome)

/-! ## Operations -/

/-- `Get`: an expired entry is dropped from the index. -/
def get (key : Bytes) (now : Int) : Go (Shard × Option Bytes) :=
  let hash := cfg.hash key
  match sh.index.lookup hash with
  | none => return (sh, none)
  | some raw =>
    if isInlineInt raw then do
      recordAccess cfg
      return (sh, some (formatInt (decodeInlineInt raw)))
    else do
      match ← sh.ring.readAt (offsetOf raw) with
      | .error _ => return (sh, none)
      | .ok (storedKey, value, header) =>
        if storedKey ≠ key then return (sh, none)
        else if EntryExpired header now then
          return ({ sh with index := sh.index.erase hash }, none)
        else do
          recordAccess cfg
          return (sh, some value)

/-- `GetCopy` differs from `Get` only in returning a copy of the bytes. -/
def getCopy (key : Bytes) (now : Int) : Go (Shard × Option Bytes) := sh.get cfg key now

/-- `Set`: a counter is deleted first; an entry under the same hash is overwritten in place when
the new one is no larger, whatever key it has. -/
def set (key value : Bytes) (ttl now : Int) : Go (Shard × WriteOutcome) :=
  let hash := cfg.hash key
  match sh.index.lookup hash with
  | none => sh.appendString cfg key value ttl now
  | some raw =>
    if isInlineInt raw then
      { sh with index := sh.index.erase hash }.appendString cfg key value ttl now
    else do
      let header := stringHeader cfg key value ttl now
      let (ring, done) ← sh.ring.updateInPlace (offsetOf raw) header key value
      let sh := { sh with ring }
      if done then do
        recordAccess cfg
        return (sh, .inPlace)
      else sh.appendString cfg key value ttl now

/-- The test of `SetNX`: the word is read as an offset, also when it is a counter. -/
def holdsForNX (key : Bytes) (now : Int) : Go Bool :=
  match sh.index.lookup (cfg.hash key) with
  | none => return false
  | some raw => do
    match ← sh.ring.readAt (offsetOf raw) with
    | .error _ => return false
    | .ok (storedKey, _, header) =>
      return storedKey = key ∧ (header.expireAt = 0 ∨ now ≤ header.expireAt.toInt)

def setNX (key value : Bytes) (ttl now : Int) : Go (Shard × WriteOutcome) := do
  if ← sh.holdsForNX cfg key now then return (sh, .refused)
  else sh.appendString cfg key value ttl now

/-- The test of `SetXX`. -/
def holdsForXX (key : Bytes) (now : Int) : Go Bool :=
  match sh.index.lookup (cfg.hash key) with
  | none => return false
  | some raw => do
    match ← sh.ring.readAt (offsetOf raw) with
    | .error _ => return false
    | .ok (storedKey, _, header) => return storedKey = key ∧ ¬ EntryExpired header now

/-- `SetXX` never updates in place. -/
def setXX (key value : Bytes) (ttl now : Int) : Go (Shard × WriteOutcome) := do
  if ← sh.holdsForXX cfg key now then sh.appendString cfg key value ttl now
  else return (sh, .refused)

/-- `Expire` writes the entry again with another deadline; the bytes of the value are those read
at its offset. -/
def expire (key : Bytes) (ttl now : Int) : Go (Shard × Bool) :=
  let hash := cfg.hash key
  match sh.index.lookup hash with
  | none => return (sh, false)
  | some raw => do
    match ← sh.ring.readAt (offsetOf raw) with
    | .error _ => return (sh, false)
    | .ok (storedKey, value, header) =>
      if storedKey ≠ key then return (sh, false)
      else if EntryExpired header now then return (sh, false)
      else do
        let header := { header with
          expireAt := deadline ttl now
          keyLen := UInt16.ofNat key.length
          valLen := UInt16.ofNat value.length }
        let (sh, outcome) ← sh.append header hash key value
        return (sh, outcome = .appended)

/-- What `IncrBy` did: it set the counter (of a key that was new to the index or not), or the
value is no integer. -/
inductive IncrOutcome where
  | created (n : Int)
  | updated (n : Int)
  | notInteger
  deriving DecidableEq

def incrBy (key : Bytes) (delta now : Int) : Go (Shard × IncrOutcome) :=
  let hash := cfg.hash key
  match sh.index.lookup hash with
  | none => do
    recordAccess cfg
    return ({ sh with index := sh.index.insert hash (encodeInlineInt delta) }, .created delta)
  | some raw =>
    let put (n : Int) : Go (Shard × IncrOutcome) := do
      recordAccess cfg
      return ({ sh with index := sh.index.insert hash (encodeInlineInt n) }, .updated n)
    if isInlineInt raw then put (wrap64 (decodeInlineInt raw + delta))
    else do
      match ← sh.ring.readAt (offsetOf raw) with
      | .error _ => put delta
      | .ok (storedKey, value, header) =>
        if storedKey ≠ key then put delta
        else if EntryExpired header now then put delta
        else
          match parseInt value with
          | none => return (sh, .notInteger)
          | some currentVal => put (wrap64 (currentVal + delta))

/-- `Delete` looks at the hash only. -/
def delete (key : Bytes) : Shard × Bool :=
  let hash := cfg.hash key
  if hash ∈ sh.index then ({ sh with index := sh.index.erase hash }, true) else (sh, false)

/-- `TTL` does not compare the stored key; `none` is the second result `false`. -/
def ttl (key : Bytes) (now : Int) : Go (Option Int) :=
  match sh.index.lookup (cfg.hash key) with
  | none => return none
  | some raw =>
    if isInlineInt raw then return some (-1)
    else do
      match ← sh.ring.readAt (offsetOf raw) with
      | .error _ => return none
      | .ok (_, _, header) =>
        if header.expireAt = 0 then return some (-1)
        else
          let remaining := wrap64 (header.expireAt.toInt - now)
          if remaining < 0 then return none else return some remaining

def clear : Shard := ⟨∅, sh.ring.reset⟩

/-! ## Sampled eviction -/

/-- The locals of `sampledEvictLocked`. -/
structure Sample where
  index : GoMap UInt64 UInt64
  victim : Option (UInt64 × Int)
  count : ℕ

/-- The loop over the index, in the order `order`. -/
def sample (volatileOnly : Bool) (freq : UInt64 → Int) (now : Int) :
    List UInt64 → Sample → Go Sample
  | [], st => return st
  | h :: order, st =>
    match st.index.lookup h with
    | none => sample volatileOnly freq now order st
    | some raw => do
      match ← sh.ring.readAt (offsetOf raw) with
      | .error _ => sample volatileOnly freq now order st
      | .ok (storedKey, _, header) =>
        if storedKey = [] then sample volatileOnly freq now order st
        else if EntryExpired header now then
          sample volatileOnly freq now order { st with index := st.index.erase h }
        else if volatileOnly ∧ header.expireAt = 0 then
          sample volatileOnly freq now order st
        else
          let victim := match st.victim with
            | none => some (h, freq h)
            | some (v, f) => if freq h < f then some (h, freq h) else some (v, f)
          let st := { st with victim, count := st.count + 1 }
          if st.count ≥ cfg.sampleSize then return st
          else sample volatileOnly freq now order st

def sampledEvict (volatileOnly : Bool) (order : List UInt64) (freq : UInt64 → Int) (now : Int) :
    Go (Shard × Bool) := do
  let st ← sh.sample cfg volatileOnly freq now order ⟨sh.index, none, 0⟩
  match st.victim with
  | none => return ({ sh with index := st.index }, false)
  | some (v, _) => return ({ sh with index := st.index.erase v }, true)

end Shard

end AutoCache
