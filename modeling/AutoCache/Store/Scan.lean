import Mathlib.Data.Nat.Bitwise
import AutoCache.Lib.Pages
import AutoCache.Store.World

/-!
# `Scan` (`internal/engine/memory/{store,shard}.go`)

A scan first goes through the shards of the cache and then through those of the dictionary. In both
it reads the names of a shard in order, and both count pages alike: `page` is the loop of
`ShardedCache.Scan` and of `scanDictKeys`. The cursor is a word of 64 bits: the number of a shard in
its upper half, a position among the sorted names of the shard in its lower half, and in the top bit
which of the two the scan has reached.

The cache lists entries under the name the ring keeps, which for a long key is not its own, and it
does not list counters: their index value is no offset.
-/

namespace AutoCache

open Pages

/-- The shards of a cache or of a dictionary. A shard of a cache has a ring of a megabyte or more,
so that memory does not hold `2 ^ 31` of them; a dictionary has as many. -/
structure Sharding where
  count : ℕ
  count_pos : 0 < count
  count_le : count ≤ 2 ^ 31
  hash : Bytes → UInt64

/-- `getShard`. -/
def Sharding.shardOf (S : Sharding) (key : Bytes) : ℕ := (S.hash key).toNat % S.count

lemma Sharding.shardOf_lt (S : Sharding) (key : Bytes) : S.shardOf key < S.count :=
  Nat.mod_lt _ S.count_pos

/-- What a scan depends on besides the store. -/
structure ScanConfig where
  cacheShards : Sharding
  dictShards : Sharding
  /-- `path.Match`; a malformed pattern matches nothing. -/
  pathMatch : Bytes → Bytes → Bool

/-! ## Patterns -/

def star : Bytes := [42]

namespace ScanConfig

variable (L : ScanConfig)

def matchPattern (pattern key : Bytes) : Bool :=
  if pattern = star then true else L.pathMatch pattern key

/-- The test of the loops. -/
def wanted (pattern key : Bytes) : Bool := pattern = [] || L.matchPattern pattern key

end ScanConfig

/-- The keys a pattern stands for. -/
def ScanConfig.selects (L : ScanConfig) (pattern key : Bytes) : Bool :=
  pattern = [] || pattern = star || L.pathMatch pattern key

lemma ScanConfig.wanted_eq (L : ScanConfig) (pattern : Bytes) :
    L.wanted (if pattern = star then [] else pattern) = L.selects pattern := by
  funext key
  by_cases hstar : pattern = star
  · simp [wanted, selects, hstar]
  · simp [wanted, selects, matchPattern, hstar]

lemma ScanConfig.wanted_star (L : ScanConfig) : L.wanted star = L.wanted [] := by
  funext key
  simp [wanted, matchPattern]

/-! ## Cursors -/

/-- `(uint64(shardIdx) << 32) | uint64(posInShard)`. -/
def Pages.Place.cursor (c : Place) : UInt64 :=
  (UInt64.ofNat c.list <<< 32) ||| UInt64.ofNat c.pos

/-- The cursor of a next page, `0` if there is none. -/
def nextCursor : Option Place → UInt64
  | none => 0
  | some c => c.cursor

/-- The place a cursor stands for. -/
def placeAt (cursor : UInt64) : Place where
  list := (cursor >>> 32).toNat
  pos := (cursor &&& 0xFFFFFFFF).toNat

def scanPhaseFlag : UInt64 := (1 : UInt64) <<< 63

/-! ## Scans -/

/-- `if count <= 0 { count = 10 }`. -/
def pageSize (count : Int) : ℕ := if count ≤ 0 then 10 else count.toNat

/-- The loop over the shards. -/
def scanShards (wanted : Bytes → Bool) (shards : List (List Bytes)) (cursor : UInt64) (count : Int) :
    List Bytes × UInt64 :=
  let (result, next) := page wanted (pageSize count) shards (placeAt cursor)
  (result, nextCursor next)

namespace Cache

/-- The entry of `key` is listed, under whatever name. -/
def Lists (c : Cache) (now : Int) (key : Bytes) : Prop :=
  ∃ e, c.lookup key = some (.entry e) ∧ ¬ e.expired now

instance (c : Cache) (now : Int) (key : Bytes) : Decidable (c.Lists now key) :=
  match h : c.lookup key with
  | some (.entry e) => decidable_of_iff (¬ e.expired now) <| by simp [Lists, h]
  | some (.counter _ _) => .isFalse <| by simp [Lists, h]
  | none => .isFalse <| by simp [Lists, h]

/-- The sorted names of a shard. -/
def shardKeys (c : Cache) (S : Sharding) (now : Int) (i : ℕ) : List Bytes :=
  ((c.keys.filter fun key => S.shardOf key = i ∧ c.Lists now key).1.map storedValue).sort (· ≤ ·)

def names (c : Cache) (S : Sharding) (now : Int) : List (List Bytes) :=
  (List.range S.count).map (c.shardKeys S now)

def scan (L : ScanConfig) (c : Cache) (now : Int) (cursor : UInt64) (pattern : Bytes) (count : Int) :
    List Bytes × UInt64 :=
  let pattern := if pattern = star then [] else pattern
  scanShards (L.wanted pattern) (c.names L.cacheShards now) cursor count

end Cache

namespace Store

/-- The dictionary holds an object under `key` that has not expired. -/
def ListsObject (s : Store Cache) (now : Int) (key : Bytes) : Prop :=
  ∃ o, s.objects.lookup key = some o ∧ ¬ o.expired now

instance (s : Store Cache) (now : Int) (key : Bytes) : Decidable (s.ListsObject now key) :=
  match h : s.objects.lookup key with
  | some o => decidable_of_iff (¬ o.expired now) <| by simp [ListsObject, h]
  | none => .isFalse <| by simp [ListsObject, h]

/-- The sorted keys of a shard of the dictionary. -/
def shardObjectKeys (s : Store Cache) (S : Sharding) (now : Int) (i : ℕ) : List Bytes :=
  (s.objects.keys.filter fun key => S.shardOf key = i ∧ s.ListsObject now key).sort (· ≤ ·)

def objectNames (s : Store Cache) (S : Sharding) (now : Int) : List (List Bytes) :=
  (List.range S.count).map (s.shardObjectKeys S now)

def scanDictKeys (L : ScanConfig) (s : Store Cache) (now : Int) (pattern : Bytes) (count : Int)
    (cursor : UInt64) : List Bytes × UInt64 :=
  scanShards (L.wanted pattern) (s.objectNames L.dictShards now) cursor count

def scan (L : ScanConfig) (s : Store Cache) (now : Int) (cursor : UInt64) (pattern : Bytes)
    (count : Int) : List Bytes × UInt64 :=
  let count := if count ≤ 0 then 10 else count
  let pattern := if pattern = star then [] else pattern
  let innerCursor := cursor &&& ~~~scanPhaseFlag
  if cursor &&& scanPhaseFlag = 0 then
    let (keys, nextInner) := s.shards.scan L now innerCursor pattern count
    if keys.length ≥ count then
      if nextInner = 0 then (keys, 0) else (keys, nextInner)
    else if nextInner ≠ 0 then (keys, nextInner)
    else
      let (dictKeys, nextDict) := s.scanDictKeys L now pattern (count - keys.length) 0
      (keys ++ dictKeys, if nextDict ≠ 0 then nextDict ||| scanPhaseFlag else 0)
  else
    let pattern := if pattern.length = 0 then star else pattern
    let (dictKeys, nextInner) := s.scanDictKeys L now pattern count innerCursor
    (dictKeys, if nextInner ≠ 0 then nextInner ||| scanPhaseFlag else 0)

end Store

/-! ## Cursors and places -/

namespace Pages.Place

variable {c : Place}

def Fits (c : Place) : Prop := c.list < 2 ^ 31 ∧ c.pos < 2 ^ 32

lemma Fits.toNat_cursor (h : c.Fits) : c.cursor.toNat = c.list * 2 ^ 32 + c.pos := by
  obtain ⟨hlist, hpos⟩ := h
  have hor := Nat.shiftLeft_add_eq_or_of_lt hpos c.list
  rw [Nat.shiftLeft_eq] at hor
  have hshift : (UInt64.ofNat c.list <<< 32).toNat = c.list * 2 ^ 32 := by
    rw [UInt64.toNat_shiftLeft, UInt64.toNat_ofNat', Nat.shiftLeft_eq]
    have hmod : c.list % 2 ^ 64 = c.list := Nat.mod_eq_of_lt (by omega)
    rw [hmod]
    exact Nat.mod_eq_of_lt (show c.list * 2 ^ 32 < 2 ^ 64 by omega)
  have hlow : (UInt64.ofNat c.pos).toNat = c.pos := by
    rw [UInt64.toNat_ofNat']
    omega
  rw [cursor, UInt64.toNat_or, hshift, hlow]
  exact hor.symm

lemma Fits.placeAt_cursor (h : c.Fits) : placeAt c.cursor = c := by
  have hcursor := h.toNat_cursor
  obtain ⟨-, hpos⟩ := h
  have hlist : (placeAt c.cursor).list = c.list := by
    change (c.cursor >>> 32).toNat = c.list
    rw [UInt64.toNat_shiftRight, hcursor]
    change (c.list * 2 ^ 32 + c.pos) >>> 32 = c.list
    rw [Nat.shiftRight_eq_div_pow]
    omega
  have hpos' : (placeAt c.cursor).pos = c.pos := by
    change (c.cursor &&& 0xFFFFFFFF).toNat = c.pos
    rw [UInt64.toNat_and, hcursor]
    change (c.list * 2 ^ 32 + c.pos) &&& (2 ^ 32 - 1) = c.pos
    rw [Nat.and_two_pow_sub_one_eq_mod]
    omega
  exact Place.ext hlist hpos'

lemma Fits.cursor_lt (h : c.Fits) : c.cursor.toNat < 2 ^ 63 := by
  have := h.toNat_cursor
  obtain ⟨hlist, hpos⟩ := h
  omega

lemma Fits.cursor_ne_zero (h : c.Fits) (hc : c.list = 0 → c.pos ≠ 0) : c.cursor ≠ 0 := by
  intro h0
  have := h.toNat_cursor
  rw [h0, UInt64.toNat_zero] at this
  omega

end Pages.Place

/-- The places of shards that list fewer than `2 ^ 32` names have cursors. -/
lemma Pages.Place.Inside.fits {c : Place} {S : Sharding} {f : ℕ → List Bytes} (h : c.Inside ((List.range S.count).map f))
    (hshort : ∀ l ∈ (List.range S.count).map f, l.length < 2 ^ 32) : c.Fits := by
  have hlist := h.list_lt
  rw [List.length_map, List.length_range] at hlist
  exact ⟨hlist.trans_le S.count_le, h.pos_lt hshort⟩

lemma scanShards_cursor {c : Place} (h : c.Fits) (wanted : Bytes → Bool) (shards : List (List Bytes)) (count : Int) :
    scanShards wanted shards c.cursor count = ((page wanted (pageSize count) shards c).1,
        nextCursor (page wanted (pageSize count) shards c).2) := by
  rw [scanShards, h.placeAt_cursor]

lemma pageSize_of_pos {count : Int} (h : 0 < count) : pageSize count = count.toNat := by
  rw [pageSize, if_neg (not_le.2 h)]

/-! ## The phase of a cursor -/

section Phase

variable {cursor : UInt64}

lemma and_scanPhaseFlag (h : cursor.toNat < 2 ^ 63) : cursor &&& scanPhaseFlag = 0 := by
  refine UInt64.toNat_inj.1 ?_
  rw [UInt64.toNat_and]
  change cursor.toNat &&& 2 ^ 63 = 0
  rw [Nat.and_two_pow, Nat.testBit_lt_two_pow h]
  rfl

lemma and_not_scanPhaseFlag (h : cursor.toNat < 2 ^ 63) : cursor &&& ~~~scanPhaseFlag = cursor := by
  refine UInt64.toNat_inj.1 ?_
  rw [UInt64.toNat_and]
  change cursor.toNat &&& (2 ^ 63 - 1) = cursor.toNat
  rw [Nat.and_two_pow_sub_one_eq_mod, Nat.mod_eq_of_lt h]

lemma flagged_and_scanPhaseFlag : (cursor ||| scanPhaseFlag) &&& scanPhaseFlag ≠ 0 := by
  intro h0
  have hnat := congrArg UInt64.toNat h0
  rw [UInt64.toNat_and, UInt64.toNat_or] at hnat
  change (cursor.toNat ||| 2 ^ 63) &&& 2 ^ 63 = 0 at hnat
  rw [Nat.and_two_pow, Nat.testBit_or, Nat.testBit_two_pow_self, Bool.or_true] at hnat
  cases hnat

lemma flagged_and_not_scanPhaseFlag (h : cursor.toNat < 2 ^ 63) :
    (cursor ||| scanPhaseFlag) &&& ~~~scanPhaseFlag = cursor := by
  refine UInt64.toNat_inj.1 ?_
  rw [UInt64.toNat_and, UInt64.toNat_or]
  change (cursor.toNat ||| 2 ^ 63) &&& (2 ^ 63 - 1) = cursor.toNat
  have hor := Nat.two_pow_add_eq_or_of_lt h 1
  rw [Nat.mul_one] at hor
  rw [Nat.or_comm, ← hor, Nat.and_two_pow_sub_one_eq_mod, Nat.add_mod_left, Nat.mod_eq_of_lt h]

lemma flagged_ne_zero : cursor ||| scanPhaseFlag ≠ 0 := by
  intro h0
  have hnat := congrArg UInt64.toNat h0
  rw [UInt64.toNat_or] at hnat
  exact absurd (Nat.or_eq_zero_iff.1 hnat).2 (by decide)

end Phase

end AutoCache
