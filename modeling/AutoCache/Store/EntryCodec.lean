import Mathlib.Algebra.Order.BigOperators.Group.Finset
import AutoCache.Protocol.KeyMove

/-!
# Serialized values (`internal/engine/memory/entry_codec.go`)

A string is serialized as it is, a collection as JSON, and `encoding/json` puts U+FFFD in the place of
every byte that is not part of valid UTF-8. So a collection comes back as it was exactly if all its texts
are valid: a replacement makes a text longer, and no other can make up for it.
-/

namespace AutoCache

open Finmap Protocol

/-! ## Text in JSON -/

/-- The length of the character a text begins with, `0` if its first byte is invalid. -/
def runeLength (text : Bytes) : ℕ :=
  ((ByteArray.mk text.toArray).utf8DecodeChar? 0).elim 0 Char.utf8Size

/-- The text as JSON gives it back, when `n` bytes of a character are still to come. -/
def coerceText : ℕ → Bytes → Bytes
  | _, [] => []
  | n + 1, b :: text => b :: coerceText n text
  | 0, b :: text =>
    if runeLength (b :: text) = 0 then 0xEF :: 0xBF :: 0xBD :: coerceText 0 text
    else b :: coerceText (runeLength (b :: text) - 1) text

def ValidText : ℕ → Bytes → Prop
  | _, [] => True
  | n + 1, _ :: text => ValidText n text
  | 0, b :: text => runeLength (b :: text) ≠ 0 ∧ ValidText (runeLength (b :: text) - 1) text

lemma length_coerceText (n : ℕ) (text : Bytes) : coerceText n text = text ∨ text.length < (coerceText n text).length := by
  fun_induction coerceText n text <;> grind

lemma coerceText_eq_iff (n : ℕ) (text : Bytes) : coerceText n text = text ↔ ValidText n text := by
  fun_induction coerceText n text with
  | case1 n => simp [ValidText]
  | case2 n b text ih => simp [ValidText, ih]
  | case3 b text h ih =>
    refine ⟨fun heq => ?_, fun hvld => absurd h hvld.1⟩
    have hlonger := length_coerceText 0 text
    grind
  | case4 b text h ih => simp [ValidText, h, ih]

lemma image_coerceText_iff {texts : Finset Bytes} :
    texts.image (coerceText 0) = texts ↔ ∀ text ∈ texts, coerceText 0 text = text := by
  constructor
  · intro h
    -- the replacements are a permutation, so the texts are as long as before all together
    have hinj := Finset.injOn_of_card_image_eq (congrArg Finset.card h)
    have hsum : ∑ text ∈ texts, text.length = ∑ text ∈ texts, (coerceText 0 text).length := by
      conv_lhs => rw [← h]
      exact Finset.sum_image hinj
    have hle (text : Bytes) : text.length ≤ (coerceText 0 text).length := by
      grind [length_coerceText 0 text]
    have heq := (Finset.sum_eq_sum_iff_of_le fun text _ => hle text).1 hsum
    grind [length_coerceText]
  · intro h
    simpa using Finset.image_congr h

/-! ## The codec -/

def mapOf {β : Type} (pairs : List (Bytes × β)) : GoMap Bytes β :=
  pairs.foldl (fun m p => m.insert p.1 p.2) ∅

/-- `json.Marshal` and `json.Unmarshal` at a type. -/
structure Json (α : Type) (coerce : α → α) where
  marshal : α → Except String Bytes
  unmarshal : Bytes → Except String α
  unmarshal_marshal : ∀ {a b}, marshal a = .ok b → unmarshal b = .ok (coerce a)

/-- JSON of the types that are serialized, and the order of sorted sets. -/
structure EntryCodec where
  fields : Json (Option (List (Bytes × Bytes)))
    (Option.map (List.map (Prod.map (coerceText 0) (coerceText 0))))
  strings : Json (List Bytes) (List.map (coerceText 0))
  members : Json (List (Bytes × Score)) (List.map (Prod.map (coerceText 0) id))
  sorted : GoMap Bytes Score → List (Bytes × Score)
  mem_sorted : ∀ {m p}, p ∈ sorted m ↔ m.lookup p.1 = some p.2

/-- The pairs of a map by their keys, as JSON lists them. -/
def pairsOf {β : Type} [Inhabited β] (m : GoMap Bytes β) : List (Bytes × β) :=
  (m.keys.sort (· ≤ ·)).map fun key => (key, (m.lookup key).getD default)

namespace EntryCodec

variable (c : EntryCodec)

def serializeEntryValue : Value → Except String Bytes
  | .string text => .ok (byteOfType .string :: text)
  | .object (.hash fields) => (c.fields.marshal (fields.map pairsOf)).map (byteOfType .hash :: ·)
  | .object (.list items) => (c.strings.marshal items).map (byteOfType .list :: ·)
  | .object (.set members) =>
    (c.strings.marshal (members.sort (· ≤ ·))).map (byteOfType .set :: ·)
  | .object (.zset scores) => (c.members.marshal (c.sorted scores)).map (byteOfType .zset :: ·)

def decodeSerializedValue (payload : Bytes) : ValueType → Except String Value
  | .string => .ok (.string payload)
  | .hash => (c.fields.unmarshal payload).map fun fields => .object (.hash (fields.map mapOf))
  | .list => (c.strings.unmarshal payload).map fun items => .object (.list items)
  | .set => (c.strings.unmarshal payload).map fun members => .object (.set members.toFinset)
  | .zset => (c.members.unmarshal payload).map fun members => .object (.zset (mapOf members))

def Valid : Value → Prop
  | .string _ => True
  | .object (.hash fields) =>
    ∀ m ∈ fields, ∀ field value, m.lookup field = some value → ValidText 0 field ∧ ValidText 0 value
  | .object (.list items) => ∀ item ∈ items, ValidText 0 item
  | .object (.set members) => ∀ member ∈ members, ValidText 0 member
  | .object (.zset scores) => ∀ member ∈ scores, ValidText 0 member

end EntryCodec

lemma map_eq_self_iff {α : Type} {f : α → α} {l : List α} : l.map f = l ↔ ∀ a ∈ l, f a = a := by
  simpa using List.map_inj_left (f := f) (g := id) (l := l)

section Maps

variable {β : Type} {l : List (Bytes × β)} {m : GoMap Bytes β} {key : Bytes} {g : β → β}

lemma mem_pairsOf [Inhabited β] (p : Bytes × β) : p ∈ pairsOf m ↔ m.lookup p.1 = some p.2 := by
  obtain ⟨key, value⟩ := p
  simp only [pairsOf, List.mem_map, Finset.mem_sort, mem_keys, Prod.mk.injEq, ← lookup_isSome]
  cases h : m.lookup key <;> simp [h]

lemma mapOf_concat (p : Bytes × β) : mapOf (l ++ [p]) = (mapOf l).insert p.1 p.2 := by simp [mapOf]

lemma mem_mapOf : key ∈ mapOf l ↔ key ∈ l.map Prod.fst := by
  induction l using List.reverseRecOn with
  | nil => simp [mapOf, notMem_empty]
  | append_singleton l p ih => simp [mapOf_concat, ih, or_comm]

lemma lookup_mapOf {v : β} (h : ∀ p ∈ l, p.1 = key → p.2 = v) (hmem : key ∈ l.map Prod.fst) :
    (mapOf l).lookup key = some v := by
  induction l using List.reverseRecOn with
  | nil => simp at hmem
  | append_singleton l p ih =>
    rw [mapOf_concat]
    by_cases hp : p.1 = key
    · rw [← hp, lookup_insert, h p (by simp) hp]
    · rw [lookup_insert_of_ne _ (Ne.symm hp)]
      refine ih (fun q hq => h q (by simp [hq])) ?_
      simpa [hp, Ne.symm hp] using hmem

/-- A map comes back from its pairs exactly if JSON gives these back. -/
lemma mapOf_map_iff (hl : ∀ p, p ∈ l ↔ m.lookup p.1 = some p.2) :
    mapOf (l.map (Prod.map (coerceText 0) g)) = m ↔ ∀ p ∈ l, coerceText 0 p.1 = p.1 ∧ g p.2 = p.2 := by
  have hkeys (key : Bytes) : key ∈ m ↔ key ∈ l.map Prod.fst := by
    rw [← lookup_isSome, Option.isSome_iff_exists]
    simp [hl]
  constructor
  · intro h p hp
    have himage : m.keys.image (coerceText 0) = m.keys := by
      ext key
      rw [mem_keys, ← h, mem_mapOf]
      simp [h, mem_keys, hkeys]
    have hfixed (key : Bytes) (hkey : key ∈ l.map Prod.fst) : coerceText 0 key = key :=
      image_coerceText_iff.1 himage key (mem_keys.2 ((hkeys key).2 hkey))
    refine ⟨hfixed p.1 (List.mem_map_of_mem hp), ?_⟩
    have hlk : m.lookup p.1 = some (g p.2) := by
      rw [← h]
      refine lookup_mapOf (fun q hq heq => ?_) ?_
      · obtain ⟨r, hr, rfl⟩ := List.mem_map.1 hq
        have hkey : r.1 = p.1 := (hfixed r.1 (List.mem_map_of_mem hr)).symm.trans heq
        have hval := (hl r).1 hr
        rw [hkey, (hl p).1 hp] at hval
        exact congrArg g (Option.some.inj hval).symm
      · exact List.mem_map.2 ⟨_, List.mem_map_of_mem hp, hfixed p.1 (List.mem_map_of_mem hp)⟩
    exact Option.some.inj (hlk.symm.trans ((hl p).1 hp))
  · intro h
    rw [map_eq_self_iff.2 fun p hp => Prod.ext (h p hp).1 (h p hp).2]
    refine ext_lookup fun key => ?_
    cases hkey : m.lookup key with
    | some v =>
      refine lookup_mapOf (fun p hp heq => ?_) ?_
      · subst heq
        exact Option.some.inj (((hl p).1 hp).symm.trans hkey)
      · exact List.mem_map_of_mem (f := Prod.fst) ((hl (key, v)).2 hkey)
    | none => rw [lookup_eq_none, mem_mapOf, ← hkeys, ← lookup_eq_none, hkey]

end Maps

namespace EntryCodec

lemma marshalled {x : Except String Bytes} {type : ValueType} {b : UInt8} {payload : Bytes}
    (h : x.map (byteOfType type :: ·) = .ok (b :: payload)) :
    x = .ok payload ∧ typeOfByte b = some type := by
  cases x with
  | error e => cases h
  | ok bytes =>
    cases h
    exact ⟨rfl, typeOfByte_byteOfType type⟩

/-- JSON of one list only, whose text is not valid. -/
def oneList : EntryCodec where
  fields := ⟨fun _ => .error "", fun _ => .error "", nofun⟩
  strings := ⟨fun items => if items = [[255]] then .ok [] else .error "", fun _ => .ok [[0xEF, 0xBF, 0xBD]],
    fun {items b} h => by
      split at h
      · next heq => rw [heq]; rfl
      · cases h⟩
  members := ⟨fun _ => .error "", fun _ => .error "", nofun⟩
  sorted := pairsOf
  mem_sorted := mem_pairsOf _

end EntryCodec

end AutoCache
