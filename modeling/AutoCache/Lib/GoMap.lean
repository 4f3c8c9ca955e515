import Mathlib.Data.Finmap

/-!
# Finite maps

Go's `map[K]V` as a finite map. A lookup of an absent key is `none`; the two lemmas say what is
found after `m[k] = v` and after `delete(m, k)`.
-/

namespace AutoCache

open Finmap

/-- A `map[K]V`. -/
abbrev GoMap (K V : Type) : Type := Finmap fun _ : K => V

namespace GoMap

variable {K V : Type} [DecidableEq K] (m : GoMap K V)

@[simp] lemma lookup_insert_eq (a a' : K) (v : V) :
    Finmap.lookup a' (m.insert a v) = if a' = a then some v else m.lookup a' := by
  split
  · rename_i h
    rw [h, lookup_insert]
  · rename_i h
    rw [lookup_insert_of_ne m h]

@[simp] lemma lookup_erase_eq (a a' : K) : Finmap.lookup a' (m.erase a) = if a' = a then none else m.lookup a' := by
  split
  · rename_i h
    rw [h, lookup_erase]
  · rename_i h
    rw [lookup_erase_ne h]

variable {m} in
lemma lookup_of_erase {a a' : K} {v : V} (h : (m.erase a).lookup a' = some v) : m.lookup a' = some v := by
  rw [lookup_erase_eq] at h
  split at h
  · cases h
  · exact h

lemma keys_insert (k : K) (v : V) : (m.insert k v).keys = insert k m.keys := by
  ext a
  simp [mem_keys, mem_insert]

lemma card_keys_insert (k : K) (v : V) : ((m.insert k v).keys.card : Int) = m.keys.card + if k ∈ m then 0 else 1 := by
  rw [keys_insert]
  split
  · next h => rw [Finset.insert_eq_of_mem (mem_keys.2 h), add_zero]
  · next h => rw [Finset.card_insert_of_notMem (mt mem_keys.1 h), Int.natCast_succ]

lemma keys_eq_empty {m : GoMap K V} : m.keys = ∅ ↔ m = ∅ := by
  refine ⟨fun h => ext_lookup fun k => ?_, fun h => by rw [h]; rfl⟩
  have hk : k ∉ m := fun hk => by simpa [h] using mem_keys.2 hk
  rw [lookup_eq_none.2 hk, lookup_empty]

lemma erase_of_notMem {m : GoMap K V} {k : K} (h : k ∉ m) : m.erase k = m :=
  ext_lookup fun a => by
    by_cases ha : a = k
    · rw [ha, lookup_erase, lookup_eq_none.2 h]
    · simp [ha]

end GoMap

end AutoCache
