import AutoCache.Store.Collections

/-!
# What the loops count

The calls that add to a collection return how many of the members were new, those that take out how
many were there. A count tells by how much the collection has grown, or that it has not changed.
-/

namespace AutoCache.Store

open Finset

/-! ## Loops that count -/

section Counts

variable {μ ι : Type} (has : ι → μ → Prop) [∀ x m, Decidable (has x m)]

/-- A loop that deletes what it finds, and counts it, changes nothing if it counts nothing. -/
lemma taken_zero_iff (del : μ → ι → μ) {loop : μ → List ι → μ × Int} (hnil : ∀ m, loop m [] = (m, 0))
    (hcons : ∀ m x xs, loop m (x :: xs) = ((loop (del m x) xs).1, (if has x m then 1 else 0) + (loop (del m x) xs).2))
    (hdel : ∀ m x, ¬ has x m → del m x = m) (m : μ) (xs : List ι) (P : μ → Prop) :
    (loop m xs).2 = 0 ∧ P (loop m xs).1 ↔ (∀ x ∈ xs, ¬ has x m) ∧ P m := by
  have hnonneg (xs : List ι) : ∀ m, 0 ≤ (loop m xs).2 := by
    induction xs with
    | nil => simp [hnil]
    | cons x xs ih =>
      intro m
      have := ih (del m x)
      rw [hcons]
      dsimp only
      split <;> omega
  induction xs with
  | nil => simp [hnil]
  | cons x xs ih =>
    by_cases hx : has x m
    · have := hnonneg xs (del m x)
      have hcnt : ¬ (loop m (x :: xs)).2 = 0 := by
        simp only [hcons, hx, if_true]
        omega
      simp [hcnt, hx]
    · simp only [hcons, hdel m x hx, hx, if_false, zero_add, List.forall_mem_cons, not_false_iff, true_and]
      exact ih

/-- A loop that adds, and counts what is new, tells by how much the collection grows. -/
lemma card_added (ins : μ → ι → μ) (size : μ → ℕ) {loop : μ → List ι → μ × Int} (hnil : ∀ m, loop m [] = (m, 0))
    (hcons : ∀ m x xs, loop m (x :: xs) = ((loop (ins m x) xs).1, (if has x m then 0 else 1) + (loop (ins m x) xs).2))
    (hins : ∀ m x, (size (ins m x) : Int) = size m + if has x m then 0 else 1) (xs : List ι) :
    ∀ m, (size (loop m xs).1 : Int) = size m + (loop m xs).2 := by
  induction xs with
  | nil => simp [hnil]
  | cons x xs ih =>
    intro m
    rw [hcons, ih, hins, add_assoc]

/-- A loop that does to a collection what it does to the empty one has begun with the empty one. -/
lemma eq_empty_of_added (size : μ → ℕ) {loop : μ → μ × Int} {m empty : μ}
    (hcard : ∀ m, (size (loop m).1 : Int) = size m + (loop m).2)
    (hempty : size m = size empty → m = empty) (h : loop m = loop empty) : m = empty := by
  have hm := hcard m
  rw [h, hcard empty] at hm
  exact hempty (by omega)

end Counts

/-! ## The loops of the collections -/

section Loops

lemma card_setFields : ∀ (pairs : List Bytes) (m : GoMap Bytes Bytes),
    ((setFields m pairs).1.keys.card : Int) = m.keys.card + (setFields m pairs).2
  | [], m => by simp [setFields]
  | [_], m => by simp [setFields]
  | field :: value :: pairs, m => by
    simp only [setFields]
    rw [card_setFields pairs, GoMap.card_keys_insert, add_assoc]

lemma card_addMembers (members : List Bytes) (m : Finset Bytes) :
    ((addMembers m members).1.card : Int) = m.card + (addMembers m members).2 := by
  refine card_added (· ∈ ·) (fun m x => insert x m) card (fun _ => rfl) (fun _ _ _ => rfl) (fun m x => ?_) members m
  split
  · next h => rw [insert_eq_of_mem h, add_zero]
  · next h => rw [card_insert_of_notMem h, Nat.cast_succ]

lemma card_addScores (members : List (Score × Bytes)) (m : GoMap Bytes Score) :
    ((addScores m members).1.keys.card : Int) = m.keys.card + (addScores m members).2 :=
  card_added (fun p m => p.2 ∈ m) (fun m p => m.insert p.2 p.1) (fun m => m.keys.card)
    (fun _ => rfl) (fun _ _ _ => rfl) (fun _ _ => GoMap.card_keys_insert ..) members m

end Loops

end AutoCache.Store
