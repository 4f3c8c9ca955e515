import Mathlib.Data.List.Count
import Mathlib.Data.List.Nodup
import Mathlib.Data.List.Infix
import Mathlib.Data.List.Induction

/-!
# Schedules and the order of turns

Several processes take turns; a schedule lists who takes each turn. `turnOrder k` lists the
processes in the order in which they took their turn number `k`, so that two orders can be
compared: who came first at one step of its program and who came first at another.
-/

namespace AutoCache

open List

variable {ι : Type} [DecidableEq ι]

/-- Of a schedule given backwards, the turns number `k`, latest first. -/
def turnsBack (k : ℕ) : List ι → List ι
  | [] => []
  | i :: past => if past.count i = k then i :: turnsBack k past else turnsBack k past

/-- The processes in the order in which they took their turn number `k` (the first is `0`). -/
def turnOrder (k : ℕ) (sched : List ι) : List ι := (turnsBack k sched.reverse).reverse

variable {k : ℕ} {sched rest : List ι} {i : ι}

@[simp] lemma turnOrder_nil : turnOrder k ([] : List ι) = [] := rfl

@[simp] lemma turnOrder_concat (k : ℕ) (sched : List ι) (i : ι) : turnOrder k (sched ++ [i]) =
      if sched.count i = k then turnOrder k sched ++ [i] else turnOrder k sched := by
  simp only [turnOrder, reverse_append, reverse_singleton, singleton_append, turnsBack, count_reverse]
  split <;> simp

/-- Who has taken turn `k`: whoever took more than `k` turns. -/
lemma mem_turnOrder : i ∈ turnOrder k sched ↔ k < sched.count i := by
  induction sched using reverseRecOn with
  | nil => simp
  | append_singleton sched j ih =>
    rw [turnOrder_concat, count_append, count_singleton]
    by_cases hij : j = i
    · subst hij
      split
      · rename_i h
        simp [h]
      · rename_i h
        simp only [ih, beq_self_eq_true, if_true]
        omega
    · have hij' : i ≠ j := fun h => hij h.symm
      split <;> simp [ih, hij, hij']

lemma nodup_turnOrder : (turnOrder k sched).Nodup := by
  induction sched using reverseRecOn with
  | nil => simp
  | append_singleton sched j ih =>
    rw [turnOrder_concat]
    split
    · rename_i h
      rw [nodup_append]
      refine ⟨ih, nodup_singleton j, ?_⟩
      rintro a ha b hb rfl
      rw [mem_singleton.1 hb, mem_turnOrder] at ha
      omega
    · exact ih

end AutoCache
