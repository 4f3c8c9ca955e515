import Mathlib.Data.List.Basic
import Mathlib.Data.Nat.Basic
import Mathlib.Order.MinMax

/-!
# Registers guarded by epochs

A register holds an owner and the epoch it was claimed with. A claim is accepted when its epoch is
larger, and a claim with epoch zero as long as nothing larger was seen. Two claims of one epoch are
not ordered, so what a register ends with can depend on which came first; with epoch zero, on which
came last.
-/

namespace AutoCache

@[ext] structure Register (α : Type) where
  owner : α
  epoch : ℕ

namespace Register

variable {α : Type} {r : Register α} {a b : α} {e n : ℕ} {cs : List (Register α)}

/-- A claim with the epoch `e` is accepted. -/
def Accepts (r : Register α) (e : ℕ) : Prop := e = 0 ∧ r.epoch = 0 ∨ r.epoch < e

instance (r : Register α) (e : ℕ) : Decidable (r.Accepts e) := inferInstanceAs (Decidable (_ ∨ _))

/-- A claim is a register itself: who claims, and with which epoch. -/
def claim (r c : Register α) : Register α := if r.Accepts c.epoch then c else r

def claims (r : Register α) (cs : List (Register α)) : Register α := cs.foldl claim r

variable {c : Register α}

lemma claim_of_accepts (h : r.Accepts c.epoch) : r.claim c = c := if_pos h

lemma claim_of_not_accepts (h : ¬ r.Accepts c.epoch) : r.claim c = r := if_neg h

lemma epoch_claim (r c : Register α) : (r.claim c).epoch = max r.epoch c.epoch := by
  by_cases h : r.Accepts c.epoch
  · rw [claim_of_accepts h]
    unfold Accepts at h
    omega
  · rw [claim_of_not_accepts h]
    unfold Accepts at h
    omega

lemma accepts_iff_of_pos (h : 0 < r.epoch) : r.Accepts e ↔ r.epoch < e := by
  unfold Accepts
  omega

@[simp] lemma claim_self (c : Register α) : c.claim c = c := by
  unfold claim
  split <;> rfl

@[simp] lemma claim_claim (r c : Register α) : (r.claim c).claim c = r.claim c := by
  by_cases h : r.Accepts c.epoch
  · rw [claim_of_accepts h, claim_self]
  · rw [claim_of_not_accepts h, claim_of_not_accepts h]

/-- Who owns the register after a claim: the claimant, when it is accepted or had it before. -/
lemma owner_claim_eq_iff : (r.claim c).owner = c.owner ↔ r.Accepts c.epoch ∨ r.owner = c.owner := by
  by_cases h : r.Accepts c.epoch
  · simp [claim_of_accepts h, h]
  · simp [claim_of_not_accepts h, h]

@[simp] lemma claims_cons : r.claims (c :: cs) = (r.claim c).claims cs := rfl

lemma claims_append {ds : List (Register α)} : r.claims (cs ++ ds) = (r.claims cs).claims ds :=
  List.foldl_append

lemma le_epoch_claims (r : Register α) (cs : List (Register α)) : r.epoch ≤ (r.claims cs).epoch := by
  induction cs generalizing r with
  | nil => exact le_rfl
  | cons c cs ih =>
    refine le_trans ?_ (ih (r.claim c))
    rw [epoch_claim]
    exact le_max_left _ _

lemma epoch_le_claims (h : c ∈ cs) : c.epoch ≤ (r.claims cs).epoch := by
  induction cs generalizing r with
  | nil => cases h
  | cons d cs ih =>
    rcases List.mem_cons.1 h with rfl | h
    · refine le_trans ?_ (le_epoch_claims (r.claim c) cs)
      rw [epoch_claim]
      exact le_max_right _ _
    · exact ih h

lemma claims_mem (r : Register α) (cs : List (Register α)) : r.claims cs = r ∨ r.claims cs ∈ cs := by
  induction cs generalizing r with
  | nil => exact Or.inl rfl
  | cons c cs ih =>
    rw [claims_cons]
    rcases ih (r.claim c) with h | h
    · rw [h]
      by_cases hc : r.Accepts c.epoch
      · rw [claim_of_accepts hc]
        exact Or.inr List.mem_cons_self
      · exact Or.inl (claim_of_not_accepts hc)
    · exact Or.inr (List.mem_cons_of_mem _ h)

lemma claims_mem_of_blank (h : r.epoch = 0) (hne : cs ≠ []) : r.claims cs ∈ cs := by
  cases cs with
  | nil => exact absurd rfl hne
  | cons c cs =>
    have hc : r.Accepts c.epoch := by
      unfold Accepts
      omega
    rw [claims_cons, claim_of_accepts hc]
    rcases claims_mem c cs with heq | hmem
    · rw [heq]
      exact List.mem_cons_self
    · exact List.mem_cons_of_mem _ hmem

lemma claims_eq_self (hpos : 0 < r.epoch) (hle : ∀ c ∈ cs, c.epoch ≤ r.epoch) : r.claims cs = r := by
  induction cs generalizing r with
  | nil => rfl
  | cons c cs ih =>
    have hc : ¬ r.Accepts c.epoch := by
      rw [accepts_iff_of_pos hpos]
      exact not_lt.2 (hle c List.mem_cons_self)
    rw [claims_cons, claim_of_not_accepts hc]
    exact ih hpos fun d hd => hle d (List.mem_cons_of_mem _ hd)

lemma claims_decided (hblank : r.epoch = 0) (hle : ∀ d ∈ cs, d.epoch ≤ c.epoch) : r.claims (c :: cs ++ [c]) = c := by
  have hc : r.Accepts c.epoch := by
    unfold Accepts
    omega
  rw [List.cons_append, claims_cons, claim_of_accepts hc, claims_append]
  by_cases hpos : 0 < c.epoch
  · rw [claims_eq_self hpos hle]
    exact claim_self c
  -- all claims have epoch zero, and the last one counts
  have hzero : (c.claims cs).epoch = 0 := by
    rcases claims_mem c cs with heq | hmem
    · rw [heq]
      omega
    · have := hle _ hmem
      omega
  have hlast : (c.claims cs).Accepts c.epoch := by
    unfold Accepts
    omega
  exact claim_of_accepts hlast

end Register

end AutoCache
