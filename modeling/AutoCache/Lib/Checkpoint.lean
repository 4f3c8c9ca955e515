import Mathlib.Data.Set.Basic
import Mathlib.Data.List.Induction

/-!
# A log over a checkpoint that was taken while it grew

A checkpoint is copied key by key while operations go on, so it holds each key as it was after some
part of the log. Replaying the whole log over it runs the operations of that part a second time.

A key is *settled* by the part its copy already has when running that part over the copy leaves the
copy as it is. Then the replay ends where the log ends, provided that an operation which reads more
than one key comes after the copies of all of them. A part settles a key when one of its operations
resets the key, or when its operations only overwrite what they write. `Progress` keeps track of the
parts while the copies are made.
-/

namespace AutoCache.Checkpoint

open List

variable {K V A : Type}

/-! ## Operations on one value -/

section Value

variable {act : V → A → V} {P : V → Prop} {v v' : V} {a : A} {l l' : List A}

/-- After an operation that does not look at the value, the value before is forgotten. -/
lemma foldl_eq_of_reset (ha : a ∈ l) (hreset : ∀ v v', act v a = act v' a) : l.foldl act v = l.foldl act v' := by
  obtain ⟨l₁, l₂, rfl⟩ := append_of_mem ha
  rw [foldl_append, foldl_append, foldl_cons, foldl_cons, hreset]

/-- The operations of `l` overwrite what they write: on values in `P`, one that runs again might as
well not have run before. -/
structure Overwrite (act : V → A → V) (P : V → Prop) (l : List A) : Prop where
  keeps : ∀ v, P v → ∀ a ∈ l, P (act v a)
  twice : ∀ v, P v → ∀ a ∈ l, act (act v a) a = act v a
  again : ∀ v, P v → ∀ a ∈ l, ∀ b ∈ l, act (act (act v a) b) a = act (act v b) a

namespace Overwrite

section

variable (h : Overwrite act P l)
include h

lemma foldl_keeps (hl : l' ⊆ l) (hv : P v) : P (l'.foldl act v) :=
  foldlRecOn (motive := P) l' act hv fun u hu a ha => h.keeps u hu a (hl ha)

lemma foldl_again (ha : a ∈ l) (hl : l' ⊆ l) (hv : P v) : act (l'.foldl act (act v a)) a = act (l'.foldl act v) a := by
  induction l' using reverseRecOn with
  | nil => exact h.twice v hv a ha
  | append_singleton l' b ih =>
    have hl' : l' ⊆ l := fun c hc => hl (mem_append_left _ hc)
    have hb : b ∈ l := hl (mem_append_right _ (mem_singleton_self b))
    -- `a` may be run once more before `b`, which makes room for the hypothesis
    simp only [foldl_append, foldl_cons, foldl_nil]
    rw [← h.again _ (h.foldl_keeps hl' (h.keeps v hv a ha)) a ha b hb, ih hl', h.again _ (h.foldl_keeps hl' hv) a ha b hb]

lemma foldl_act (ha : a ∈ l) (hv : P v) : l.foldl act (act v a) = l.foldl act v := by
  obtain ⟨l₁, l₂, rfl⟩ := append_of_mem ha
  have hagain : act (l₁.foldl act (act v a)) a = act (l₁.foldl act v) a :=
    h.foldl_again ha (subset_append_left _ _) hv
  rw [foldl_append, foldl_append, foldl_cons, foldl_cons, hagain]

/-- **Operations that overwrite what they write can run a second time.** -/
theorem foldl_foldl (hl : l' ⊆ l) (hv : P v) : l.foldl act (l'.foldl act v) = l.foldl act v := by
  induction l' generalizing v with
  | nil => rfl
  | cons a l' ih =>
    have ha : a ∈ l := hl mem_cons_self
    rw [foldl_cons, ih (fun b hb => hl (mem_cons_of_mem a hb)) (h.keeps v hv a ha), h.foldl_act ha hv]

end

end Overwrite

end Value

/-! ## Operations on all keys -/

section Keys

variable {step : (K → V) → A → K → V} {ops : List A} {k : K}

/-- At a key that all operations treat on its own, the log is one of operations on its value. -/
lemma foldl_apply {act : V → A → V} (h : ∀ a ∈ ops, ∀ m, step m a k = act (m k) a) (m : K → V) :
    ops.foldl step m k = ops.foldl act (m k) := by
  induction ops generalizing m with
  | nil => rfl
  | cons a ops ih =>
    rw [foldl_cons, foldl_cons, ih (fun b hb => h b (mem_cons_of_mem a hb)), h a mem_cons_self]

/-- **The replay converges.** `reads a k` are the keys that `a` looks at for what it does to `k`, and
the copy of `k` has the first `part k` operations. -/
theorem foldl_eq_of_settled {reads : A → K → Set K}
    (hreads : ∀ a m m' k, (∀ j ∈ reads a k, m j = m' j) → step m a k = step m' a k)
    {S : Set K} {part : K → ℕ} {base copy : K → V} (hpart : ∀ k ∈ S, part k ≤ ops.length)
    (hsettled : ∀ k ∈ S, (ops.take (part k)).foldl step copy k = (ops.take (part k)).foldl step base k)
    (hafter : ∀ k ∈ S, ∀ i a, ops[i]? = some a → part k ≤ i → ∀ j ∈ reads a k, j ∈ S ∧ part j ≤ i) :
    ∀ k ∈ S, ops.foldl step copy k = ops.foldl step base k := by
  have hprefix : ∀ n ≤ ops.length, ∀ k ∈ S, part k ≤ n → (ops.take n).foldl step copy k = (ops.take n).foldl step base k := by
    intro n
    induction n with
    | zero =>
      intro _ k hk hn
      have := hsettled k hk
      rwa [Nat.le_zero.1 hn] at this
    | succ n ih =>
      intro hlen k hk hn
      by_cases heq : part k = n + 1
      · have := hsettled k hk
        rwa [heq] at this
      · -- the last operation runs on copies that are settled by now
        have hget : ops[n]? = some ops[n] := getElem?_eq_getElem (by omega)
        rw [take_succ_eq_append_getElem (by omega)]
        simp only [foldl_append, foldl_cons, foldl_nil]
        refine hreads _ _ _ k fun j hj => ?_
        obtain ⟨hjS, hjn⟩ := hafter k hk n _ hget (by omega) j hj
        exact ih (by omega) j hjS hjn
  intro k hk
  have := hprefix ops.length le_rfl k hk (hpart k hk)
  rwa [take_length] at this

/-- Each operation is legal at the value that it meets. -/
def Trace (act : V → A → V) (legal : V → A → Prop) : V → List A → Prop
  | _, [] => True
  | v, a :: l => legal v a ∧ Trace act legal (act v a) l

lemma trace_append_singleton {act : V → A → V} {legal : V → A → Prop} {a : A} {l : List A} {v : V} :
    Trace act legal v (l ++ [a]) ↔ Trace act legal v l ∧ legal (l.foldl act v) a := by
  induction l generalizing v with
  | nil => simp [Trace]
  | cons b l ih => simp only [cons_append, Trace, foldl_cons, ih, and_assoc]

/-- How far a copy is that is made key by key while the log grows. The copy of `k` has the first
`part k` operations. A key that is pending would be copied with all of them, and up to now each
operation has treated it on its own. -/
structure Progress (step : (K → V) → A → K → V) (act : K → V → A → V) (legal : K → V → A → Prop)
    (reads : A → K → Set K) (S : Set K) (base : K → V) (pending : Set K) (ops : List A) (part : K → ℕ) :
    Prop where
  part_le : ∀ k ∈ S, part k ≤ ops.length
  part_pending : ∀ k ∈ S, k ∈ pending → part k = ops.length
  after : ∀ k ∈ S, ∀ i a, ops[i]? = some a → part k ≤ i → ∀ j ∈ reads a k, j ∈ S ∧ part j ≤ i
  alone : ∀ k ∈ S, ∀ a ∈ ops.take (part k), ∀ m, step m a k = act k (m k) a
  trace : ∀ k ∈ S, Trace (act k) (legal k) (base k) (ops.take (part k))

namespace Progress

variable {act : K → V → A → V} {legal : K → V → A → Prop} {reads : A → K → Set K} {S pending : Set K}
  {base : K → V} {part : K → ℕ}

lemma start : Progress step act legal reads S base pending [] fun _ => 0 where
  part_le _ _ := Nat.zero_le _
  part_pending _ _ _ := rfl
  after _ _ _ _ h := by simp at h
  alone _ _ _ h := by simp at h
  trace _ _ := trivial

lemma mono {pending' : Set K} (h : Progress step act legal reads S base pending ops part)
    (hsub : pending' ⊆ pending) : Progress step act legal reads S base pending' ops part :=
  { h with part_pending := fun k hk hp => h.part_pending k hk (hsub hp) }

lemma foldl_take (h : Progress step act legal reads S base pending ops part) (hk : k ∈ S) (m : K → V) :
    (ops.take (part k)).foldl step m k = (ops.take (part k)).foldl (act k) (m k) :=
  foldl_apply (h.alone k hk) m

open Classical in
lemma log {a : A} (h : Progress step act legal reads S base pending ops part)
    (hreads : ∀ k ∈ S, k ∉ pending → ∀ j ∈ reads a k, j ∈ S ∧ j ∉ pending)
    (halone : ∀ k ∈ S, k ∈ pending → ∀ m, step m a k = act k (m k) a)
    (hlegal : ∀ k ∈ S, k ∈ pending → legal k (ops.foldl step base k) a) :
    Progress step act legal reads S base pending (ops ++ [a]) fun k => if k ∈ pending then ops.length + 1 else part k where
  part_le k hk := by
    have := h.part_le k hk
    rw [length_append, length_singleton]
    split <;> omega
  part_pending k _ hp := by
    rw [if_pos hp, length_append, length_singleton]
  after k hk i b hb hi j hj := by
    by_cases hp : k ∈ pending
    · rw [if_pos hp] at hi
      rw [getElem?_eq_none (by simpa using hi)] at hb
      cases hb
    · rw [if_neg hp] at hi
      by_cases hlt : i < ops.length
      · rw [getElem?_append_left hlt] at hb
        obtain ⟨hjS, hji⟩ := h.after k hk i b hb hi j hj
        -- a pending key has all operations so far
        have hjp : j ∉ pending := fun hjp => by
          have := h.part_pending j hjS hjp
          omega
        exact ⟨hjS, by rwa [if_neg hjp]⟩
      · have hi' : i = ops.length := by
          have hbound := (List.getElem?_eq_some_iff.1 hb).1
          simp only [length_append, length_singleton] at hbound
          omega
        subst hi'
        rw [getElem?_concat_length] at hb
        cases hb
        obtain ⟨hjS, hjp⟩ := hreads k hk hp j hj
        exact ⟨hjS, by rw [if_neg hjp]; exact h.part_le j hjS⟩
  alone k hk b hb := by
    by_cases hp : k ∈ pending
    · rw [if_pos hp, take_of_length_le (by simp)] at hb
      rcases mem_append.1 hb with hb | hb
      · refine h.alone k hk b ?_
        rwa [h.part_pending k hk hp, take_length]
      · rw [mem_singleton.1 hb]
        exact halone k hk hp
    · rw [if_neg hp, take_append_of_le_length (h.part_le k hk)] at hb
      exact h.alone k hk b hb
  trace k hk := by
    by_cases hp : k ∈ pending
    · have hall := h.part_pending k hk hp
      have htrace := h.trace k hk
      have hfold := h.foldl_take hk base
      rw [hall, take_length] at htrace hfold
      rw [if_pos hp, take_of_length_le (by simp), trace_append_singleton, ← hfold]
      exact ⟨htrace, hlegal k hk hp⟩
    · rw [if_neg hp, take_append_of_le_length (h.part_le k hk)]
      exact h.trace k hk

/-- **The copies with the whole log over them** are the values at its end, if legal operations settle a
value. -/
theorem foldl_eq (h : Progress step act legal reads S base pending ops part)
    (hreads : ∀ a m m' k, (∀ j ∈ reads a k, m j = m' j) → step m a k = step m' a k)
    (hsettled : ∀ k ∈ S, ∀ l, Trace (act k) (legal k) (base k) l →
      l.foldl (act k) (l.foldl (act k) (base k)) = l.foldl (act k) (base k))
    {copy : K → V} (hcopy : ∀ k ∈ S, copy k = (ops.take (part k)).foldl step base k) :
    ∀ k ∈ S, ops.foldl step copy k = ops.foldl step base k := by
  refine foldl_eq_of_settled hreads h.part_le (fun k hk => ?_) h.after
  rw [h.foldl_take hk, h.foldl_take hk, hcopy k hk, h.foldl_take hk]
  exact hsettled k hk _ (h.trace k hk)

end Progress

end Keys

end AutoCache.Checkpoint
