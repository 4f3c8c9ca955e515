import Mathlib.Data.List.Pairwise
import Mathlib.Algebra.BigOperators.Group.List.Basic
import Mathlib.Tactic.Linarith

/-!
# Tilings of a circular buffer

Blocks with a position and a positive size, laid one after the other in a buffer of `cap`
cells that continues at `0` when it ends.

* `Contig a l b` — the blocks of `l` fill the interval from `a` to `b`, in order, without a gap;
* `Tiled cap head tail l` — the blocks of `l` run from `head` to `tail`, either straight or once
  around the end of the buffer. A tiling never leaves a gap at the end: a block that goes
  around starts at `0` only when the block before it ends at `cap`;
* `Chain cap a l` — the view of a reader that starts at `a` and is told the size of one block
  after the other.

The results are the two operations of a queue (`Tiled.pop`, `Tiled.push_straight`,
`Tiled.push_around`), that the blocks of a tiling do not meet (`Tiled.pairwise`), and that the
reader's view determines the tiling (`Chain.tiled`).
-/

namespace AutoCache.Tiling

open List

variable {ι : Type} (pos size : ι → Int)

def Apart (x y : ι) : Prop := pos x + size x ≤ pos y ∨ pos y + size y ≤ pos x

instance : Std.Symm (Apart pos size) := ⟨fun _ _ h => h.symm⟩

/-- The blocks of `l`, in order, fill the interval from `a` to `b` without a gap. -/
def Contig : Int → List ι → Int → Prop
  | a, [], b => a = b
  | a, x :: l, b => pos x = a ∧ 0 < size x ∧ Contig (a + size x) l b

/-- Where a reader goes on after a block that ends at `p`. -/
def next (cap p : Int) : Int := if cap ≤ p then 0 else p

def total (l : List ι) : Int := (l.map size).sum

variable {pos size}

@[simp] lemma total_nil : total size ([] : List ι) = 0 := rfl

@[simp] lemma total_cons (x : ι) (l : List ι) : total size (x :: l) = size x + total size l := by
  simp [total]

@[simp] lemma total_append (l l' : List ι) : total size (l ++ l') = total size l + total size l' := by
  simp [total]

lemma total_nonneg {l : List ι} (h : ∀ x ∈ l, 0 ≤ size x) : 0 ≤ total size l := by
  induction l with
  | nil => simp
  | cons x l ih =>
    have h1 := h x mem_cons_self
    have h2 := ih fun y hy => h y (mem_cons_of_mem _ hy)
    rw [total_cons]
    omega

lemma next_of_le {cap p : Int} (h : cap ≤ p) : next cap p = 0 := if_pos h

lemma next_of_lt {cap p : Int} (h : p < cap) : next cap p = p := if_neg (by omega)

/-! ## Straight runs of blocks -/

namespace Contig

variable {a b : Int} {l l' : List ι} {x : ι}

section

variable (h : Contig pos size a l b)
include h

lemma append {c : Int} (h' : Contig pos size b l' c) : Contig pos size a (l ++ l') c := by
  induction l generalizing a with
  | nil => cases h; exact h'
  | cons x l ih => exact ⟨h.1, h.2.1, ih h.2.2⟩

lemma eq_add_total : b = a + total size l := by
  induction l generalizing a with
  | nil => cases h; simp
  | cons x l ih =>
    have := ih h.2.2
    rw [total_cons]
    omega

lemma size_pos (hx : x ∈ l) : 0 < size x := by
  induction l generalizing a with
  | nil => cases hx
  | cons y l ih =>
    rcases mem_cons.1 hx with rfl | hx
    · exact h.2.1
    · exact ih h.2.2 hx

lemma total_nonneg : 0 ≤ total size l :=
  Tiling.total_nonneg fun _ hx => (h.size_pos hx).le

lemma le : a ≤ b := by
  have h1 := h.eq_add_total
  have h2 := h.total_nonneg
  omega

lemma bounds (hx : x ∈ l) : a ≤ pos x ∧ pos x + size x ≤ b := by
  induction l generalizing a with
  | nil => cases hx
  | cons y l ih =>
    obtain ⟨h1, h2, h3⟩ := h
    rcases mem_cons.1 hx with rfl | hx
    · have := h3.le
      omega
    · have := ih h3 hx
      omega

lemma pairwise : l.Pairwise fun x y => pos x + size x ≤ pos y := by
  induction l generalizing a with
  | nil => exact List.Pairwise.nil
  | cons x l ih =>
    obtain ⟨h1, h2, h3⟩ := h
    refine List.Pairwise.cons (fun y hy => ?_) (ih h3)
    have := h3.bounds hy
    omega

lemma map {κ : Type} {pos' size' : κ → Int} {f : ι → κ} (hf : ∀ x ∈ l, pos' (f x) = pos x ∧ size' (f x) = size x) :
    Contig pos' size' a (l.map f) b := by
  induction l generalizing a with
  | nil => exact h
  | cons x l ih =>
    obtain ⟨hp, hs⟩ := hf x mem_cons_self
    refine ⟨hp.trans h.1, hs ▸ h.2.1, ?_⟩
    rw [hs]
    exact ih h.2.2 fun y hy => hf y (mem_cons_of_mem _ hy)

end

end Contig

/-! ## Tilings -/

/-- The blocks of `l` run from `head` to `tail` without a gap, straight or once around the end
of the buffer. -/
inductive Tiled (pos size : ι → Int) (cap head tail : Int) (l : List ι) : Prop
  | straight (h : Contig pos size head l tail)
  | around (a b : List ι) (hl : l = a ++ b) (ha : Contig pos size head a cap)
      (hb : Contig pos size 0 b tail) (hle : tail ≤ head)

namespace Tiled

variable {cap head tail : Int} {l : List ι} {x : ι}

section

variable (h : Tiled pos size cap head tail l)
include h

lemma total_eq : total size l = tail - head ∨ (total size l = cap - head + tail ∧ tail ≤ head) := by
  cases h with
  | straight h => have := h.eq_add_total; left; omega
  | around a b hl ha hb hle =>
    have h1 := ha.eq_add_total
    have h2 := hb.eq_add_total
    subst hl
    right
    rw [total_append]
    omega

lemma size_pos (hx : x ∈ l) : 0 < size x := by
  cases h with
  | straight h => exact h.size_pos hx
  | around a b hl ha hb hle =>
    subst hl
    rcases mem_append.1 hx with hx | hx
    · exact ha.size_pos hx
    · exact hb.size_pos hx

lemma total_nonneg : 0 ≤ total size l :=
  Tiling.total_nonneg fun _ hx => (h.size_pos hx).le

lemma bounds (h0 : 0 ≤ head) (hh : head < cap) (ht : tail ≤ cap) (hx : x ∈ l) : 0 ≤ pos x ∧ pos x + size x ≤ cap := by
  cases h with
  | straight h => have := h.bounds hx; omega
  | around a b hl ha hb hle =>
    subst hl
    rcases mem_append.1 hx with hx | hx
    · have := ha.bounds hx; omega
    · have := hb.bounds hx; omega

lemma pairwise : l.Pairwise (Apart pos size) := by
  cases h with
  | straight h => exact h.pairwise.imp Or.inl
  | around a b hl ha hb hle =>
    subst hl
    refine pairwise_append.2 ⟨ha.pairwise.imp Or.inl, hb.pairwise.imp Or.inl, ?_⟩
    intro x hx y hy
    have h1 := ha.bounds hx
    have h2 := hb.bounds hy
    right
    omega

end

lemma head_eq (h : Tiled pos size cap head tail (x :: l)) (hh : head < cap) : pos x = head := by
  cases h with
  | straight h => exact h.1
  | around a b hl ha hb hle =>
    cases a with
    | nil => cases ha; omega
    | cons y a =>
      obtain ⟨rfl, -⟩ := hl
      exact ha.1

lemma pop (h : Tiled pos size cap head tail (x :: l)) (hh : head < cap) (ht : tail ≤ cap)
    (hl : l ≠ []) : Tiled pos size cap (next cap (head + size x)) tail l := by
  cases h with
  | straight h =>
    obtain ⟨-, -, h3⟩ := h
    obtain ⟨y, l', rfl⟩ := exists_cons_of_ne_nil hl
    have hy := h3.bounds (mem_cons_self (a := y))
    have hs := h3.2.1
    rw [next_of_lt (by omega)]
    exact .straight h3
  | around a b hab ha hb hle =>
    cases a with
    | nil => cases ha; omega
    | cons y a =>
      obtain ⟨rfl, rfl⟩ := hab
      obtain ⟨-, hs, h3⟩ := ha
      rcases lt_or_ge (head + size x) cap with hlt | hge
      · rw [next_of_lt hlt]
        exact .around a b rfl h3 hb (by omega)
      -- the block ended at the end of the buffer: what is left is the part from `0` on
      rw [next_of_le hge]
      cases a with
      | nil => exact .straight hb
      | cons z a =>
        have h5 := h3.bounds (mem_cons_self (a := z))
        have h6 := h3.2.1
        omega

lemma push_straight (h : Tiled pos size cap head tail l) (hroom : total size l + size x ≤ cap)
    (hx : pos x = tail) (hs : 0 < size x) :
    Tiled pos size cap head (tail + size x) (l ++ [x]) := by
  cases h with
  | straight h => exact .straight (h.append ⟨hx, hs, rfl⟩)
  | around a b hl ha hb hle =>
    have h1 := ha.eq_add_total
    have h2 := hb.eq_add_total
    subst hl
    rw [total_append] at hroom
    exact .around a (b ++ [x]) (append_assoc a b [x]) ha (hb.append ⟨hx, hs, rfl⟩) (by omega)

lemma push_around (h : Tiled pos size cap head cap l) (hh : head < cap)
    (hroom : total size l + size x ≤ cap) (hx : pos x = 0) (hs : 0 < size x) :
    Tiled pos size cap head (size x) (l ++ [x]) := by
  cases h with
  | straight h =>
    have h1 := h.eq_add_total
    exact .around l [x] rfl h ⟨hx, hs, by simp [Contig]⟩ (by omega)
  | around a b hl ha hb hle => omega

lemma map {κ : Type} {pos' size' : κ → Int} {f : ι → κ} (h : Tiled pos size cap head tail l)
    (hf : ∀ x ∈ l, pos' (f x) = pos x ∧ size' (f x) = size x) :
    Tiled pos' size' cap head tail (l.map f) := by
  cases h with
  | straight h => exact .straight (h.map hf)
  | around a b hl ha hb hle =>
    subst hl
    refine .around (a.map f) (b.map f) map_append ?_ ?_ hle
    · exact ha.map fun x hx => hf x (mem_append_left _ hx)
    · exact hb.map fun x hx => hf x (mem_append_right _ hx)

end Tiled

/-! ## The reader's view -/

/-- The blocks of `l` are found one after the other by a reader that starts at `a`. -/
def Chain (pos size : ι → Int) (cap : Int) : Int → List ι → Prop
  | _, [] => True
  | a, x :: l => pos x = a ∧ 0 < size x ∧ a + size x ≤ cap ∧
      Chain pos size cap (next cap (a + size x)) l

/-- **The reader's view is a tiling**, as long as the blocks fit into the buffer together. -/
lemma Chain.tiled {cap a : Int} {l : List ι} (h : Chain pos size cap a l) (h0 : 0 ≤ a)
    (ha : a < cap) (hroom : total size l ≤ cap) :
    ∃ tail, 0 ≤ tail ∧ tail ≤ cap ∧ Tiled pos size cap a tail l := by
  induction l generalizing a with
  | nil => exact ⟨a, h0, ha.le, .straight rfl⟩
  | cons x l ih =>
    obtain ⟨h1, h2, h3, h4⟩ := h
    rw [total_cons] at hroom
    rcases lt_or_ge (a + size x) cap with hlt | hge
    · rw [next_of_lt hlt] at h4
      obtain ⟨tail, ht0, htc, ht⟩ := ih h4 (by omega) hlt (by omega)
      refine ⟨tail, ht0, htc, ?_⟩
      cases ht with
      | straight h => exact .straight ⟨h1, h2, h⟩
      | around u v hl hu hv hle =>
        subst hl
        have e1 := hu.eq_add_total
        have e2 := hv.eq_add_total
        rw [total_append] at hroom
        exact .around (x :: u) v rfl ⟨h1, h2, hu⟩ hv (by omega)
    · -- this block ends the buffer, so the blocks after it run straight from `0` on
      rw [next_of_le hge] at h4
      obtain ⟨tail, ht0, htc, ht⟩ := ih h4 le_rfl (by omega) (by omega)
      refine ⟨tail, ht0, htc, ?_⟩
      have he : Contig pos size a [x] cap := ⟨h1, h2, show a + size x = cap by omega⟩
      cases ht with
      | straight h => exact .around [x] l rfl he h (by have := h.eq_add_total; omega)
      | around u v hl hu hv hle =>
        subst hl
        have e1 := hu.eq_add_total
        rw [total_append] at hroom
        have e2 := hv.total_nonneg
        omega

lemma Tiled.chain {cap head tail : Int} {l : List ι} (h : Tiled pos size cap head tail l)
    (hh : head < cap) (ht : tail ≤ cap) (h0 : 0 < cap) : Chain pos size cap head l := by
  induction l generalizing head with
  | nil => trivial
  | cons x l ih =>
    have hx := h.head_eq hh
    have hs := h.size_pos mem_cons_self
    have hb : head + size x ≤ cap := by
      cases h with
      | straight h => have := h.bounds mem_cons_self; omega
      | around a b hl ha hb hle =>
        cases a with
        | nil => cases ha; omega
        | cons y a =>
          obtain ⟨rfl, -⟩ := hl
          have := ha.bounds mem_cons_self
          omega
    refine ⟨hx, hs, hb, ?_⟩
    rcases Classical.em (l = []) with rfl | hl
    · trivial
    · refine ih (h.pop hh ht hl) ?_
      unfold next
      split <;> omega

end AutoCache.Tiling
