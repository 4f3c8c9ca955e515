import AutoCache.Lib.ByteMem
import Mathlib.Data.Nat.Digits.Lemmas

/-!
# Decimal numerals

Printing and parsing of 64-bit integers in base ten, as `strconv.FormatInt(n, 10)` and
`strconv.ParseInt(s, 10, 64)` do it: an optional sign, at least one digit, nothing else, and a
value that fits.
-/

namespace AutoCache

open List

def isDigit (c : UInt8) : Bool := 48 ≤ c && c ≤ 57

def formatNat (n : ℕ) : Bytes :=
  if n = 0 then [48] else (Nat.digits 10 n).reverse.map fun d => UInt8.ofNat (48 + d)

def formatInt (n : Int) : Bytes :=
  if n < 0 then 45 :: formatNat n.natAbs else formatNat n.natAbs

lemma formatInt_length_le_iff {n k : ℕ} (hk : 0 < k) : (formatInt n).length ≤ k ↔ n < 10 ^ k := by
  have hsign : ¬ (n : Int) < 0 := by omega
  rw [formatInt, if_neg hsign, Int.natAbs_natCast, formatNat]
  split
  · next hzero =>
    subst hzero
    exact iff_of_true hk (by positivity)
  · rw [length_map, length_reverse]
    exact Nat.digits_length_le_iff (by decide) n

def parseNat (s : Bytes) : Option ℕ :=
  if s ≠ [] ∧ s.all isDigit then some (s.foldl (fun n c => 10 * n + (c.toNat - 48)) 0) else none

/-- `ParseInt(s, 10, 64)`; the kinds of error are not told apart. -/
def parseInt (s : Bytes) : Option Int :=
  match s with
  | 45 :: rest =>
    (parseNat rest).bind fun n => if n ≤ 2 ^ 63 then some (-(n : Int)) else none
  | 43 :: rest =>
    (parseNat rest).bind fun n => if n < 2 ^ 63 then some (n : Int) else none
  | s => (parseNat s).bind fun n => if n < 2 ^ 63 then some (n : Int) else none

lemma parseInt_range {s : Bytes} {n : Int} (h : parseInt s = some n) : -2 ^ 63 ≤ n ∧ n < 2 ^ 63 := by
  unfold parseInt at h
  split at h <;> obtain ⟨k, -, hk⟩ := Option.bind_eq_some_iff.1 h <;> split at hk <;> cases hk <;> omega

/-! ## Parsing what was printed -/

lemma isDigit_digit {d : ℕ} (hd : d < 10) : isDigit (UInt8.ofNat (48 + d)) = true := by
  interval_cases d <;> rfl

lemma formatNat_ne_nil (n : ℕ) : formatNat n ≠ [] := by
  unfold formatNat
  split
  · simp
  · next hn => simpa [Nat.digits_eq_nil_iff_eq_zero] using hn

lemma isDigit_of_mem_formatNat {n : ℕ} {c : UInt8} (hc : c ∈ formatNat n) : isDigit c = true := by
  unfold formatNat at hc
  split at hc
  · rw [mem_singleton.1 hc]
    rfl
  · obtain ⟨d, hd, rfl⟩ := mem_map.1 hc
    exact isDigit_digit (Nat.digits_lt_base (by decide) (mem_reverse.1 hd))

lemma foldl_digits (ds : List ℕ) (h : ∀ d ∈ ds, d < 10) :
    (ds.reverse.map fun d => UInt8.ofNat (48 + d)).foldl (fun n c => 10 * n + (c.toNat - 48)) 0 = Nat.ofDigits 10 ds := by
  induction ds with
  | nil => rfl
  | cons d ds ih =>
    have hd : d < 10 := h d mem_cons_self
    have hbyte : (UInt8.ofNat (48 + d)).toNat - 48 = d := by
      rw [UInt8.toNat_ofNat_of_lt' (by simp only [UInt8.size]; omega)]
      omega
    rw [reverse_cons, map_append, foldl_append, ih fun d hd => h d (mem_cons_of_mem _ hd), map_singleton, foldl_cons,
      foldl_nil, hbyte, Nat.ofDigits_cons]
    omega

/-- **Parsing inverts printing.** -/
lemma parseNat_formatNat (n : ℕ) : parseNat (formatNat n) = some n := by
  have hdigits : (formatNat n).all isDigit = true :=
    all_eq_true.2 fun c hc => isDigit_of_mem_formatNat hc
  rw [parseNat, if_pos ⟨formatNat_ne_nil n, hdigits⟩]
  unfold formatNat
  split
  · next hn =>
    subst hn
    rfl
  · rw [foldl_digits _ fun d hd => Nat.digits_lt_base (by decide) hd, Nat.ofDigits_digits]

lemma formatNat_head_isDigit {n : ℕ} {c : UInt8} {rest : Bytes} (h : formatNat n = c :: rest) :
    isDigit c = true := isDigit_of_mem_formatNat (h ▸ mem_cons_self)

lemma parseInt_formatInt {n : Int} (hmin : -2 ^ 63 ≤ n) (hmax : n < 2 ^ 63) : parseInt (formatInt n) = some n := by
  unfold formatInt
  split
  · next hneg =>
    rw [parseInt, parseNat_formatNat, Option.bind_some, if_pos (by omega)]
    congr 1
    omega
  · next hpos =>
    obtain ⟨c, rest, hcons⟩ := exists_cons_of_ne_nil (formatNat_ne_nil n.natAbs)
    have hdigit := formatNat_head_isDigit hcons
    have hparse : (parseNat (formatNat n.natAbs)).bind (fun k => if k < 2 ^ 63 then some (k : Int) else none) = some n := by
      rw [parseNat_formatNat, Option.bind_some, if_pos (by omega)]
      congr 1
      omega
    rw [hcons] at hparse ⊢
    unfold parseInt
    split
    · next heq =>
      cases heq
      cases hdigit
    · next heq =>
      cases heq
      cases hdigit
    · exact hparse

end AutoCache
