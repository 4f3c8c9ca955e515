import Mathlib.Data.List.GetD
import Mathlib.Tactic.Ring

/-!
# Byte memories and little-endian words

A memory is a total function from addresses to bytes; which addresses exist is the business of
the code that uses it. `store` overwrites a block of bytes and `load` reads one, and the lemmas
say the two things every user needs: what was stored is read back (`load_store_self`), and a
block that does not meet the stored one is unchanged (`load_store_disjoint`).
-/

namespace AutoCache

open List

abbrev Bytes : Type := List UInt8

instance : IsTrans Bytes (· ≤ ·) := inferInstance

instance : Std.Antisymm (α := Bytes) (· ≤ ·) := inferInstance

instance : Std.Total (α := Bytes) (· ≤ ·) := inferInstance

instance : LawfulBEq Bytes := inferInstance

/-! ## Little-endian words -/

/-- The `w` low bytes of `n`, least significant byte first. -/
def leBytes : ℕ → ℕ → Bytes
  | 0, _ => []
  | w + 1, n => UInt8.ofNat n :: leBytes w (n / 256)

/-- The number a little-endian byte string denotes. -/
def leNat : Bytes → ℕ
  | [] => 0
  | b :: bs => b.toNat + 256 * leNat bs

@[simp] lemma leBytes_length (w n : ℕ) : (leBytes w n).length = w := by
  induction w generalizing n with
  | zero => rfl
  | succ w ih => simp [leBytes, ih]

lemma leNat_leBytes (w n : ℕ) : leNat (leBytes w n) = n % 256 ^ w := by
  induction w generalizing n with
  | zero => simp [leBytes, leNat, Nat.mod_one]
  | succ w ih =>
    have hb : (UInt8.ofNat n).toNat = n % 256 := by simp
    rw [leBytes, leNat, ih, hb, pow_succ, mul_comm (256 ^ w) 256, Nat.mod_mul]

lemma leNat_leBytes_of_lt {w n : ℕ} (h : n < 256 ^ w) : leNat (leBytes w n) = n := by
  rw [leNat_leBytes, Nat.mod_eq_of_lt h]

/-! ## Memories -/

def Mem : Type := Int → UInt8

namespace Mem

def zero : Mem := fun _ => 0

/-- The `n` bytes from the address `off` on. -/
def load (m : Mem) (off : Int) : ℕ → Bytes
  | 0 => []
  | n + 1 => m off :: load m (off + 1) n

/-- The memory with the block `bs` written at the address `off`. -/
def store (m : Mem) (off : Int) (bs : Bytes) : Mem := fun i =>
  if off ≤ i ∧ i < off + bs.length then bs.getD (i - off).toNat 0 else m i

section Load

variable (m : Mem)

@[simp] lemma load_length (off : Int) (n : ℕ) : (m.load off n).length = n := by
  induction n generalizing off with
  | zero => rfl
  | succ n ih => simp [load, ih]

lemma load_add (off : Int) (a b : ℕ) : m.load off (a + b) = m.load off a ++ m.load (off + a) b := by
  induction a generalizing off with
  | zero => simp [load]
  | succ a ih =>
    rw [show a + 1 + b = (a + b) + 1 by ring, load, load, ih, cons_append]
    congr 3
    push_cast
    ring

lemma load_congr {m m' : Mem} {off : Int} {n : ℕ}
    (h : ∀ i, off ≤ i → i < off + n → m i = m' i) : m.load off n = m'.load off n := by
  induction n generalizing off with
  | zero => rfl
  | succ n ih =>
    rw [load, load, h off le_rfl (by push_cast; omega)]
    rw [ih (fun i h1 h2 => h i (by omega) (by push_cast; omega))]

lemma load_take (off : Int) {k n : ℕ} (h : k ≤ n) : (m.load off n).take k = m.load off k := by
  obtain ⟨d, rfl⟩ := Nat.exists_eq_add_of_le h
  rw [load_add, take_left' (by simp)]

lemma load_drop (off : Int) (k n : ℕ) : (m.load off (k + n)).drop k = m.load (off + k) n := by
  rw [load_add, drop_left' (by simp)]

end Load

section Store

variable (m : Mem)

variable {off i : Int} {bs : Bytes}

lemma store_of_lt (bs : Bytes) (h : i < off) : m.store off bs i = m i := by
  unfold store
  rw [if_neg (by omega)]

lemma store_of_le (bs : Bytes) (h : off + bs.length ≤ i) : m.store off bs i = m i := by
  unfold store
  rw [if_neg (by omega)]

lemma store_store_append (off : Int) (bs cs : Bytes) :
    (m.store off bs).store (off + bs.length) cs = m.store off (bs ++ cs) := by
  funext i
  by_cases h1 : off + bs.length ≤ i
  · by_cases h2 : i < off + bs.length + cs.length
    · have e : (i - off).toNat = bs.length + (i - (off + bs.length)).toNat := by omega
      have h3 : off ≤ i ∧ i < off + ((bs ++ cs).length : ℕ) := by
        rw [length_append]
        push_cast
        omega
      unfold store
      rw [if_pos ⟨h1, h2⟩, if_pos h3, e, getD_append_right _ _ _ _ (by omega)]
      congr 1
      omega
    · rw [store_of_le _ _ (by omega), store_of_le _ _ h1, store_of_le]
      rw [length_append]
      push_cast
      omega
  · rw [store_of_lt _ _ (by omega)]
    unfold store
    by_cases h2 : off ≤ i
    · have h3 : off ≤ i ∧ i < off + ((bs ++ cs).length : ℕ) := by
        rw [length_append]
        push_cast
        omega
      rw [if_pos ⟨h2, by omega⟩, if_pos h3, getD_append _ _ _ _ (by omega)]
    · rw [if_neg (by omega), if_neg (by omega)]

lemma store_append_replicate {n : ℕ} {b : UInt8} (h1 : off + bs.length ≤ i) (h2 : i < off + bs.length + n) :
    m.store off (bs ++ replicate n b) i = b := by
  have hin : off ≤ i ∧ i < off + ((bs ++ replicate n b).length : ℕ) := by
    rw [length_append, length_replicate]
    push_cast
    omega
  unfold store
  rw [if_pos hin, getD_append_right _ _ _ _ (by omega)]
  exact getD_replicate _ (by omega)

lemma load_store_self (off : Int) (bs : Bytes) : (m.store off bs).load off bs.length = bs := by
  induction bs generalizing m off with
  | nil => rfl
  | cons b bs ih =>
    have hs : m.store off (b :: bs) = (m.store off [b]).store (off + 1) bs := by
      have := store_store_append m off [b] bs
      simpa using this.symm
    have hb : m.store off (b :: bs) off = b := by
      unfold store
      rw [if_pos (by constructor <;> simp)]
      simp
    rw [length_cons, load, hb, hs, ih]

lemma load_store_disjoint {off off' : Int} {n : ℕ} (h : off' + n ≤ off ∨ off + bs.length ≤ off') :
    (m.store off bs).load off' n = m.load off' n := by
  refine load_congr fun i h1 h2 => ?_
  rcases h with h | h
  · exact store_of_lt m bs (by omega)
  · exact store_of_le m bs (by omega)

lemma load_store_sub {off : Int} {k n : ℕ} (h : k + n ≤ bs.length) :
    (m.store off bs).load (off + k) n = (bs.drop k).take n := by
  obtain ⟨d, hd⟩ := Nat.exists_eq_add_of_le h
  have hself := load_store_self m off bs
  rw [hd, show k + n + d = k + (n + d) by ring] at hself
  rw [← load_take _ _ (Nat.le_add_right n d), ← load_drop, hself]

lemma load_store_left (off : Int) (bs cs : Bytes) : (m.store off (bs ++ cs)).load off bs.length = bs := by
  have h : (m.store off (bs ++ cs)).load (off + (0 : ℕ)) bs.length =
      ((bs ++ cs).drop 0).take bs.length := load_store_sub m (by simp)
  simpa using h

end Store

end Mem

end AutoCache
