import Mathlib.Data.Nat.Bitwise
import AutoCache.Cluster.Gossip

/-!
# Slots as bits (`internal/cluster/gossip/message.go`)

A message carries the slots of a node as a bitmap. What is written is read back as the sorted slots, and every
bitmap of the right length comes from the slots that are read from it.
-/

namespace AutoCache.Cluster

open List SlotManager

def byteAt (b : Bytes) (i : ℕ) : Go UInt8 := if i < b.length then .ok (b.getD i 0) else throw .indexRange

/-- `1 << (n % 8)`. -/
def bitMask (n : ℕ) : UInt8 := 1 <<< UInt8.ofNat (n % 8)

def addBit (bitmap : Bytes) (slot : UInt16) : Go Bytes := do
  let byte ← byteAt bitmap (slot.toNat / 8)
  return bitmap.set (slot.toNat / 8) (byte ||| bitMask slot.toNat)

def slotsToBytes (slots : List UInt16) : Go Bytes := slots.foldlM addBit (replicate 2048 0)

def bytesToSlots (bitmap : Bytes) : Go (List UInt16) :=
  (range (min (bitmap.length * 8) 16384)).foldlM (fun slots i => do
    let byte ← byteAt bitmap (i / 8)
    return if byte &&& bitMask i ≠ 0 then slots ++ [UInt16.ofNat i] else slots) []

def hasBit (b : Bytes) (n : ℕ) : Bool := (b.getD (n / 8) 0).toNat.testBit (n % 8)

lemma toNat_bitMask (n : ℕ) : (bitMask n).toNat = 2 ^ (n % 8) := by
  have h : ∀ k < 8, ((1 : UInt8) <<< UInt8.ofNat k).toNat = 2 ^ k := by decide
  exact h _ (Nat.mod_lt n (by decide))

variable {b : Bytes} {m n : ℕ}

lemma and_bitMask {c : UInt8} : c &&& bitMask n ≠ 0 ↔ c.toNat.testBit (n % 8) := by
  rw [Ne, ← UInt8.toNat_inj, UInt8.toNat_and, toNat_bitMask, Nat.and_two_pow]
  cases c.toNat.testBit (n % 8) <;> simp

lemma hasBit_set (hm : m / 8 < b.length) :
    hasBit (b.set (m / 8) (b.getD (m / 8) 0 ||| bitMask m)) n = (decide (n = m) || hasBit b n) := by
  unfold hasBit
  by_cases h : m / 8 = n / 8
  · have hmod : m % 8 = n % 8 ↔ n = m := by omega
    rw [h] at hm ⊢
    rw [getD_eq_getElem _ _ (by simpa using hm), getElem_set_self, UInt8.toNat_or, Nat.testBit_or,
      toNat_bitMask, Nat.testBit_two_pow, Bool.or_comm]
    simp only [hmod]
  · have hne : n ≠ m := fun e => h (e ▸ rfl)
    simp [getD_eq_getElem?_getD, getElem?_set_ne h, hne]

/-- Or-ing in the slots of a list adds their bits. -/
lemma foldlM_addBit {slots : List UInt16} (hslots : ∀ s ∈ slots, s < slotCount) (hb : b.length = 2048) :
    ∃ out, slots.foldlM addBit b = .ok out ∧ out.length = 2048 ∧
      ∀ s : UInt16, hasBit out s.toNat = (decide (s ∈ slots) || hasBit b s.toNat) := by
  induction slots generalizing b with
  | nil => exact ⟨b, rfl, hb, by simp⟩
  | cons slot slots ih =>
    rw [forall_mem_cons] at hslots
    have hlt : slot.toNat / 8 < b.length := by
      have : slot.toNat < 16384 := UInt16.lt_iff_toNat_lt.1 hslots.1
      omega
    obtain ⟨out, hout, hlen, hbits⟩ := ih hslots.2 ((length_set (i := slot.toNat / 8)).trans hb)
    refine ⟨out, ?_, hlen, ?_⟩
    · rw [foldlM_cons, addBit, byteAt, if_pos hlt]
      exact hout
    · intro s
      rw [hbits, hasBit_set hlt]
      simp [UInt16.toNat_inj, Bool.or_left_comm, Bool.or_assoc]

/-- The loop reads inside the bitmap and finds the bits. -/
lemma bytesToSlots_eq (b : Bytes) : bytesToSlots b =
    .ok (((range (min (b.length * 8) 16384)).map UInt16.ofNat).filter fun s => hasBit b s.toNat) := by
  have hle := Nat.le_min.1 (Nat.le_refl (min (b.length * 8) 16384))
  unfold bytesToSlots
  generalize min (b.length * 8) 16384 = k at hle ⊢
  induction k with
  | zero => rfl
  | succ n ih =>
    have hn : n / 8 < b.length := by omega
    rw [range_succ, foldlM_append, ih (by omega), map_append, filter_append]
    simp only [Go.ok_bind, foldlM_cons, byteAt, if_pos hn, and_bitMask]
    change Except.ok (if hasBit b n = true then _ else _) = _
    have hmod : n % UInt16.size = n := Nat.mod_eq_of_lt (hle.2.trans (by decide))
    split_ifs with h <;> simp [h, hmod]

lemma bytesToSlots_table (hb : b.length = 2048) : bytesToSlots b = .ok (allSlots.filter fun s => hasBit b s.toNat) := by
  rw [bytesToSlots_eq, hb]
  rfl

lemma slotsToBytes_spec {slots : List UInt16} (hslots : ∀ s ∈ slots, s < slotCount) :
    ∃ out, slotsToBytes slots = .ok out ∧ out.length = 2048 ∧ ∀ s : UInt16, hasBit out s.toNat = decide (s ∈ slots) := by
  obtain ⟨out, hout, hlen, hbits⟩ := foldlM_addBit hslots (length_replicate (n := 2048) (a := 0))
  refine ⟨out, hout, hlen, fun s => ?_⟩
  have hzero : hasBit (replicate 2048 0) s.toNat = false := by
    rw [hasBit, getD_eq_getElem?_getD, getElem?_replicate]
    split_ifs <;> exact Nat.zero_testBit _
  rw [hbits, hzero, Bool.or_false]

lemma eq_of_hasBit {c : Bytes} (hb : b.length = 2048) (hc : c.length = 2048)
    (h : ∀ s < slotCount, hasBit b s.toNat = hasBit c s.toNat) : b = c := by
  apply ext_getElem (hb.trans hc.symm)
  intro i hi hi'
  apply UInt8.toNat_inj.1
  apply Nat.eq_of_testBit_eq
  intro k
  by_cases hk : k < 8
  · have hlt : 8 * i + k < slotCount.toNat := by
      have : slotCount.toNat = 16384 := rfl
      omega
    have hs := h (UInt16.ofNat (8 * i + k)) (UInt16.lt_iff_toNat_lt.2 (by rwa [toNat_ofNat hlt]))
    have hdiv : (8 * i + k) / 8 = i := by omega
    have hmod : (8 * i + k) % 8 = k := by omega
    simpa only [toNat_ofNat hlt, hasBit, hdiv, hmod, getD_eq_getElem _ _ hi, getD_eq_getElem _ _ hi'] using hs
  · have hbig : ∀ x : UInt8, x.toNat.testBit k = false := fun x =>
      Nat.testBit_lt_two_pow (x.toNat_lt.trans_le (Nat.pow_le_pow_right (by decide) (Nat.not_lt.1 hk)))
    rw [hbig, hbig]

/-- **The codec.** -/
theorem bitmap_codec :
    (∀ slots : List UInt16, (∀ s ∈ slots, s < slotCount) →
      (slotsToBytes slots >>= bytesToSlots) = .ok (Gossip.bitmap slots) ∧ (Gossip.bitmap slots).Pairwise (· < ·) ∧
        ∀ s, s ∈ Gossip.bitmap slots ↔ s ∈ slots) ∧
    (∀ b : Bytes, b.length = 2048 → (bytesToSlots b >>= slotsToBytes) = .ok b) ∧
    ∀ b : Bytes, ∃ slots, bytesToSlots b = .ok slots ∧ ∀ s ∈ slots, s < slotCount := by
  refine ⟨fun slots hslots => ⟨?_, ?_, ?_⟩, fun b hb => ?_, fun b => ⟨_, bytesToSlots_eq b, ?_⟩⟩
  · obtain ⟨out, hout, hlen, hbits⟩ := slotsToBytes_spec hslots
    rw [hout, Go.ok_bind, bytesToSlots_table hlen]
    simp only [hbits]
    rfl
  · apply Pairwise.filter
    have h := @pairwise_lt_range slotCount.toNat
    rw [← map_toNat_allSlots, pairwise_map] at h
    exact h
  · intro s
    rw [Gossip.mem_bitmap]
    exact and_iff_right_of_imp (hslots s)
  · rw [bytesToSlots_table hb, Go.ok_bind]
    obtain ⟨out, hout, hlen, hbits⟩ := @slotsToBytes_spec (allSlots.filter fun s => hasBit b s.toNat)
      (fun s hs => mem_allSlots.1 (mem_filter.1 hs).1)
    rw [hout, eq_of_hasBit hlen hb]
    intro s hs
    rw [hbits]
    simp [mem_allSlots, hs]
  · intro s hs
    have hsub := (range_sublist.2 (Nat.min_le_right (b.length * 8) 16384)).map UInt16.ofNat
    exact mem_allSlots.1 (hsub.subset (mem_filter.1 hs).1)

end AutoCache.Cluster
