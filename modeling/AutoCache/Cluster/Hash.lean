import Mathlib.Data.List.Basic
import AutoCache.Lib.ByteMem

/-!
# Slots of keys (`internal/cluster/hash/crc16.go`)

The slot of a key is a checksum of its hash tag, or of the whole key if it has none. Clients compute it on
their own by the rule of Redis Cluster, where an empty tag is none; here it counts.
-/

namespace AutoCache.Cluster

open List

def crc16Table : List UInt16 :=
  [0x0000, 0x1021, 0x2042, 0x3063, 0x4084, 0x50a5, 0x60c6, 0x70e7, 0x8108, 0x9129, 0xa14a, 0xb16b,
  0xc18c, 0xd1ad, 0xe1ce, 0xf1ef, 0x1231, 0x0210, 0x3273, 0x2252, 0x52b5, 0x4294, 0x72f7, 0x62d6,
  0x9339, 0x8318, 0xb37b, 0xa35a, 0xd3bd, 0xc39c, 0xf3ff, 0xe3de, 0x2462, 0x3443, 0x0420, 0x1401,
  0x64e6, 0x74c7, 0x44a4, 0x5485, 0xa56a, 0xb54b, 0x8528, 0x9509, 0xe5ee, 0xf5cf, 0xc5ac, 0xd58d,
  0x3653, 0x2672, 0x1611, 0x0630, 0x76d7, 0x66f6, 0x5695, 0x46b4, 0xb75b, 0xa77a, 0x9719, 0x8738,
  0xf7df, 0xe7fe, 0xd79d, 0xc7bc, 0x48c4, 0x58e5, 0x6886, 0x78a7, 0x0840, 0x1861, 0x2802, 0x3823,
  0xc9cc, 0xd9ed, 0xe98e, 0xf9af, 0x8948, 0x9969, 0xa90a, 0xb92b, 0x5af5, 0x4ad4, 0x7ab7, 0x6a96,
  0x1a71, 0x0a50, 0x3a33, 0x2a12, 0xdbfd, 0xcbdc, 0xfbbf, 0xeb9e, 0x9b79, 0x8b58, 0xbb3b, 0xab1a,
  0x6ca6, 0x7c87, 0x4ce4, 0x5cc5, 0x2c22, 0x3c03, 0x0c60, 0x1c41, 0xedae, 0xfd8f, 0xcdec, 0xddcd,
  0xad2a, 0xbd0b, 0x8d68, 0x9d49, 0x7e97, 0x6eb6, 0x5ed5, 0x4ef4, 0x3e13, 0x2e32, 0x1e51, 0x0e70,
  0xff9f, 0xefbe, 0xdfdd, 0xcffc, 0xbf1b, 0xaf3a, 0x9f59, 0x8f78, 0x9188, 0x81a9, 0xb1ca, 0xa1eb,
  0xd10c, 0xc12d, 0xf14e, 0xe16f, 0x1080, 0x00a1, 0x30c2, 0x20e3, 0x5004, 0x4025, 0x7046, 0x6067,
  0x83b9, 0x9398, 0xa3fb, 0xb3da, 0xc33d, 0xd31c, 0xe37f, 0xf35e, 0x02b1, 0x1290, 0x22f3, 0x32d2,
  0x4235, 0x5214, 0x6277, 0x7256, 0xb5ea, 0xa5cb, 0x95a8, 0x8589, 0xf56e, 0xe54f, 0xd52c, 0xc50d,
  0x34e2, 0x24c3, 0x14a0, 0x0481, 0x7466, 0x6447, 0x5424, 0x4405, 0xa7db, 0xb7fa, 0x8799, 0x97b8,
  0xe75f, 0xf77e, 0xc71d, 0xd73c, 0x26d3, 0x36f2, 0x0691, 0x16b0, 0x6657, 0x7676, 0x4615, 0x5634,
  0xd94c, 0xc96d, 0xf90e, 0xe92f, 0x99c8, 0x89e9, 0xb98a, 0xa9ab, 0x5844, 0x4865, 0x7806, 0x6827,
  0x18c0, 0x08e1, 0x3882, 0x28a3, 0xcb7d, 0xdb5c, 0xeb3f, 0xfb1e, 0x8bf9, 0x9bd8, 0xabbb, 0xbb9a,
  0x4a75, 0x5a54, 0x6a37, 0x7a16, 0x0af1, 0x1ad0, 0x2ab3, 0x3a92, 0xfd2e, 0xed0f, 0xdd6c, 0xcd4d,
  0xbdaa, 0xad8b, 0x9de8, 0x8dc9, 0x7c26, 0x6c07, 0x5c64, 0x4c45, 0x3ca2, 0x2c83, 0x1ce0, 0x0cc1,
  0xef1f, 0xff3e, 0xcf5d, 0xdf7c, 0xaf9b, 0xbfba, 0x8fd9, 0x9ff8, 0x6e17, 0x7e36, 0x4e55, 0x5e74,
  0x2e93, 0x3eb2, 0x0ed1, 0x1ef0]

def crc16 (data : Bytes) : UInt16 :=
  data.foldl (fun crc b => (crc <<< 8) ^^^ crc16Table.getD ((crc >>> 8).toUInt8 ^^^ b).toNat 0) 0

/-- One bit leaves the register at the top, and the polynomial is added if it was set. -/
def crcBit (crc : UInt16) : UInt16 :=
  if crc &&& 0x8000 = 0 then crc <<< 1 else (crc <<< 1) ^^^ 0x1021

/-- **CRC-16/XMODEM, bit by bit**: each byte enters at the top, and eight bits leave. -/
def xmodem (data : Bytes) : UInt16 :=
  data.foldl (fun crc (b : UInt8) => crcBit^[8] (crc ^^^ (b.toUInt16 <<< 8))) 0

lemma and_top (z : UInt16) : z &&& 0x8000 = if z.toBitVec.getLsbD 15 then 0x8000 else 0 := by
  have hbit := BitVec.and_twoPow z.toBitVec 15
  rw [← UInt16.toBitVec_inj]
  split_ifs at hbit ⊢ <;> exact hbit

/-- The step is linear over the field of two elements. -/
lemma crcBit_xor (x y : UInt16) : crcBit (x ^^^ y) = crcBit x ^^^ crcBit y := by
  simp only [crcBit, and_top, UInt16.shiftLeft_xor, UInt16.toBitVec_xor, BitVec.getLsbD_xor]
  rw [← UInt16.toBitVec_inj]
  cases x.toBitVec.getLsbD 15 <;> cases y.toBitVec.getLsbD 15 <;> ext i <;> simp <;> grind

lemma crcBits_xor (n : ℕ) (x y : UInt16) : crcBit^[n] (x ^^^ y) = crcBit^[n] x ^^^ crcBit^[n] y := by
  induction n generalizing x y with
  | zero => rfl
  | succ n ih => exact (congrArg _ (crcBit_xor x y)).trans (ih ..)

lemma crcBits_byte : ∀ n < 256, crcBit^[8] (UInt16.ofNat n <<< 8) = crc16Table.getD n 0 ∧
    crcBit^[8] (UInt16.ofNat n) = UInt16.ofNat n <<< 8 := by
  decide +kernel

/-- **The table is the bitwise checksum**: the index is the high byte with the byte read, which leaves
through the polynomial, and the low byte only moves up. -/
theorem crc16_eq_xmodem (data : Bytes) : crc16 data = xmodem data := by
  unfold crc16 xmodem
  congr 1
  funext crc b
  have hsplit : crc ^^^ (b.toUInt16 <<< 8) =
      (((crc >>> 8).toUInt8 ^^^ b).toUInt16 <<< 8) ^^^ crc.toUInt8.toUInt16 := by
    rw [← UInt16.toBitVec_inj]
    ext i hi
    by_cases h : i < 8 <;> simp [-UInt16.toUInt16_toUInt8, h] <;> grind
  have hlow : crc.toUInt8.toUInt16 <<< 8 = crc <<< 8 := by
    rw [← UInt16.toBitVec_inj]
    ext i hi
    by_cases h : i < 8 <;> simp [-UInt16.toUInt16_toUInt8, h]
    grind
  have hbyte : ∀ c : UInt8, _ := fun c => crcBits_byte _ c.toNat_lt
  simp only [UInt16.ofNat_uInt8ToNat] at hbyte
  rw [hsplit, crcBits_xor, (hbyte _).1, (hbyte _).2, hlow]
  exact UInt16.xor_comm ..

/-- The first place of a byte; `none` is `-1`. -/
def indexByte (s : Bytes) (c : UInt8) : Option ℕ := s.idxOf? c

/-- What `KeySlot` hashes of a key. -/
def hashedPart (key : Bytes) : Bytes :=
  match indexByte key 123 with
  | none => key
  | some start =>
    match indexByte (key.drop (start + 1)) 125 with
    | none => key
    | some len => (key.drop (start + 1)).take len

def keySlot (key : Bytes) : UInt16 := crc16 (hashedPart key) % 16384

/-! ## The rule of Redis Cluster -/

/-- `tag` is what stands between the first `{` and the first `}` behind it. -/
def Tagged (key tag : Bytes) : Prop :=
  ∃ front back, key = front ++ 123 :: (tag ++ 125 :: back) ∧ 123 ∉ front ∧ 125 ∉ tag

/-- **The rule**: a tag that is not empty is hashed, and otherwise the whole key. -/
def FollowsRule (key : Bytes) : Prop :=
  (∀ tag, Tagged key tag → tag ≠ [] → keySlot key = crc16 tag % 16384) ∧
    ((∀ tag, Tagged key tag → tag = []) → keySlot key = crc16 key % 16384)

lemma indexByte_append {s : Bytes} {c : UInt8} (hc : c ∉ s) (t : Bytes) : indexByte (s ++ c :: t) c = some s.length := by
  induction s with
  | nil => simp [indexByte, idxOf?_cons]
  | cons a s ih =>
    rw [mem_cons, not_or] at hc
    have hrest := ih hc.2
    unfold indexByte at hrest ⊢
    rw [cons_append, idxOf?_cons, hrest, if_neg (by simpa using Ne.symm hc.1)]
    rfl

lemma hashedPart_of_tagged {key tag : Bytes} (h : Tagged key tag) : hashedPart key = tag := by
  obtain ⟨front, back, rfl, hfront, htag⟩ := h
  have hdrop : (front ++ 123 :: (tag ++ 125 :: back)).drop (front.length + 1) = tag ++ 125 :: back := by
    simp
  rw [hashedPart, indexByte_append hfront]
  simp only [hdrop, indexByte_append htag]
  exact take_left

lemma hashedPart_of_not_tagged {key : Bytes} (h : ∀ tag, ¬Tagged key tag) : hashedPart key = key := by
  by_cases hopen : 123 ∈ key
  · obtain ⟨front, rest, rfl, hfront⟩ := eq_append_cons_of_mem hopen
    have hclose : 125 ∉ rest := by
      intro hclose
      obtain ⟨tag, back, rfl, htag⟩ := eq_append_cons_of_mem hclose
      exact h tag ⟨front, back, rfl, hfront, htag⟩
    rw [hashedPart, indexByte_append hfront]
    simp [indexByte, idxOf?_eq_none_iff.2 hclose]
  · rw [hashedPart, indexByte, idxOf?_eq_none_iff.2 hopen]

/-- **The slot follows the rule** unless the tag is empty and the whole key hashes to another slot
than the empty string. -/
theorem followsRule_iff (key : Bytes) :
    FollowsRule key ↔ ¬Tagged key [] ∨ crc16 key % 16384 = 0 := by
  unfold FollowsRule keySlot
  by_cases hempty : Tagged key []
  · rw [hashedPart_of_tagged hempty]
    have hnone : ∀ tag, Tagged key tag → tag = [] := fun tag h =>
      (hashedPart_of_tagged h).symm.trans (hashedPart_of_tagged hempty)
    constructor
    · intro h
      exact .inr (h.2 hnone).symm
    · rintro (h | h)
      · exact absurd hempty h
      · exact ⟨fun tag ht hne => absurd (hnone tag ht) hne, fun _ => h.symm⟩
  · refine iff_of_true ⟨fun tag h _ => by rw [hashedPart_of_tagged h], fun h => ?_⟩ (.inl hempty)
    rw [hashedPart_of_not_tagged]
    intro tag ht
    exact hempty (h tag ht ▸ ht)

/-- `{}a` is in slot 0 here, and in another one for every client. -/
theorem empty_tag_counts : keySlot [123, 125, 97] = 0 ∧ ¬FollowsRule [123, 125, 97] := by
  refine ⟨by decide, fun h => ?_⟩
  have hslot := h.2 fun tag htag => (hashedPart_of_tagged htag).symm.trans (by decide)
  exact absurd hslot (by decide)

end AutoCache.Cluster
