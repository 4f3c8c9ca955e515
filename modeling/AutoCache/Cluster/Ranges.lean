import AutoCache.Cluster.Slots

/-!
# The slot table as ranges (`GetClusterSlots` of `internal/cluster/slots.go`)

One pass over the table joins neighbouring slots of one owner to a range. The ranges in order list exactly the
assigned slots, and each names the owner of all its slots.
-/

namespace AutoCache.Cluster

open List UInt16

structure SlotRange where
  start : UInt16
  stop : UInt16
  nodeID : String
  deriving DecidableEq, Repr

namespace SlotRange

def slots (r : SlotRange) : List ℕ := List.range' r.start.toNat (r.stop.toNat + 1 - r.start.toNat)

lemma mem_slots {r : SlotRange} {n : ℕ} : n ∈ r.slots ↔ r.start.toNat ≤ n ∧ n ≤ r.stop.toNat := by
  rw [slots, mem_range'_1]
  omega

lemma slots_singleton (slot : UInt16) (nodeID : String) : (⟨slot, slot, nodeID⟩ : SlotRange).slots = [slot.toNat] := by
  simp [slots]

/-- A range grows by the slot after its last. -/
lemma slots_grow {r : SlotRange} {slot : UInt16} (hord : r.start.toNat ≤ r.stop.toNat)
    (hstop : r.stop.toNat + 1 = slot.toNat) : ({ r with stop := slot } : SlotRange).slots = r.slots ++ [slot.toNat] := by
  have hlen : slot.toNat + 1 - r.start.toNat = (r.stop.toNat + 1 - r.start.toNat) + 1 := by omega
  have hend : r.start.toNat + 1 * (r.stop.toNat + 1 - r.start.toNat) = slot.toNat := by omega
  simp only [slots, hlen, range'_concat, hend]

end SlotRange

namespace SlotManager

/-- One slot of the loop: the ranges that are complete, and the one that still grows. -/
def growRange (sm : SlotManager) (acc : List SlotRange × Option SlotRange) (i : UInt16) :
    List SlotRange × Option SlotRange :=
  let nodeID := (sm.slots i).nodeID
  if nodeID = "" then (acc.1 ++ acc.2.toList, none)
  else
    match acc.2 with
    | none => (acc.1, some ⟨i, i, nodeID⟩)
    | some current =>
      if current.nodeID ≠ nodeID then (acc.1 ++ [current], some ⟨i, i, nodeID⟩)
      else (acc.1, some { current with stop := i })

def getClusterSlots (sm : SlotManager) : List SlotRange :=
  let acc := allSlots.foldl sm.growRange ([], none)
  acc.1 ++ acc.2.toList

def ownerOf (sm : SlotManager) (n : ℕ) : String := (sm.slots (ofNat n)).nodeID

/-- A range inside the table with one owner. -/
structure Owns (sm : SlotManager) (r : SlotRange) : Prop where
  named : r.nodeID ≠ ""
  ordered : r.start.toNat ≤ r.stop.toNat
  inside : r.stop.toNat < slotCount.toNat
  owner : ∀ n ∈ r.slots, sm.ownerOf n = r.nodeID

/-- The first `n` slots are in the ranges; the one that grows ends right before `n`. -/
structure Ranged (sm : SlotManager) (n : ℕ) (acc : List SlotRange × Option SlotRange) : Prop where
  complete : (acc.1 ++ acc.2.toList).flatMap SlotRange.slots =
    (List.range n).filter fun i => sm.ownerOf i ≠ ""
  owns : ∀ r ∈ acc.1 ++ acc.2.toList, sm.Owns r
  ends : ∀ r ∈ acc.2, r.stop.toNat + 1 = n

variable {sm : SlotManager} {n : ℕ} {acc : List SlotRange × Option SlotRange}

lemma owns_singleton (h : n < slotCount.toNat) (hown : sm.ownerOf n ≠ "") : sm.Owns ⟨ofNat n, ofNat n, sm.ownerOf n⟩ := by
  refine ⟨hown, le_rfl, ?_, ?_⟩
  · change (ofNat n).toNat < _
    rwa [toNat_ofNat h]
  · intro m hm
    rw [SlotRange.slots_singleton, toNat_ofNat h, mem_singleton] at hm
    rw [hm]

lemma filter_range_succ (sm : SlotManager) (n : ℕ) : (List.range (n + 1)).filter (fun i => sm.ownerOf i ≠ "") =
      ((List.range n).filter fun i => sm.ownerOf i ≠ "") ++ if sm.ownerOf n = "" then [] else [n] := by
  rw [range_succ, filter_append]
  by_cases hown : sm.ownerOf n = "" <;> simp [hown]

lemma Ranged.close (h : sm.Ranged n acc) (hown : sm.ownerOf n = "") : sm.Ranged (n + 1) (acc.1 ++ acc.2.toList, none) := by
  refine ⟨?_, ?_, nofun⟩
  · rw [filter_range_succ, if_pos hown, append_nil, ← h.complete]
    simp
  · intro r hr
    exact h.owns r (by simpa using hr)

lemma Ranged.begin {ranges : List SlotRange} (h : sm.Ranged n acc) (hranges : ranges = acc.1 ++ acc.2.toList)
    (hn : n < slotCount.toNat) (hown : sm.ownerOf n ≠ "") :
    sm.Ranged (n + 1) (ranges, some ⟨ofNat n, ofNat n, sm.ownerOf n⟩) := by
  subst hranges
  refine ⟨?_, ?_, ?_⟩
  · rw [filter_range_succ, if_neg hown, ← h.complete, Option.toList_some, flatMap_append,
      flatMap_singleton, SlotRange.slots_singleton, toNat_ofNat hn]
  · intro r hr
    rw [Option.toList_some, mem_append, mem_singleton] at hr
    rcases hr with hr | rfl
    · exact h.owns r hr
    · exact owns_singleton hn hown
  · intro r hr
    cases hr
    exact congrArg (· + 1) (toNat_ofNat hn)

lemma Ranged.grow {ranges : List SlotRange} {current : SlotRange} (h : sm.Ranged n (ranges, some current))
    (hn : n < slotCount.toNat) (hown : sm.ownerOf n = current.nodeID) :
    sm.Ranged (n + 1) (ranges, some { current with stop := ofNat n }) := by
  have hcur : sm.Owns current := h.owns current (by simp)
  have hstop : current.stop.toNat + 1 = n := h.ends current rfl
  have hsl := SlotRange.slots_grow hcur.ordered (hstop.trans (toNat_ofNat hn).symm)
  rw [toNat_ofNat hn] at hsl
  have hasg : sm.ownerOf n ≠ "" := by
    rw [hown]
    exact hcur.named
  refine ⟨?_, ?_, ?_⟩
  · rw [filter_range_succ, if_neg hasg, ← h.complete]
    simp only [Option.toList_some, flatMap_append, flatMap_singleton, hsl, append_assoc]
  · intro r hr
    rw [Option.toList_some, mem_append, mem_singleton] at hr
    rcases hr with hr | rfl
    · exact h.owns r (mem_append_left _ hr)
    refine ⟨hcur.named, ?_, ?_, ?_⟩
    · have hord := hcur.ordered
      dsimp only
      rw [toNat_ofNat hn]
      omega
    · dsimp only
      rwa [toNat_ofNat hn]
    · intro m hm
      rw [hsl, mem_append, mem_singleton] at hm
      rcases hm with hm | rfl
      · exact hcur.owner m hm
      · exact hown
  · intro r hr
    cases hr
    exact congrArg (· + 1) (toNat_ofNat hn)

lemma Ranged.step (h : sm.Ranged n acc) (hn : n < slotCount.toNat) : sm.Ranged (n + 1) (sm.growRange acc (ofNat n)) := by
  obtain ⟨ranges, current⟩ := acc
  by_cases hown : sm.ownerOf n = ""
  · have hstep : sm.growRange (ranges, current) (ofNat n) = (ranges ++ current.toList, none) :=
      if_pos hown
    rw [hstep]
    exact h.close hown
  · cases current with
    | none =>
      have hstep : sm.growRange (ranges, none) (ofNat n) = (ranges, some ⟨ofNat n, ofNat n, sm.ownerOf n⟩) := if_neg hown
      rw [hstep]
      exact h.begin (append_nil ranges).symm hn hown
    | some current =>
      by_cases hsame : current.nodeID = sm.ownerOf n
      · have hstep : sm.growRange (ranges, some current) (ofNat n) = (ranges, some { current with stop := ofNat n }) :=
          (if_neg hown).trans (if_neg (not_not.2 hsame))
        rw [hstep]
        exact h.grow hn hsame.symm
      · have hstep : sm.growRange (ranges, some current) (ofNat n) =
            (ranges ++ [current], some ⟨ofNat n, ofNat n, sm.ownerOf n⟩) :=
          (if_neg hown).trans (if_pos hsame)
        rw [hstep]
        exact h.begin rfl hn hown

lemma ranged_foldl (sm : SlotManager) (hn : n ≤ slotCount.toNat) :
    sm.Ranged n (((List.range n).map ofNat).foldl sm.growRange ([], none)) := by
  induction n with
  | zero => exact ⟨rfl, nofun, nofun⟩
  | succ n ih =>
    rw [range_succ, map_append, foldl_append]
    exact (ih (Nat.le_of_succ_le hn)).step hn

/-- **The ranges list the assigned slots in order.** -/
lemma getClusterSlots_slots (sm : SlotManager) : sm.getClusterSlots.flatMap SlotRange.slots =
      (List.range slotCount.toNat).filter fun i => sm.ownerOf i ≠ "" :=
  (sm.ranged_foldl le_rfl).complete

/-- **A range names the owner of its slots.** -/
lemma getClusterSlots_owns {r : SlotRange} (hr : r ∈ sm.getClusterSlots) : sm.Owns r :=
  (sm.ranged_foldl le_rfl).owns r hr

end SlotManager

end AutoCache.Cluster
