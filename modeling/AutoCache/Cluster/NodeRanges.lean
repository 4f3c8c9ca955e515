import AutoCache.Cluster.Ownership
import AutoCache.Cluster.Ranges

/-!
# Slot ranges are maximal runs

`GetClusterSlots` closes a range where its owner ends, and `buildNodeSlotRanges`
(`internal/protocol/commands/cluster.go`) sorts the slots of a node and closes a range at each gap.
-/

namespace AutoCache.Cluster

open List

/-- The inner loop of `sortSlots`: what is smaller than `slots[i]` changes places with it. -/
def sink : UInt16 → List UInt16 → UInt16 × List UInt16
  | x, [] => (x, [])
  | x, y :: ys =>
    if x > y then ((sink y ys).1, x :: (sink y ys).2) else ((sink x ys).1, y :: (sink x ys).2)

lemma sink_perm (x : UInt16) (ys : List UInt16) : (sink x ys).1 :: (sink x ys).2 ~ x :: ys := by
  fun_induction sink x ys with
  | case1 x => exact .refl _
  | case2 x y ys h ih => exact (Perm.swap _ _ _).trans (ih.cons x)
  | case3 x y ys h ih => exact (Perm.swap _ _ _).trans ((ih.cons y).trans (Perm.swap _ _ _))

lemma sink_le (x : UInt16) (ys : List UInt16) : ∀ z ∈ x :: ys, (sink x ys).1 ≤ z := by
  fun_induction sink x ys with simp only [forall_mem_cons] at *
  | case1 x => exact ⟨UInt16.le_refl x, nofun⟩
  | case2 x y ys h ih => exact ⟨UInt16.le_trans ih.1 (UInt16.le_of_lt h), ih⟩
  | case3 x y ys h ih => exact ⟨ih.1, UInt16.le_trans ih.1 (UInt16.not_lt.1 h), ih.2⟩

def sortSlots : List UInt16 → List UInt16
  | [] => []
  | x :: ys => (sink x ys).1 :: sortSlots (sink x ys).2
termination_by slots => slots.length
decreasing_by
  have := (sink_perm x ys).length_eq
  simp only [length_cons] at this ⊢
  omega

lemma sortSlots_perm (slots : List UInt16) : sortSlots slots ~ slots := by
  fun_induction sortSlots slots with
  | case1 => exact .refl _
  | case2 x ys ih => exact (ih.cons _).trans (sink_perm x ys)

lemma sortSlots_sorted (slots : List UInt16) : (sortSlots slots).Pairwise (· ≤ ·) := by
  fun_induction sortSlots slots with
  | case1 => exact .nil
  | case2 x ys ih =>
    refine .cons (fun z hz => sink_le x ys z ?_) ih
    exact (sink_perm x ys).subset (mem_cons_of_mem _ ((sortSlots_perm _).subset hz))

def growRun (acc : List SlotRange × SlotRange) (slot : UInt16) : List SlotRange × SlotRange :=
  if slot = acc.2.stop + 1 then (acc.1, { acc.2 with stop := slot })
  else (acc.1 ++ [acc.2], { acc.2 with start := slot, stop := slot })

def formatSlotRange (r : SlotRange) : String :=
  if r.start = r.stop then toString r.start.toNat else toString r.start.toNat ++ "-" ++ toString r.stop.toNat

/-- The ranges so far of increasing slots: there is a gap after each that is complete. -/
structure RunsOf (slots : List UInt16) (acc : List SlotRange × SlotRange) : Prop where
  covers : acc.1.flatMap SlotRange.slots ++ acc.2.slots = slots.map UInt16.toNat
  apart : acc.1.Pairwise fun r r' => r.stop.toNat + 1 < r'.start.toNat
  before : ∀ r ∈ acc.1, r.start.toNat ≤ r.stop.toNat ∧ r.stop.toNat + 1 < acc.2.start.toNat
  ordered : acc.2.start.toNat ≤ acc.2.stop.toNat
  last : acc.2.stop ∈ slots

variable {slots : List UInt16} {acc : List SlotRange × SlotRange}

lemma RunsOf.apart_all (h : RunsOf slots acc) : (acc.1 ++ [acc.2]).Pairwise fun r r' => r.stop.toNat + 1 < r'.start.toNat :=
  pairwise_append.2 ⟨h.apart, pairwise_singleton _ _, by simpa using fun r hr => (h.before r hr).2⟩

lemma RunsOf.step {slot : UInt16} (h : RunsOf slots acc) (hlt : ∀ s ∈ slots, s < slot) :
    RunsOf (slots ++ [slot]) (growRun acc slot) := by
  have hord := h.ordered
  have hstop : acc.2.stop.toNat < slot.toNat := UInt16.lt_iff_toNat_lt.1 (hlt _ h.last)
  have hnext : slot = acc.2.stop + 1 ↔ acc.2.stop.toNat + 1 = slot.toNat := by
    have := slot.toNat_lt
    rw [← UInt16.toNat_inj, UInt16.toNat_add]
    change _ = (_ + 1) % 65536 ↔ _
    omega
  unfold growRun
  split_ifs with hs
  · refine { h with covers := ?_, ordered := hord.trans hstop.le, last := by simp }
    rw [SlotRange.slots_grow hord (hnext.1 hs), ← append_assoc, h.covers, map_append]
    rfl
  · have hgap : acc.2.stop.toNat + 1 < slot.toNat := lt_of_le_of_ne hstop fun heq => hs (hnext.2 heq)
    refine ⟨?_, ?_, forall_mem_append.2 ⟨fun r hr => ?_, ?_⟩, le_rfl, by simp⟩
    · rw [flatMap_append, flatMap_singleton, h.covers, SlotRange.slots_singleton, map_append]
      rfl
    · exact h.apart_all
    · obtain ⟨hr, hgap'⟩ := h.before r hr
      exact ⟨hr, by dsimp only; omega⟩
    · simpa using ⟨hord, hgap⟩

lemma RunsOf.foldl {rest : List UInt16} (h : RunsOf slots acc) (hsorted : (slots ++ rest).Pairwise (· < ·)) :
    RunsOf (slots ++ rest) (rest.foldl growRun acc) := by
  induction rest generalizing slots acc with
  | nil => rwa [append_nil]
  | cons slot rest ih =>
    have hlt : ∀ s ∈ slots, s < slot := fun s hs => (pairwise_append.1 hsorted).2.2 s hs slot mem_cons_self
    rw [append_cons] at hsorted ⊢
    exact ih (h.step hlt) hsorted

namespace SlotManager

section

variable (sm : SlotManager) (nodeID : String)

/-- The plain ranges of a node. -/
def nodeRanges : List SlotRange :=
  match sortSlots (sm.getNodeSlots nodeID) with
  | [] => []
  | slot :: slots =>
    let acc := slots.foldl growRun ([], ⟨slot, slot, nodeID⟩)
    acc.1 ++ [acc.2]

/-- What is printed of a slot that moves. -/
def moveMark (slot : UInt16) : Option String :=
  let info := sm.slots slot
  if slotCount ≤ slot then none
  else if info.state = .exporting ∧ info.exporting ≠ "" then
    some ("[" ++ toString slot.toNat ++ "->-" ++ info.exporting ++ "]")
  else if info.state = .importing ∧ info.importing ≠ "" then
    some ("[" ++ toString slot.toNat ++ "-<-" ++ info.importing ++ "]")
  else none

def buildNodeSlotRanges : String :=
  " ".intercalate ((sm.nodeRanges nodeID).map formatSlotRange ++
    (sortSlots (sm.getNodeSlots nodeID)).filterMap sm.moveMark)

end

variable {sm : SlotManager}

lemma nodeRanges_spec {nodeID : String} (h : (sm.getNodeSlots nodeID).Nodup) :
    (sm.nodeRanges nodeID).Pairwise (fun r r' => r.stop.toNat + 1 < r'.start.toNat) ∧
      (∀ r ∈ sm.nodeRanges nodeID, r.start.toNat ≤ r.stop.toNat) ∧
      ∀ slot : UInt16, (∃ r ∈ sm.nodeRanges nodeID, slot.toNat ∈ r.slots) ↔ slot ∈ sm.getNodeSlots nodeID := by
  have hperm := sortSlots_perm (sm.getNodeSlots nodeID)
  have hsorted : (sortSlots (sm.getNodeSlots nodeID)).Pairwise (· < ·) :=
    ((sortSlots_sorted _).and (hperm.nodup_iff.2 h)).imp fun hlt => UInt16.lt_of_le_of_ne hlt.1 hlt.2
  unfold nodeRanges
  split
  · next hnil =>
    rw [hnil] at hperm
    simp [hperm.symm.eq_nil]
  · next slot slots hcons =>
    rw [hcons] at hperm hsorted
    have hruns : RunsOf (slot :: slots) (slots.foldl growRun ([], ⟨slot, slot, nodeID⟩)) :=
      @RunsOf.foldl [slot] _ _ ⟨SlotRange.slots_singleton slot nodeID, .nil, nofun, le_rfl, by simp⟩ hsorted
    refine ⟨hruns.apart_all, ?_, fun s => ?_⟩
    · exact forall_mem_append.2 ⟨fun r hr => (hruns.before r hr).1, by simpa using hruns.ordered⟩
    · rw [← mem_flatMap, flatMap_append, flatMap_singleton, hruns.covers,
        mem_map_of_injective fun _ _ => UInt16.toNat_inj.1, hperm.mem_iff]

/-- A range is complete where its owner does not go on. -/
lemma ends_foldl (sm : SlotManager) {n : ℕ} (hn : n ≤ slotCount.toNat) :
    ∀ r ∈ (((range n).map UInt16.ofNat).foldl sm.growRange ([], none)).1, sm.ownerOf (r.stop.toNat + 1) ≠ r.nodeID := by
  induction n with
  | zero => exact nofun
  | succ n ih =>
    have hranged := sm.ranged_foldl (Nat.le_of_succ_le hn)
    have ih := ih (Nat.le_of_succ_le hn)
    rw [range_succ, map_append, foldl_append]
    generalize ((range n).map UInt16.ofNat).foldl sm.growRange ([], none) = acc at ih hranged ⊢
    obtain ⟨ranges, current⟩ := acc
    intro r hr
    by_cases hold : r ∈ ranges
    · exact ih r hold
    have hcur : r ∈ current ∧ (sm.ownerOf n = "" ∨ r.nodeID ≠ sm.ownerOf n) := by
      simp only [map_cons, map_nil, foldl_cons, foldl_nil, growRange] at hr
      cases current with grind [ownerOf]
    have hnamed := (hranged.owns r (mem_append_right _ (Option.mem_toList.2 hcur.1))).named
    rw [hranged.ends r hcur.1]
    rcases hcur.2 with hown | hown
    · rw [hown]
      exact hnamed.symm
    · exact hown.symm

end SlotManager

end AutoCache.Cluster
