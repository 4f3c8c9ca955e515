import Mathlib.Data.Multiset.Basic
import AutoCache.Cluster.Gossip

/-!
# Whether nodes converge

Two nodes that hear the same claims in different orders. Each slot is a register, and a register
ends with a claim of the largest epoch; which one, when there are several, is a matter of order:
the first for a positive epoch, the last for epoch zero.
-/

namespace AutoCache.Cluster

open SlotManager

structure SlotClaim where
  owner : String
  slot : UInt16
  epoch : UInt64
  deriving DecidableEq, Repr

def SlotClaim.info (c : SlotClaim) : NodeInfo :=
  { id := c.owner, role := some .master, masterID := "", configEpoch := c.epoch, slots := [c.slot] }

def SlotClaim.register (c : SlotClaim) : Register String := ⟨c.owner, c.epoch.toNat⟩

namespace Gossip

variable {g : Gossip} {cs : List SlotClaim} {slot : UInt16}

/-- Claims processed one after the other, as direct reports. -/
def hear (g : Gossip) (cs : List SlotClaim) : Gossip :=
  cs.foldl (fun g c => g.processNodeInfo c.info true) g

/-- No owner and no epoch is recorded for any slot. -/
def Blank (g : Gossip) : Prop :=
  ∀ slot, g.slots.getSlotNode slot = "" ∧ g.slots.getSlotConfigEpoch slot = 0 ∧
    g.slotEpochs slot = 0

lemma Blank.epoch_eq (h : g.Blank) (slot : UInt16) : (g.register slot).epoch = 0 := by
  change (g.seenEpoch slot).toNat = 0
  rw [seenEpoch_toNat, (h slot).2.1, (h slot).2.2]
  rfl

def claimsOn (slot : UInt16) (cs : List SlotClaim) : List (Register String) :=
  (cs.filter fun c => c.slot = slot).map SlotClaim.register

lemma mem_claimsOn {r : Register String} : r ∈ claimsOn slot cs ↔ ∃ c ∈ cs, c.slot = slot ∧ c.register = r := by
  simp [claimsOn, and_assoc]

/-- **What is heard is claimed**, slot by slot. -/
lemma register_hear (hslot : slot < slotCount) (cs : List SlotClaim) :
    (g.hear cs).register slot = (g.register slot).claims (claimsOn slot cs) := by
  induction cs generalizing g with
  | nil => rfl
  | cons c cs ih =>
    have hstep : (g.processNodeInfo c.info true).register slot =
        if c.slot = slot then (g.register slot).claim c.register else g.register slot := by
      rw [register_processNodeInfo hslot]
      simp [learn, SlotClaim.info, SlotClaim.register, eq_comm]
    change ((g.processNodeInfo c.info true).hear cs).register slot = _
    rw [ih, hstep]
    by_cases hc : c.slot = slot
    · simp [claimsOn, hc]
    · simp [claimsOn, hc]

lemma owner_hear (hslot : slot < slotCount) (cs : List SlotClaim) :
    (g.hear cs).slots.getSlotNode slot = ((g.register slot).claims (claimsOn slot cs)).owner :=
  congrArg Register.owner (register_hear hslot cs)

/-- No claim on the slot has a larger epoch. -/
def IsTop (claims : Multiset SlotClaim) (c : SlotClaim) : Prop :=
  ∀ d ∈ claims, d.slot = c.slot → d.epoch ≤ c.epoch

lemma owner_hear_top (hblank : g.Blank) {claims : Multiset SlotClaim}
    (hcs : ∀ c, c ∈ cs ↔ c ∈ claims) (hslot : slot < slotCount)
    (hsome : ∃ c ∈ claims, c.slot = slot) :
    ∃ c ∈ claims, c.slot = slot ∧ IsTop claims c ∧ (g.hear cs).slots.getSlotNode slot = c.owner := by
  obtain ⟨c₀, hc₀, hslot₀⟩ := hsome
  have hmem₀ : c₀.register ∈ claimsOn slot cs := mem_claimsOn.2 ⟨c₀, (hcs c₀).2 hc₀, hslot₀, rfl⟩
  have hfinal : (g.register slot).claims (claimsOn slot cs) ∈ claimsOn slot cs :=
    Register.claims_mem_of_blank (hblank.epoch_eq slot) (List.ne_nil_of_mem hmem₀)
  obtain ⟨c, hc, hcslot, hreg⟩ := mem_claimsOn.1 hfinal
  refine ⟨c, (hcs c).1 hc, hcslot, ?_, ?_⟩
  · intro d hd hdslot
    have hle := Register.epoch_le_claims (r := g.register slot) (mem_claimsOn.2 ⟨d, (hcs d).2 hd, hdslot.trans hcslot, rfl⟩)
    rw [← hreg] at hle
    exact UInt64.le_iff_toNat_le.2 hle
  · rw [owner_hear hslot, ← hreg]
    rfl

lemma owner_hear_decided (hblank : g.Blank) {claims : List SlotClaim} {c : SlotClaim}
    (hslot : c.slot < slotCount) (htop : IsTop claims c) :
    (g.hear (c :: claims ++ [c])).slots.getSlotNode c.slot = c.owner := by
  have hclaims : claimsOn c.slot (c :: claims ++ [c]) = c.register :: claimsOn c.slot claims ++ [c.register] := by
    simp [claimsOn]
  rw [owner_hear hslot, hclaims, Register.claims_decided (hblank.epoch_eq c.slot)]
  · rfl
  · intro r hr
    obtain ⟨d, hd, hdslot, rfl⟩ := mem_claimsOn.1 hr
    exact UInt64.le_iff_toNat_le.1 (htop d hd hdslot)

def blank : Gossip := ⟨∅, .new, fun _ => 0, 0⟩

lemma blank_blank : blank.Blank := by
  intro slot
  refine ⟨?_, ?_, rfl⟩
  · simp [blank, getSlotNode, new]
  · simp [blank, getSlotConfigEpoch, new]

/-- **Convergence.** Blank nodes that hear the same claims, in any order and any number of times,
agree on the owner of every slot exactly when the largest epoch claimed for a slot is claimed by one
owner only. -/
theorem hear_converges_iff (claims : Multiset SlotClaim) :
    (∀ g g' : Gossip, g.Blank → g'.Blank → ∀ cs cs' : List SlotClaim,
      (∀ c, c ∈ cs ↔ c ∈ claims) → (∀ c, c ∈ cs' ↔ c ∈ claims) →
      ∀ slot, (g.hear cs).slots.getSlotNode slot = (g'.hear cs').slots.getSlotNode slot) ↔
    ∀ c ∈ claims, ∀ c' ∈ claims, c.slot = c'.slot → c.slot < slotCount → IsTop claims c →
      IsTop claims c' → c.owner = c'.owner := by
  constructor
  · intro hagree c hc c' hc' hslot hlt htop htop'
    obtain ⟨l, rfl⟩ : ∃ l : List SlotClaim, claims = l := ⟨claims.toList, by simp⟩
    have hmem : ∀ d ∈ l, ∀ x, x ∈ d :: l ++ [d] ↔ x ∈ (l : Multiset SlotClaim) := by
      intro d hd x
      rw [Multiset.mem_coe]
      constructor
      · intro hx
        rcases List.mem_append.1 hx with hx | hx
        · rcases List.mem_cons.1 hx with rfl | hx
          · exact hd
          · exact hx
        · rw [List.mem_singleton.1 hx]
          exact hd
      · intro hx
        exact List.mem_append_left _ (List.mem_cons_of_mem _ hx)
    have h := hagree blank blank blank_blank blank_blank _ _ (hmem c hc) (hmem c' hc') c.slot
    rw [owner_hear_decided blank_blank hlt htop] at h
    rw [hslot, owner_hear_decided blank_blank (hslot ▸ hlt) htop'] at h
    exact h
  · intro hunique g g' hg hg' cs cs' hcs hcs' slot
    by_cases hlt : slot < slotCount
    · by_cases hsome : ∃ c ∈ claims, c.slot = slot
      · obtain ⟨c, hc, hcslot, htop, hown⟩ := owner_hear_top hg hcs hlt hsome
        obtain ⟨c', hc', hcslot', htop', hown'⟩ := owner_hear_top hg' hcs' hlt hsome
        rw [hown, hown']
        exact hunique c hc c' hc' (hcslot.trans hcslot'.symm) (hcslot ▸ hlt) htop htop'
      · -- nothing was claimed: both registers are as they were
        have hnone : ∀ l : List SlotClaim, (∀ c, c ∈ l ↔ c ∈ claims) → claimsOn slot l = [] := by
          intro l hl
          rw [List.eq_nil_iff_forall_not_mem]
          intro r hr
          obtain ⟨c, hc, hcslot, -⟩ := mem_claimsOn.1 hr
          exact hsome ⟨c, (hl c).1 hc, hcslot⟩
        rw [owner_hear hlt, owner_hear hlt, hnone cs hcs, hnone cs' hcs']
        exact (hg slot).1.trans (hg' slot).1.symm
    · have hge : slotCount ≤ slot := UInt16.not_lt.1 hlt
      simp [getSlotNode, hge]

/-- **No convergence.** `a` and `b` claim slot 0 with epoch 1: whoever is heard first keeps it. -/
theorem hear_diverges :
    (blank.hear [⟨"a", 0, 1⟩, ⟨"b", 0, 1⟩]).slots.getSlotNode 0 = "a" ∧
      (blank.hear [⟨"b", 0, 1⟩, ⟨"a", 0, 1⟩]).slots.getSlotNode 0 = "b" := by
  rw [owner_hear (by decide), owner_hear (by decide)]
  decide

end Gossip

end AutoCache.Cluster
