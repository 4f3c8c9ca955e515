import AutoCache.Cluster.Gossip

/-!
# The reverse index of the slot manager

`nodeSlots` lists for each node the slots it owns. Announcements are made from these lists, while
the router looks at the records, so what a node says of itself is only as good as the agreement of
the two. Every operation of the manager and of gossip keeps them in agreement.
-/

namespace AutoCache.Cluster

open Function

namespace SlotManager

variable {sm sm' : SlotManager} {slot s : UInt16} {id nodeID : String}

/-- The lists agree with the records. Slots without an owner may be listed under the empty name,
which nobody asks for. -/
structure WellListed (sm : SlotManager) : Prop where
  mem_iff : ∀ id, id ≠ "" → ∀ s, s ∈ sm.listedSlots id ↔ s < slotCount ∧ (sm.slots s).nodeID = id
  nodup : ∀ id, id ≠ "" → (sm.listedSlots id).Nodup

/-! ## The lists after each operation -/

lemma listedSlots_removeSlotFromNode : (sm.removeSlotFromNode nodeID slot).listedSlots id =
      if id = nodeID then (sm.listedSlots nodeID).erase slot else sm.listedSlots id := by
  unfold removeSlotFromNode
  split
  · simp only [listedSlots, GoMap.lookup_insert_eq]
    split <;> rfl
  · next hmem =>
    rw [List.erase_of_not_mem hmem]
    split
    · next hid => rw [hid]
    · rfl

lemma listedSlots_listSlot : (sm.listSlot nodeID slot).listedSlots id =
      if id = nodeID then sm.listedSlots nodeID ++ [slot] else sm.listedSlots id := by
  simp only [listedSlots, listSlot, GoMap.lookup_insert_eq]
  split <;> rfl

lemma listedSlots_modify {f : SlotInfo → SlotInfo} : (sm.modify slot f).listedSlots id = sm.listedSlots id := rfl

/-! ## Agreement is kept -/

lemma wellListed_new : new.WellListed := by
  refine ⟨fun id hid s => ?_, fun id _ => ?_⟩
  · simp [new, listedSlots, hid.symm]
  · simp [new, listedSlots]

section

variable (h : sm.WellListed)
include h

lemma WellListed.congr (hlist : sm'.nodeSlots = sm.nodeSlots)
    (hnode : ∀ s, (sm'.slots s).nodeID = (sm.slots s).nodeID) : sm'.WellListed := by
  have hlst : ∀ id, sm'.listedSlots id = sm.listedSlots id := by
    intro id
    rw [listedSlots, hlist, listedSlots]
  constructor
  · intro id hid s
    rw [hlst, hnode]
    exact h.mem_iff id hid s
  · intro id hid
    rw [hlst]
    exact h.nodup id hid

lemma WellListed.modify {f : SlotInfo → SlotInfo} (hf : ∀ info, (f info).nodeID = info.nodeID) :
    (sm.modify slot f).WellListed := by
  refine h.congr rfl fun s => ?_
  rw [modify_slots]
  by_cases hs : s = slot
  · rw [hs, update_self, hf]
  · rw [update_of_ne hs]

lemma WellListed.give (nodeID : String) (hslot : slot < slotCount) (hself : (sm'.slots slot).nodeID = nodeID)
    (hothers : ∀ s, s ≠ slot → (sm'.slots s).nodeID = (sm.slots s).nodeID)
    (hold : ∀ id, id ≠ "" → id ≠ nodeID → sm'.listedSlots id = (sm.listedSlots id).erase slot)
    (hnew : nodeID ≠ "" → sm'.listedSlots nodeID = (sm.listedSlots nodeID).erase slot ++ [slot] ∨
      slot ∈ sm.listedSlots nodeID ∧ sm'.listedSlots nodeID = sm.listedSlots nodeID) :
    sm'.WellListed := by
  have hmem : ∀ id, id ≠ "" → ∀ s, s ∈ sm'.listedSlots id ↔ if s = slot then id = nodeID else s ∈ sm.listedSlots id := by
    intro id hid s
    by_cases hnode : id = nodeID
    · subst hnode
      rcases hnew hid with hl | ⟨hin, hl⟩
      · rw [hl, List.mem_append, (h.nodup id hid).mem_erase_iff, List.mem_singleton]
        by_cases hs : s = slot <;> simp [hs]
      · rw [hl]
        by_cases hs : s = slot
        · simp [hs, hin]
        · simp [hs]
    · rw [hold id hid hnode, (h.nodup id hid).mem_erase_iff]
      by_cases hs : s = slot <;> simp [hs, hnode]
  constructor
  · intro id hid s
    rw [hmem id hid s]
    by_cases hs : s = slot
    · subst hs
      simp [hslot, hself, eq_comm]
    · rw [if_neg hs, hothers s hs, h.mem_iff id hid s]
  · intro id hid
    by_cases hnode : id = nodeID
    · subst hnode
      rcases hnew hid with hl | ⟨-, hl⟩
      · rw [hl, List.nodup_append_comm, List.singleton_append, List.nodup_cons]
        exact ⟨(h.nodup id hid).not_mem_erase, (h.nodup id hid).erase slot⟩
      · rw [hl]
        exact h.nodup id hid
    · rw [hold id hid hnode]
      exact (h.nodup id hid).erase slot

lemma WellListed.erase_eq (hid : id ≠ "") (hnode : (sm.slots slot).nodeID ≠ id) :
    (sm.listedSlots id).erase slot = sm.listedSlots id :=
  List.erase_of_not_mem fun hmem => hnode ((h.mem_iff id hid slot).1 hmem).2

lemma WellListed.assignSlot (hsm : sm.assignSlot slot nodeID = .ok sm') : sm'.WellListed := by
  obtain ⟨hslot, hsl⟩ := of_assignSlot_eq_ok _ _ hsm
  have hlist : ∀ id, id ≠ "" → sm'.listedSlots id = if id = nodeID then (sm.listedSlots id).erase slot ++ [slot]
      else (sm.listedSlots id).erase slot := by
    intro id hid
    have hremoved : ∀ id, id ≠ "" → (if (sm.slots slot).nodeID ≠ "" then sm.removeSlotFromNode (sm.slots slot).nodeID slot
          else sm).listedSlots id = (sm.listedSlots id).erase slot := by
      intro id hid
      split
      · rw [listedSlots_removeSlotFromNode]
        split
        · next heq => rw [heq]
        · next hne => rw [h.erase_eq hid (Ne.symm hne)]
      · next hempty => rw [h.erase_eq hid fun heq => hid (heq ▸ not_not.1 hempty)]
    unfold SlotManager.assignSlot at hsm
    rw [if_neg (UInt16.not_le.2 hslot)] at hsm
    cases hsm
    rw [listedSlots_listSlot, listedSlots_modify]
    split
    · next heq => rw [← heq, hremoved id hid]
    · exact hremoved id hid
  refine h.give nodeID hslot (by rw [hsl, update_self]) ?_ ?_ ?_
  · intro s hs
    rw [hsl, update_of_ne hs]
  · intro id hid hne
    rw [hlist id hid, if_neg hne]
  · intro hne
    left
    rw [hlist nodeID hne, if_pos rfl]

lemma WellListed.setOwnerLocked (hslot : slot < slotCount) : (sm.setOwnerLocked slot nodeID).WellListed := by
  -- the manager before the slot is listed for its new owner
  let sm₁ := if (sm.slots slot).nodeID ≠ "" ∧ (sm.slots slot).nodeID ≠ nodeID
    then sm.removeSlotFromNode (sm.slots slot).nodeID slot else sm
  have hremoved : ∀ id, sm₁.listedSlots id =
      if (sm.slots slot).nodeID ≠ "" ∧ (sm.slots slot).nodeID ≠ nodeID ∧ id = (sm.slots slot).nodeID
      then (sm.listedSlots id).erase slot else sm.listedSlots id := by
    intro id
    by_cases hold : (sm.slots slot).nodeID ≠ "" ∧ (sm.slots slot).nodeID ≠ nodeID
    · simp only [sm₁, if_pos hold, listedSlots_removeSlotFromNode]
      by_cases hid : id = (sm.slots slot).nodeID
      · simp only [hid, hold, ne_eq, not_false_eq_true, and_self, if_true]
      · simp only [hid, and_false, if_false]
    · rw [if_neg fun hc => hold ⟨hc.1, hc.2.1⟩]
      simp only [sm₁, if_neg hold]
  have hlist : ∀ id, (sm.setOwnerLocked slot nodeID).listedSlots id =
      if nodeID ≠ "" ∧ slot ∉ sm₁.listedSlots nodeID ∧ id = nodeID
      then sm₁.listedSlots nodeID ++ [slot] else sm₁.listedSlots id := by
    intro id
    unfold SlotManager.setOwnerLocked
    by_cases hempty : nodeID = ""
    · simp [hempty, sm₁, listedSlots_modify]
    · by_cases hin : slot ∈ sm₁.listedSlots nodeID
      · simp [hempty, hin, sm₁, listedSlots_modify]
      · simp [hempty, hin, sm₁, listedSlots_modify, listedSlots_listSlot]
  refine h.give nodeID hslot (by rw [setOwnerLocked_slots, update_self]) ?_ ?_ ?_
  · intro s hs
    rw [setOwnerLocked_slots, update_of_ne hs]
  · intro id hid hne
    rw [hlist, if_neg fun hc => hne hc.2.2, hremoved]
    split
    · rfl
    · next hkept =>
      rw [h.erase_eq hid]
      intro heq
      exact hkept ⟨heq ▸ hid, heq ▸ hne, heq.symm⟩
  · intro hne
    have hsame : sm₁.listedSlots nodeID = sm.listedSlots nodeID := by
      rw [hremoved, if_neg fun hc => hc.2.1 hc.2.2.symm]
    rw [hlist, hsame]
    by_cases hin : slot ∈ sm.listedSlots nodeID
    · simp [hin]
    · left
      rw [if_pos ⟨hne, hin, rfl⟩, List.erase_of_not_mem hin]

lemma WellListed.finishMigration (hsm : sm.finishMigration slot nodeID = .ok sm') : sm'.WellListed := by
  unfold SlotManager.finishMigration at hsm
  split at hsm
  · cases hsm
  · next hslot =>
    cases hsm
    exact (h.setOwnerLocked (UInt16.not_le.1 hslot)).modify fun _ => rfl

lemma WellListed.setSlotConfigEpoch (epoch : UInt64) : (sm.setSlotConfigEpoch slot epoch).WellListed := by
  unfold SlotManager.setSlotConfigEpoch
  split
  · exact h
  · exact h.modify fun _ => rfl

lemma WellListed.addSlotReplica : (sm.addSlotReplica slot nodeID).WellListed := by
  unfold SlotManager.addSlotReplica
  split_ifs
  · exact h
  · exact h
  · exact h
  · exact h.modify fun _ => rfl

lemma WellListed.addReplicaToMaster {replicaID : String} {epoch : UInt64}
    (hsm : sm.addReplicaToMaster nodeID replicaID epoch = some sm') : sm'.WellListed := by
  unfold SlotManager.addReplicaToMaster at hsm
  split at hsm
  · cases hsm
  · cases hsm
    refine h.congr rfl fun s => ?_
    dsimp only
    split
    · rfl
    · rfl

end

end SlotManager

namespace Gossip

variable {g : Gossip} {self id masterID : String} {slot : UInt16} {epoch : UInt64}

/-! ## Agreement of a node -/

lemma wellListed_applySlot (h : g.slots.WellListed) : (g.applySlot id epoch slot).slots.WellListed := by
  unfold applySlot
  split
  · exact h
  split
  · split
    · exact h
    · next sm hsm =>
      rw [recordSlotEpoch_slots]
      exact h.assignSlot hsm
  · rw [recordSlotEpoch_slots]
    exact h

lemma wellListed_registerReplica {info : NodeInfo} {direct : Bool} (h : g.slots.WellListed) :
    (g.registerReplica info direct).slots.WellListed := by
  have hfold : ∀ (slots : List UInt16) (sm : SlotManager), sm.WellListed →
      (slots.foldl (fun sm slot => sm.addSlotReplica slot info.id) sm).WellListed := by
    intro slots
    induction slots with
    | nil => exact fun _ hsm => hsm
    | cons slot slots ih => exact fun sm hsm => ih _ hsm.addSlotReplica
  unfold registerReplica
  split
  · exact hfold _ _ h
  · exact h

/-- **A message keeps the lists in agreement with the records.** -/
lemma wellListed_handleMessage (msg : Message) (h : g.slots.WellListed) : (g.handleMessage msg).slots.WellListed :=
  handleMessage_rule (P := fun g => g.slots.WellListed)
    (fun _ _ _ _ hg => wellListed_registerReplica hg) (fun _ _ _ _ _ hg => wellListed_applySlot hg) h

lemma slots_slotEpoch : (g.slotEpoch slot).2.slots = g.slots := by
  unfold slotEpoch
  dsimp only
  split
  · exact recordSlotEpoch_slots
  · rfl

lemma slots_broadcastSlotOwnership {ownerID : String} : (g.broadcastSlotOwnership self slot ownerID).2.slots = g.slots := by
  unfold broadcastSlotOwnership
  split
  · rfl
  · exact slots_slotEpoch

lemma wellListed_takeOver (h : g.slots.WellListed) : (g.takeOver self masterID slot).2.slots.WellListed := by
  unfold takeOver
  split
  · exact h
  · rw [slots_broadcastSlotOwnership]
    refine SlotManager.WellListed.setSlotConfigEpoch ?_ _
    split
    · next sm hsm => exact h.assignSlot hsm
    · exact h

lemma wellListed_replicateTo (h : g.slots.WellListed) : (g.replicateTo self masterID).slots.WellListed := by
  unfold replicateTo
  split
  · exact h
  · split
    · exact h
    · dsimp only
      cases hsm : SlotManager.addReplicaToMaster _ _ _ _ with
      | none => exact h
      | some sm => exact SlotManager.WellListed.addReplicaToMaster (by exact h) hsm

lemma slots_handOver {msg : Option Message} {g' : Gossip} (hg : g.handOver self slot id = .ok (msg, g')) :
    g.slots.finishMigration slot id = .ok g'.slots := by
  obtain ⟨sm, hsm, hg⟩ := Go.bind_eq_ok.1 hg
  have hsl := congrArg (fun p => p.2.slots) (Except.ok.inj hg)
  rw [hsm, ← hsl, slots_broadcastSlotOwnership]

/-- **And so does a hand-over.** -/
lemma wellListed_handOver {msg : Option Message} {g' : Gossip} (h : g.slots.WellListed)
    (hg : g.handOver self slot id = .ok (msg, g')) : g'.slots.WellListed :=
  h.finishMigration (slots_handOver hg)

end Gossip

end AutoCache.Cluster
