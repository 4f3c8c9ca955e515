import AutoCache.Cluster.Admission
import AutoCache.Cluster.Listed

/-!
# The index of slot owners over whole runs

`GetNodeSlots` answers from the lists in `nodeSlots`, the router from the records. Every operation of the
manager keeps the two in agreement, and so does a restart: the lists are rebuilt in a pass over the slot
map and a second one over the saved replica sets. The second pass ranges over a Go map, so it meets the
replica sets in any order.
-/

namespace AutoCache.Cluster

namespace SlotManager

/-! ## A restart -/

/-- An order in which a range over the saved replica sets can meet the slots of the table. -/
structure ReplicaOrder (saved : SavedSlots) where
  met : List UInt16
  nodup : met.Nodup
  mem_iff : ∀ slot, slot ∈ met ↔ slot < slotCount ∧ (saved.slotReplicas slot).isSome

/-- The first pass of `RestoreFromState`. -/
def mapSlot (saved : SavedSlots) (sm : SlotManager) (slot : UInt16) : SlotManager :=
  if saved.slotMap slot ≠ "" then
    (sm.modify slot fun info => { info with nodeID := saved.slotMap slot }).listSlot
      (saved.slotMap slot) slot
  else sm

/-- The second pass. -/
def ownSlot (saved : SavedSlots) (sm : SlotManager) (slot : UInt16) : SlotManager :=
  match saved.slotReplicas slot with
  | some set => if set.primaryID ≠ "" then sm.setOwnerLocked slot set.primaryID else sm
  | none => sm

/-- `RestoreFromState`, whatever the order of the second pass. -/
def restoreInOrder (saved : SavedSlots) (order : List UInt16) : SlotManager where
  slots slot := if slotCount ≤ slot then {} else restoredInfo saved slot
  nodeSlots := (order.foldl (ownSlot saved) (allSlots.foldl (mapSlot saved) new)).nodeSlots

variable {sm sm' : SlotManager} {saved : SavedSlots} {slot s : UInt16} {slots order : List UInt16}

open List Function

lemma nodup_allSlots : allSlots.Nodup :=
  .of_map UInt16.toNat (map_toNat_allSlots ▸ nodup_range)

/-- The order of the slots themselves. -/
def ReplicaOrder.ofTable (saved : SavedSlots) : ReplicaOrder saved where
  met := allSlots.filter fun slot => (saved.slotReplicas slot).isSome
  nodup := nodup_allSlots.filter _
  mem_iff slot := by rw [mem_filter, mem_allSlots]

/-! ### The first pass -/

lemma mapSlot_nodeID : ((mapSlot saved sm slot).slots s).nodeID =
      if s = slot ∧ saved.slotMap slot ≠ "" then saved.slotMap slot else (sm.slots s).nodeID := by
  unfold mapSlot
  by_cases hmap : saved.slotMap slot = ""
  · simp [hmap]
  · rw [if_pos hmap, listSlot_slots, modify_slots]
    by_cases hs : s = slot
    · simp [hs, hmap]
    · simp [hs]

lemma WellListed.mapSlot (h : sm.WellListed) (hslot : slot < slotCount)
    (hfree : (sm.slots slot).nodeID = "") : (mapSlot saved sm slot).WellListed := by
  by_cases hmap : saved.slotMap slot = ""
  · rwa [SlotManager.mapSlot, if_neg (not_not.2 hmap)]
  have hkept : ∀ id, id ≠ "" → (sm.listedSlots id).erase slot = sm.listedSlots id := fun id hid =>
    h.erase_eq hid fun heq => hid (heq.symm.trans hfree)
  have hlist : ∀ id, (SlotManager.mapSlot saved sm slot).listedSlots id =
      if id = saved.slotMap slot then sm.listedSlots (saved.slotMap slot) ++ [slot]
      else sm.listedSlots id := by
    intro id
    rw [SlotManager.mapSlot, if_pos hmap, listedSlots_listSlot, listedSlots_modify, listedSlots_modify]
  refine h.give (saved.slotMap slot) hslot ?_ ?_ ?_ ?_
  · rw [mapSlot_nodeID, if_pos ⟨rfl, hmap⟩]
  · intro s hs
    rw [mapSlot_nodeID, if_neg fun hc => hs hc.1]
  · intro id hid hne
    rw [hlist, if_neg hne, hkept id hid]
  · intro hne
    left
    rw [hlist, if_pos rfl, hkept _ hne]

lemma WellListed.foldl_mapSlot (h : sm.WellListed) (hnd : slots.Nodup)
    (hsl : ∀ s ∈ slots, s < slotCount ∧ (sm.slots s).nodeID = "") :
    (slots.foldl (SlotManager.mapSlot saved) sm).WellListed := by
  induction slots generalizing sm with
  | nil => exact h
  | cons slot slots ih =>
    obtain ⟨hout, hnd⟩ := nodup_cons.1 hnd
    obtain ⟨hslot, hrest⟩ := forall_mem_cons.1 hsl
    refine ih (h.mapSlot hslot.1 hslot.2) hnd fun s hs => ⟨(hrest s hs).1, ?_⟩
    have hne : ¬(s = slot ∧ saved.slotMap slot ≠ "") := fun hc => hout (hc.1 ▸ hs)
    rw [mapSlot_nodeID, if_neg hne]
    exact (hrest s hs).2

lemma foldl_mapSlot_nodeID : ((slots.foldl (mapSlot saved) sm).slots s).nodeID =
      if s ∈ slots ∧ saved.slotMap s ≠ "" then saved.slotMap s else (sm.slots s).nodeID := by
  induction slots generalizing sm with
  | nil => simp
  | cons slot slots ih =>
    rw [foldl_cons, ih, mapSlot_nodeID]
    by_cases hs : s = slot
    · subst hs
      by_cases hmap : saved.slotMap s = "" <;> simp [hmap]
    · simp [hs]

/-! ### The second pass -/

lemma ownSlot_eq (saved : SavedSlots) (sm : SlotManager) (slot : UInt16) :
    ownSlot saved sm slot = sm ∧ restoredOwner saved slot = saved.slotMap slot ∨
      ownSlot saved sm slot = sm.setOwnerLocked slot (restoredOwner saved slot) := by
  unfold ownSlot restoredOwner
  cases saved.slotReplicas slot with
  | none => exact .inl ⟨rfl, rfl⟩
  | some set =>
    by_cases hprim : set.primaryID = ""
    · exact .inl ⟨if_neg (not_not.2 hprim), if_neg (not_not.2 hprim)⟩
    · dsimp only
      rw [if_pos hprim, if_pos hprim]
      exact .inr rfl

lemma WellListed.foldl_ownSlot (h : sm.WellListed) (hsl : ∀ s ∈ slots, s < slotCount) :
    (slots.foldl (ownSlot saved) sm).WellListed := by
  induction slots generalizing sm with
  | nil => exact h
  | cons slot slots ih =>
    obtain ⟨hslot, hrest⟩ := forall_mem_cons.1 hsl
    refine ih ?_ hrest
    rcases ownSlot_eq saved sm slot with ⟨heq, -⟩ | heq
    · rwa [heq]
    · rw [heq]
      exact h.setOwnerLocked hslot

lemma ownSlot_nodeID_of_ne (hs : s ≠ slot) : ((ownSlot saved sm slot).slots s).nodeID = (sm.slots s).nodeID := by
  rcases ownSlot_eq saved sm slot with ⟨heq, -⟩ | heq
  · rw [heq]
  · rw [heq, setOwnerLocked_slots, update_of_ne hs]

lemma foldl_ownSlot_nodeID_of_not_mem (hs : s ∉ slots) :
    ((slots.foldl (ownSlot saved) sm).slots s).nodeID = (sm.slots s).nodeID := by
  induction slots generalizing sm with
  | nil => rfl
  | cons slot slots ih =>
    rw [foldl_cons, ih (not_mem_of_not_mem_cons hs), ownSlot_nodeID_of_ne (ne_of_not_mem_cons hs)]

lemma foldl_ownSlot_nodeID (hs : s ∈ slots)
    (hsm : (sm.slots s).nodeID = saved.slotMap s ∨ (sm.slots s).nodeID = restoredOwner saved s) :
    ((slots.foldl (ownSlot saved) sm).slots s).nodeID = restoredOwner saved s := by
  induction slots generalizing sm with
  | nil => cases hs
  | cons slot slots ih =>
    have hstep : ((ownSlot saved sm s).slots s).nodeID = restoredOwner saved s := by
      rcases ownSlot_eq saved sm s with ⟨heq, hown⟩ | heq
      · rw [heq]
        exact hsm.elim (·.trans hown.symm) id
      · rw [heq, setOwnerLocked_slots, update_self]
    rw [foldl_cons]
    by_cases hin : s ∈ slots
    · refine ih hin ?_
      by_cases hslot : s = slot
      · exact .inr (hslot ▸ hstep)
      · rwa [ownSlot_nodeID_of_ne hslot]
    · rw [foldl_ownSlot_nodeID_of_not_mem hin]
      exact (mem_cons.1 hs).resolve_right hin ▸ hstep

/-! ### The outcome -/

lemma restoredInfo_nodeID : (restoredInfo saved s).nodeID = restoredOwner saved s := by
  unfold restoredInfo
  cases saved.slotReplicas s <;> cases saved.migratingSlots s with
  | none => rfl
  | some migration => rcases migration with ⟨_, _, _ | _ | _⟩ <;> rfl

lemma restoreInOrder_slots_of_lt (hs : s < slotCount) :
    (restoreInOrder saved order).slots s = restoredInfo saved s := if_neg (UInt16.not_le.2 hs)

lemma restoreInOrder_slots_of_ge (hs : slotCount ≤ s) : (restoreInOrder saved order).slots s = {} :=
  if_pos hs

lemma restoredOwner_of_not_mem (hall : ∀ s < slotCount, (saved.slotReplicas s).isSome → s ∈ order)
    (hs : s < slotCount) (hout : s ∉ order) : restoredOwner saved s = saved.slotMap s := by
  unfold restoredOwner
  cases hset : saved.slotReplicas s with
  | none => rfl
  | some set => exact absurd (hall s hs (by rw [hset]; rfl)) hout

/-- **A restart rebuilds the lists.** -/
lemma wellListed_restoreInOrder (hlt : ∀ s ∈ order, s < slotCount)
    (hall : ∀ s < slotCount, (saved.slotReplicas s).isSome → s ∈ order) :
    (restoreInOrder saved order).WellListed := by
  have hmapped : (allSlots.foldl (mapSlot saved) new).WellListed :=
    wellListed_new.foldl_mapSlot nodup_allSlots fun s hs => ⟨mem_allSlots.1 hs, rfl⟩
  refine (hmapped.foldl_ownSlot hlt).congr rfl fun s => ?_
  by_cases hs : s < slotCount
  · have hmap : ((allSlots.foldl (mapSlot saved) new).slots s).nodeID = saved.slotMap s := by
      rw [foldl_mapSlot_nodeID]
      by_cases hempty : saved.slotMap s = ""
      · rw [if_neg fun hc => hc.2 hempty, hempty]
        rfl
      · rw [if_pos ⟨mem_allSlots.2 hs, hempty⟩]
    rw [restoreInOrder_slots_of_lt hs, restoredInfo_nodeID]
    by_cases hin : s ∈ order
    · rw [foldl_ownSlot_nodeID hin (.inl hmap)]
    · rw [foldl_ownSlot_nodeID_of_not_mem hin, hmap, restoredOwner_of_not_mem hall hs hin]
  · have hout : s ∉ order := fun hin => hs (hlt s hin)
    rw [restoreInOrder_slots_of_ge (UInt16.not_lt.1 hs), foldl_ownSlot_nodeID_of_not_mem hout,
      foldl_mapSlot_nodeID, if_neg fun hc => hs (mem_allSlots.1 hc.1)]
    rfl

/-! ## Runs -/

/-- **Every operation keeps the lists in agreement with the records.** -/
lemma WellListed.act {a : SlotAct} (h : sm.WellListed) (hact : sm.act a = .ok sm') : sm'.WellListed := by
  cases a with try cases hact
  | assignSlot slot nodeID =>
    exact orSame_keeps h fun _ => h.assignSlot
  | assignSlotRange start stop nodeID =>
    exact assignSlots_keeps .assignSlot h _
  | setSlotConfigEpoch slot epoch =>
    exact h.setSlotConfigEpoch epoch
  | configureReplication slot primaryID replicaIDs epoch =>
    refine orSame_keeps h fun _ hok => ?_
    unfold configureReplication at hok
    split at hok
    · cases hok
    · next hslot =>
      cases hok
      exact (h.setOwnerLocked (UInt16.not_le.1 hslot)).modify fun _ => rfl
  | addSlotReplica slot replicaID =>
    exact h.addSlotReplica
  | addReplicaToMaster masterID replicaID epoch =>
    cases hadd : sm.addReplicaToMaster masterID replicaID epoch with
    | none => exact h
    | some sm' => exact h.addReplicaToMaster hadd
  | allocateLSN slot => exact allocateLSN_keeps hact h fun _ => h.modify fun _ => rfl
  | updateReplicaLSN slot nodeID lsn =>
    refine orSame_keeps h fun _ hok => ?_
    unfold updateReplicaLSN at hok
    split_ifs at hok
    split at hok
    · cases hok
    · cases hok
      exact h.modify fun _ => rfl
  | promoteReplica slot nodeID =>
    refine orSame_keeps h fun _ hok => ?_
    unfold promoteReplica at hok
    split_ifs at hok with hslot
    dsimp only at hok
    split at hok
    · cases hok
    · cases hok
      exact (h.setOwnerLocked (UInt16.not_le.1 hslot)).modify fun _ => rfl
  | setImporting slot fromNodeID | setExporting slot toNodeID | setStable slot =>
    exact checked_keeps hact (h.modify fun _ => rfl)
  | finishMigration slot newNodeID => exact h.finishMigration hact
  | restoreFromState saved =>
    exact wellListed_restoreInOrder (fun _ => mem_allSlots.1) fun _ hs _ => mem_allSlots.2 hs

end SlotManager

/-- An operation of the slot manager, or a restart that meets the saved replica sets in some order. -/
inductive OwnerStep where
  | act (a : SlotAct)
  | restart (saved : SavedSlots) (order : SlotManager.ReplicaOrder saved)

namespace SlotManager

def ownerStep (sm : SlotManager) : OwnerStep → Go SlotManager
  | .act a => sm.act a
  | .restart saved order => return restoreInOrder saved order.met

/-- What the lists and the records say of the owners. -/
structure Owned (sm : SlotManager) : Prop where
  listed : sm.WellListed
  settled : sm.Settled

variable {sm sm' : SlotManager}

lemma owned_new : new.Owned := ⟨wellListed_new, settled_new⟩

lemma Owned.ownerStep {step : OwnerStep} (h : sm.Owned) (hstep : sm.ownerStep step = .ok sm') : sm'.Owned := by
  cases step with
  | act a => exact ⟨h.listed.act hstep, h.settled.act hstep⟩
  | restart saved order =>
    cases hstep
    refine ⟨wellListed_restoreInOrder ?_ ?_, fun s => settled_restoreFromState saved s⟩
    · intro s hs
      exact ((order.mem_iff s).1 hs).1
    · intro s hs hset
      exact (order.mem_iff s).2 ⟨hs, hset⟩

lemma owned_run {steps : List OwnerStep} (hrun : Runs.run ownerStep new steps = .ok sm) : sm.Owned :=
  Runs.run_invariant (fun _ _ _ h hstep => h.ownerStep hstep) owned_new hrun

def getNodeSlots (sm : SlotManager) (nodeID : String) : List UInt16 := sm.listedSlots nodeID

/-- **The slot ownership index.** After any operations and restarts a node's list holds exactly its
slots, each once, and the primary of every slot is its owner. -/
theorem getNodeSlots_exact (steps : List OwnerStep) (sm : SlotManager)
    (hrun : Runs.run ownerStep new steps = .ok sm) :
    (∀ n ≠ "", (sm.getNodeSlots n).Nodup ∧
      ∀ s, s ∈ sm.getNodeSlots n ↔ s < slotCount ∧ (sm.slots s).nodeID = n) ∧
    ∀ s, (sm.slots s).primaryID = (sm.slots s).nodeID := by
  have howned := owned_run hrun
  refine ⟨fun n hn => ⟨howned.listed.nodup n hn, howned.listed.mem_iff n hn⟩, howned.settled⟩

/-- A slot that was assigned twice. -/
theorem getNodeSlots_reassigned :
    ∃ sm, Runs.run ownerStep new [.act (.assignSlot 0 "a"), .act (.assignSlot 0 "b")] = .ok sm ∧
      ∀ s, s ∈ sm.getNodeSlots "b" ↔ s < slotCount ∧ (sm.slots s).nodeID = "b" :=
  ⟨_, rfl, ((getNodeSlots_exact [.act (.assignSlot 0 "a"), .act (.assignSlot 0 "b")] _ rfl).1 "b"
    (by decide)).2⟩

end SlotManager

end AutoCache.Cluster
