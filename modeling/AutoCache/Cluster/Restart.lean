import AutoCache.Cluster.Ownership

/-!
# The slot table across a restart

The saved state has three parts with rules of their own for what is left out. Together they hold every
record: whatever operations and restarts led to a table, the table that is read back from its saved
state routes and admits as before.
-/

namespace AutoCache.Cluster

/-- The records agree in everything that the server acts on. The peer of a migration only counts while
the slot migrates that way. -/
structure SlotInfo.Survives (before after : SlotInfo) : Prop where
  nodeID : after.nodeID = before.nodeID
  primaryID : after.primaryID = before.primaryID
  state : after.state = before.state
  configEpoch : after.configEpoch = before.configEpoch
  nextLSN : after.nextLSN = before.nextLSN
  replicas : after.replicas = before.replicas
  exporting : before.state = .exporting → after.exporting = before.exporting
  importing : before.state = .importing → after.importing = before.importing

namespace SlotManager

variable {sm : SlotManager} {slot : UInt16}

/-! ## One record -/

lemma Settled.restoredOwner_save (h : sm.Settled) : restoredOwner sm.save slot = (sm.slots slot).nodeID := by
  simp only [restoredOwner, save, getSlotReplicationState]
  split_ifs
  · rfl
  · dsimp only
    rw [h slot]
    split <;> rfl

lemma getSlotReplicationState_cases (sm : SlotManager) (slot : UInt16) :
    sm.getSlotReplicationState slot = none ∧ (sm.slots slot).replicas = [] ∧
        (sm.slots slot).configEpoch = 0 ∧ (sm.slots slot).nextLSN = 0 ∨
      sm.getSlotReplicationState slot =
        some ⟨(sm.slots slot).primaryID, (sm.slots slot).replicas, (sm.slots slot).configEpoch, (sm.slots slot).nextLSN⟩ := by
  unfold getSlotReplicationState
  dsimp only
  split_ifs with hempty
  · exact .inl ⟨rfl, hempty.2⟩
  · exact .inr rfl

/-- **A record that is saved and read back** is the same up to the peers it no longer needs. -/
lemma Settled.restoredInfo_save (h : sm.Settled) (slot : UInt16) : restoredInfo sm.save slot = { sm.slots slot with
        importing := if (sm.slots slot).state = .importing then (sm.slots slot).importing else ""
        exporting := if (sm.slots slot).state = .exporting then (sm.slots slot).exporting else "" } := by
  have hsets : sm.save.slotReplicas slot = sm.getSlotReplicationState slot := rfl
  have hmigrations : sm.save.migratingSlots slot = sm.getMigratingSlots slot := rfl
  unfold restoredInfo
  rw [h.restoredOwner_save, hsets, hmigrations, getMigratingSlots]
  rcases sm.getSlotReplicationState_cases slot with ⟨hset, hreps, hep, hlsn⟩ | hset
  · cases hstate : (sm.slots slot).state <;> simp [hstate, hset, hreps, hep, hlsn, h slot]
  · cases hstate : (sm.slots slot).state <;> simp [hstate, hset, h slot]

lemma Settled.survives (h : sm.Settled) (slot : UInt16) : (sm.slots slot).Survives (restoredInfo sm.save slot) := by
  rw [h.restoredInfo_save slot]
  exact ⟨rfl, rfl, rfl, rfl, rfl, rfl, fun hstate => if_pos hstate, fun hstate => if_pos hstate⟩

end SlotManager

/-! ## Routing and admission -/

namespace View

variable (v : View) {sm sm' : SlotManager} {slot : UInt16}

lemma routeSlot_of_survives (h : (sm.slots slot).Survives (sm'.slots slot)) (askingFlag : Bool) :
    v.routeSlot sm' slot askingFlag = v.routeSlot sm slot askingFlag := by
  unfold routeSlot
  dsimp only
  rw [h.nodeID, h.state]
  split
  · rfl
  split
  · -- the target of an export is only looked at in an export
    by_cases hstate : (sm.slots slot).state = .exporting
    · rw [h.exporting hstate]
    · simp [hstate]
  · by_cases hstate : (sm.slots slot).state = .importing
    · rw [h.importing hstate]
    · simp [hstate]

lemma canAcceptWrite_of_survives {key : Bytes} (h : (sm.slots (v.keySlot key)).Survives (sm'.slots (v.keySlot key))) :
    v.canAcceptWrite sm' key = v.canAcceptWrite sm key := by
  unfold canAcceptWrite
  dsimp only
  rw [h.primaryID, h.nodeID]

end View

namespace SlotManager

/-- **The slot table survives a restart.** Whatever led to the table, and in whatever order the replica
sets are read back, every record survives; every node routes and admits as before. -/
theorem restart_survives (steps : List OwnerStep) (sm : SlotManager)
    (hrun : Runs.run ownerStep new steps = .ok sm) (order : ReplicaOrder sm.save) :
    (∀ slot < slotCount, (sm.slots slot).Survives ((restoreInOrder sm.save order.met).slots slot)) ∧
    ∀ v : View, (∀ key askingFlag,
        v.route (restoreInOrder sm.save order.met) key askingFlag = v.route sm key askingFlag) ∧
      (∀ keys, v.routeMulti (restoreInOrder sm.save order.met) keys = v.routeMulti sm keys) ∧
      ∀ key, v.canAcceptWrite (restoreInOrder sm.save order.met) key = v.canAcceptWrite sm key := by
  have howned : sm.Owned := Runs.run_invariant (fun _ _ _ h hstep => h.ownerStep hstep) owned_new hrun
  have hsurvives : ∀ slot < slotCount,
      (sm.slots slot).Survives ((restoreInOrder sm.save order.met).slots slot) := by
    intro slot hslot
    rw [restoreInOrder_slots_of_lt hslot]
    exact howned.settled.survives slot
  refine ⟨hsurvives, fun v => ?_⟩
  have hrt : ∀ key askingFlag,
      v.route (restoreInOrder sm.save order.met) key askingFlag = v.route sm key askingFlag := by
    intro key askingFlag
    exact v.routeSlot_of_survives (hsurvives _ (v.keySlot_lt key)) askingFlag
  refine ⟨hrt, fun keys => ?_, fun key => ?_⟩
  · cases keys with
    | nil => rfl
    | cons key keys =>
      simp only [View.routeMulti, hrt]
  · exact v.canAcceptWrite_of_survives (hsurvives _ (v.keySlot_lt key))

/-- A slot of `b` on its way to `a`. -/
theorem restart_survives_exporting :
    ∃ sm, Runs.run ownerStep new [.act (.assignSlot 0 "b"), .act (.setExporting 0 "a")] = .ok sm ∧
      (sm.slots 0).Survives ((restoreInOrder sm.save (ReplicaOrder.ofTable sm.save).met).slots 0) :=
  ⟨_, rfl, (restart_survives [.act (.assignSlot 0 "b"), .act (.setExporting 0 "a")] _ rfl
    (.ofTable _)).1 0 (by decide)⟩

end SlotManager

end AutoCache.Cluster
