import AutoCache.Cluster.Router
import AutoCache.Lib.Runs

/-!
# Routing against write admission

The router looks at the owner of a slot, at its migration and at what gossip knows; the admission of
a write looks at the primary. In every table that the operations of the slot manager can produce the
primary is the owner (`Settled`), so a write is admitted exactly for the slots without an owner and
for the own ones. The router serves two more: a foreign slot that is being imported, when the client
asks, and a foreign slot whose owner gossip does not know.
-/

namespace AutoCache.Cluster

open SlotManager Function

/-! ## Tables that occur -/

/-- The operations of the slot manager that change it. -/
inductive SlotAct where
  | assignSlot (slot : UInt16) (nodeID : String)
  | assignSlotRange (start stop : UInt16) (nodeID : String)
  | setSlotConfigEpoch (slot : UInt16) (epoch : UInt64)
  | configureReplication (slot : UInt16) (primaryID : String) (replicaIDs : List String)
      (epoch : UInt64)
  | addSlotReplica (slot : UInt16) (replicaID : String)
  | addReplicaToMaster (masterID replicaID : String) (epoch : UInt64)
  | allocateLSN (slot : UInt16)
  | updateReplicaLSN (slot : UInt16) (nodeID : String) (lsn : UInt64)
  | promoteReplica (slot : UInt16) (nodeID : String)
  | setImporting (slot : UInt16) (fromNodeID : String)
  | setExporting (slot : UInt16) (toNodeID : String)
  | setStable (slot : UInt16)
  | finishMigration (slot : UInt16) (newNodeID : String)
  | restoreFromState (saved : SavedSlots)

namespace SlotManager

/-- An operation that returns an error has changed nothing. -/
def orSame (sm : SlotManager) {ε : Type} (result : Except ε SlotManager) : SlotManager :=
  result.toOption.getD sm

def act (sm : SlotManager) : SlotAct → Go SlotManager
  | .assignSlot slot nodeID => return sm.orSame (sm.assignSlot slot nodeID)
  | .assignSlotRange start stop nodeID => return (sm.assignSlotRange start stop nodeID).1
  | .setSlotConfigEpoch slot epoch => return sm.setSlotConfigEpoch slot epoch
  | .configureReplication slot primaryID replicaIDs epoch =>
    return sm.orSame (sm.configureReplication slot primaryID replicaIDs epoch)
  | .addSlotReplica slot replicaID => return sm.addSlotReplica slot replicaID
  | .addReplicaToMaster masterID replicaID epoch =>
    return (sm.addReplicaToMaster masterID replicaID epoch).getD sm
  | .allocateLSN slot =>
    match sm.allocateLSN slot with
    | .error _ => return sm
    | .ok (sm, _) => return sm
  | .updateReplicaLSN slot nodeID lsn => return sm.orSame (sm.updateReplicaLSN slot nodeID lsn)
  | .promoteReplica slot nodeID => return sm.orSame (sm.promoteReplica slot nodeID)
  | .setImporting slot fromNodeID => sm.setImporting slot fromNodeID
  | .setExporting slot toNodeID => sm.setExporting slot toNodeID
  | .setStable slot => sm.setStable slot
  | .finishMigration slot newNodeID => sm.finishMigration slot newNodeID
  | .restoreFromState saved => return restoreFromState saved

variable {sm sm' : SlotManager} {slot : UInt16} {nodeID : String}

/-! ## What the operations keep -/

section Keeping

variable {P : SlotManager → Prop}

lemma orSame_keeps {ε : Type} {result : Except ε SlotManager} (h : P sm)
    (hok : ∀ sm', result = .ok sm' → P sm') : P (sm.orSame result) := by
  cases result with
  | error err => exact h
  | ok sm' => exact hok sm' rfl

lemma assignSlots_keeps (hstep : ∀ {sm slot sm'}, P sm → sm.assignSlot slot nodeID = .ok sm' → P sm')
    (h : P sm) (slots : List UInt16) : P (sm.assignSlots nodeID slots).1 := by
  induction slots generalizing sm with
  | nil => exact h
  | cons slot slots ih =>
    unfold assignSlots
    split
    · exact h
    · next hok => exact ih (hstep h hok)

lemma checked_keeps {changed : SlotManager}
    (hok : (if slotCount ≤ slot then throw .indexRange else pure changed : Go SlotManager) = .ok sm')
    (h : P changed) : P sm' := by
  split at hok
  · cases hok
  · cases hok
    exact h

lemma allocateLSN_keeps (hact : sm.act (.allocateLSN slot) = .ok sm') (h : P sm)
    (hlsn : ∀ lsn, P (sm.modify slot fun info => { info with nextLSN := lsn })) : P sm' := by
  rcases sm.allocateLSN_cases slot with ⟨hslot, hown⟩ | ⟨err, herr⟩
  · simp only [SlotManager.act, allocateLSN_of_assigned hslot hown] at hact
    cases hact
    exact hlsn _
  · simp only [SlotManager.act, herr] at hact
    cases hact
    exact h

end Keeping

/-- The primary of a slot is its owner. -/
def Settled (sm : SlotManager) : Prop := ∀ slot, (sm.slots slot).primaryID = (sm.slots slot).nodeID

lemma settled_new : new.Settled := fun _ => rfl

lemma Settled.update {info : SlotInfo} (h : sm.Settled)
    (hsl : sm'.slots = update sm.slots slot info) (hinfo : info.primaryID = info.nodeID) :
    sm'.Settled := by
  intro s
  rw [hsl, update_apply]
  split
  · exact hinfo
  · exact h s

lemma Settled.modify {f : SlotInfo → SlotInfo} (h : sm.Settled)
    (hf : (f (sm.slots slot)).primaryID = (f (sm.slots slot)).nodeID) : (sm.modify slot f).Settled :=
  h.update (modify_slots sm slot f) hf

lemma Settled.setOwner {f : SlotInfo → SlotInfo} (h : sm.Settled)
    (hf : ∀ info, (f info).primaryID = nodeID ∧ (f info).nodeID = info.nodeID) :
    ((sm.setOwnerLocked slot nodeID).modify slot f).Settled := by
  intro s
  rw [modify_slots, setOwnerLocked_slots, update_idem, update_apply]
  split
  · rw [(hf _).1, (hf _).2, update_self]
  · exact h s

lemma Settled.assignSlot (h : sm.Settled) (hok : sm.assignSlot slot nodeID = .ok sm') : sm'.Settled := by
  obtain ⟨-, hsl⟩ := of_assignSlot_eq_ok _ _ hok
  exact h.update hsl rfl

lemma settled_restoreFromState (saved : SavedSlots) : (restoreFromState saved).Settled := by
  intro slot
  change ((if slotCount ≤ slot then {} else restoredInfo saved slot) : SlotInfo).primaryID =
    ((if slotCount ≤ slot then {} else restoredInfo saved slot) : SlotInfo).nodeID
  split
  · rfl
  · unfold restoredInfo
    cases saved.slotReplicas slot <;> cases saved.migratingSlots slot with
    | none => rfl
    | some migration => rcases migration with ⟨_, _, _ | _ | _⟩ <;> rfl

/-- **Every operation keeps the primary at the owner.** -/
lemma Settled.act {a : SlotAct} (h : sm.Settled) (hact : sm.act a = .ok sm') : sm'.Settled := by
  cases a with try cases hact
  | assignSlot slot nodeID =>
    exact orSame_keeps h fun _ => h.assignSlot
  | assignSlotRange start stop nodeID =>
    exact assignSlots_keeps .assignSlot h _
  | setSlotConfigEpoch slot epoch =>
    unfold setSlotConfigEpoch
    split
    · exact h
    · exact h.modify (h slot)
  | configureReplication slot primaryID replicaIDs epoch =>
    refine orSame_keeps h fun _ hok => ?_
    unfold configureReplication at hok
    split at hok
    · cases hok
    · cases hok
      exact h.setOwner fun _ => ⟨rfl, rfl⟩
  | addSlotReplica slot replicaID =>
    unfold addSlotReplica
    split_ifs
    · exact h
    · exact h
    · exact h
    · refine h.modify ?_
      exact h slot
  | addReplicaToMaster masterID replicaID epoch =>
    unfold addReplicaToMaster
    split
    · exact h
    · intro s
      dsimp only [Option.getD_some]
      split
      · rfl
      · exact h s
  | allocateLSN slot => exact allocateLSN_keeps hact h fun _ => h.modify (h slot)
  | updateReplicaLSN slot nodeID lsn =>
    refine orSame_keeps h fun _ hok => ?_
    unfold updateReplicaLSN at hok
    split_ifs at hok
    split at hok
    · cases hok
    · cases hok
      exact h.modify (h slot)
  | promoteReplica slot nodeID =>
    refine orSame_keeps h fun _ hok => ?_
    unfold promoteReplica at hok
    split_ifs at hok
    dsimp only at hok
    split at hok
    · cases hok
    · cases hok
      exact h.setOwner fun _ => ⟨rfl, rfl⟩
  | setImporting slot fromNodeID | setExporting slot toNodeID =>
    refine checked_keeps hact (h.modify ?_)
    exact h slot
  | setStable slot =>
    refine checked_keeps hact (h.modify ?_)
    have hslot := h slot
    split
    · rfl
    · exact hslot
  | finishMigration slot newNodeID =>
    refine checked_keeps hact (h.setOwner ?_)
    exact fun _ => ⟨rfl, rfl⟩
  | restoreFromState saved =>
    exact settled_restoreFromState saved

end SlotManager

/-! ## The two deciders -/

namespace View

variable (v : View) (sm : SlotManager) (key : Bytes) (askingFlag : Bool)

/-- What is served here is also written here; what is sent elsewhere is not written here, unless the
slot is on its way out. -/
def AdmitsRouted : Prop :=
  (v.route sm key askingFlag = .here → v.canAcceptWrite sm key = true) ∧
    ∀ r, v.route sm key askingFlag = .redirect r →
      v.canAcceptWrite sm key = false ∨ (sm.slots (v.keySlot key)).state = .exporting

/-- The slot has no owner, or it is this node, or gossip knows the owner and the client does not ask
for a slot on its way in. -/
def OwnerInSight : Prop :=
  let info := sm.slots (v.keySlot key)
  info.nodeID = "" ∨ info.nodeID = v.selfID ∨
    (v.nodeAddr info.nodeID).isSome ∧
      ¬ (info.state = .importing ∧ info.importing ≠ "" ∧ askingFlag = true)

variable {v sm key askingFlag}

lemma canAcceptWrite_of_settled (h : sm.Settled) : v.canAcceptWrite sm key = true ↔
      (sm.slots (v.keySlot key)).nodeID = "" ∨ (sm.slots (v.keySlot key)).nodeID = v.selfID := by
  simp [canAcceptWrite, h (v.keySlot key)]

lemma route_of_foreign (hempty : (sm.slots (v.keySlot key)).nodeID ≠ "")
    (hself : (sm.slots (v.keySlot key)).nodeID ≠ v.selfID) :
    v.route sm key askingFlag = .here ↔ ¬ v.OwnerInSight sm key askingFlag := by
  unfold route routeSlot OwnerInSight
  simp only [hempty, hself, if_false, false_or]
  split
  · next h => simp [h]
  · next h =>
    cases v.nodeAddr (sm.slots (v.keySlot key)).nodeID with
    | none => simp
    | some addr => simpa using h

end View

/-- **Routing and admission.** In every table that occurs, for every key and both values of the flag,
the two agree exactly when the owner is in sight. -/
theorem admitsRouted_iff (acts : List SlotAct) (sm : SlotManager)
    (hrun : Runs.run act .new acts = .ok sm) (v : View) (key : Bytes) (askingFlag : Bool) :
    v.AdmitsRouted sm key askingFlag ↔ v.OwnerInSight sm key askingFlag := by
  have hsettled : sm.Settled := Runs.run_invariant (fun _ _ _ h hact => h.act hact) settled_new hrun
  have hwr := @View.canAcceptWrite_of_settled v sm key hsettled
  by_cases hforeign : (sm.slots (v.keySlot key)).nodeID = "" ∨ (sm.slots (v.keySlot key)).nodeID = v.selfID
  · -- a write is admitted; only an export sends the client elsewhere
    refine iff_of_true ⟨fun _ => hwr.2 hforeign, fun r hrt => .inr ?_⟩ (hforeign.imp_right .inl)
    unfold View.route View.routeSlot at hrt
    rcases hforeign with hempty | hself
    · simp [hempty] at hrt
    · by_contra hstate
      simp [hself, hstate] at hrt
  · have hrefused : v.canAcceptWrite sm key = false := by
      rw [← Bool.not_eq_true, hwr]
      exact hforeign
    rw [not_or] at hforeign
    have hhere := @View.route_of_foreign v sm key askingFlag hforeign.1 hforeign.2
    constructor
    · intro hagree
      by_contra hsight
      have haccept := hagree.1 (hhere.2 hsight)
      rw [hrefused] at haccept
      cases haccept
    · intro hsight
      exact ⟨fun h => absurd hsight (hhere.1 h), fun _ _ => .inl hrefused⟩

/-- What `a` knows: its own name, and the address of `b`. -/
def viewOfA : View where
  selfID := "a"
  nodeAddr id := if id = "b" then some "b:6379" else none
  keySlot _ := 0
  keySlot_lt := slotCount_pos

/-- A slot of `b` that nobody moves. -/
theorem admitsRouted_assigned :
    ∃ sm, Runs.run act .new [.assignSlot 0 "b"] = .ok sm ∧
      viewOfA.AdmitsRouted sm [107] true :=
  ⟨_, rfl, (admitsRouted_iff [.assignSlot 0 "b"] _ rfl viewOfA [107] true).2
    (.inr (.inr ⟨rfl, fun h => by cases h.1⟩))⟩

/-- **Routed here and refused.** `a` imports slot 0 from `b`; a client that asks is served by `a`,
but its writes are not admitted. -/
theorem importing_refuses_writes :
    ∃ sm, Runs.run act .new [.assignSlot 0 "b", .setImporting 0 "b"] = .ok sm ∧
      viewOfA.route sm [107] true = .here ∧ viewOfA.canAcceptWrite sm [107] = false ∧
      ¬ viewOfA.AdmitsRouted sm [107] true := by
  refine ⟨_, rfl, rfl, rfl, fun h => ?_⟩
  have haccept := h.1 rfl
  cases haccept

end AutoCache.Cluster
