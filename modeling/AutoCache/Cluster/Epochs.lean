import AutoCache.Cluster.Admission
import AutoCache.Cluster.Failover

/-!
# The configuration epochs of a node's slots

A slot carries a configuration epoch, and gossip keeps a second number per slot, the largest epoch it
accepted or broadcast. The second only grows. The first is overwritten with whatever epoch the writer
brings: one of its caller, or the one the node itself has reached, which says nothing of the slot.
-/

namespace AutoCache.Cluster

open SlotManager Function

/-- The operations of a node on its slots and epochs, and the entries it hears. -/
inductive EpochEvent where
  | assignSlot (slot : UInt16) (nodeID : String)
  | configureReplication (slot : UInt16) (primaryID : String) (replicaIDs : List String)
      (epoch : UInt64)
  | addReplicaToMaster (masterID replicaID : String) (epoch : UInt64)
  | replicateTo (masterID : String)
  | failoverToMaster (masterID : String)
  | promoteReplica (slot : UInt16) (nodeID : String)
  | finishMigration (slot : UInt16) (newNodeID : String)
  | handOver (slot : UInt16) (targetID : String)
  | processNodeInfo (info : NodeInfo) (direct : Bool)

namespace SlotManager

variable {sm sm' : SlotManager} {slot s : UInt16} {nodeID : String}

/-- The epoch the record of a slot carries. -/
abbrev configEpoch (sm : SlotManager) (slot : UInt16) : UInt64 := (sm.slots slot).configEpoch

/-! ## What the operations write -/

lemma configEpoch_update {info : SlotInfo} (h : sm'.slots = update sm.slots slot info) (s : UInt16) :
    sm'.configEpoch s = if s = slot then info.configEpoch else sm.configEpoch s := by
  unfold configEpoch
  rw [h, update_apply]
  split <;> rfl

lemma configEpoch_of_update {info : SlotInfo} (h : sm'.slots = update sm.slots slot info)
    (hinfo : info.configEpoch = sm.configEpoch slot) (s : UInt16) :
    sm'.configEpoch s = sm.configEpoch s := by
  rw [configEpoch_update h]
  split
  · next hs => rw [hinfo, hs]
  · rfl

lemma configEpoch_assignSlot (s : UInt16) : (sm.orSame (sm.assignSlot slot nodeID)).configEpoch s = sm.configEpoch s := by
  by_cases hslot : slot < slotCount
  · obtain ⟨sm', hok, hsl⟩ := sm.assignSlot_of_lt nodeID hslot
    rw [hok]
    exact configEpoch_of_update hsl rfl s
  · rw [assignSlot, if_pos (UInt16.not_lt.1 hslot)]
    rfl

variable {epoch : UInt64}

lemma configEpoch_configureReplication {replicaIDs : List String} (s : UInt16) :
    (sm.orSame (sm.configureReplication slot nodeID replicaIDs epoch)).configEpoch s =
      if s = slot ∧ slot < slotCount then epoch else sm.configEpoch s := by
  by_cases hslot : slot < slotCount
  · obtain ⟨sm', hok, hsl⟩ := sm.configureReplication_of_lt nodeID hslot replicaIDs epoch
    rw [hok]
    simp only [hslot, and_true]
    exact configEpoch_update hsl s
  · rw [configureReplication, if_pos (UInt16.not_lt.1 hslot), if_neg fun h => hslot h.2]
    rfl

/-- `AddReplicaToMaster` refuses empty names and a node that would replicate itself. -/
def ReplicaPair (masterID replicaID : String) : Prop :=
  masterID ≠ "" ∧ replicaID ≠ "" ∧ masterID ≠ replicaID

lemma configEpoch_addReplicaToMaster {masterID replicaID : String} (s : UInt16) (hpair : ReplicaPair masterID replicaID) :
    ((sm.addReplicaToMaster masterID replicaID epoch).getD sm).configEpoch s =
      if s < slotCount ∧ (sm.slots s).nodeID = masterID then epoch else sm.configEpoch s := by
  obtain ⟨hmaster, hreplica, hne⟩ := hpair
  rw [addReplicaToMaster, if_neg (by simp [hmaster, hreplica, hne]), Option.getD_some]
  change (if _ then _ else _ : SlotInfo).configEpoch = _
  split <;> rfl

lemma addReplicaToMaster_of_not {masterID replicaID : String} (hpair : ¬ ReplicaPair masterID replicaID) :
    sm.addReplicaToMaster masterID replicaID epoch = none := by
  unfold ReplicaPair at hpair
  exact if_pos (by tauto)

lemma configEpoch_promoteReplica (s : UInt16) : (sm.orSame (sm.promoteReplica slot nodeID)).configEpoch s =
      if s = slot ∧ slot < slotCount ∧ nodeID ∈ (sm.slots slot).replicas.map SlotReplica.nodeID
      then sm.configEpoch slot + 1 else sm.configEpoch s := by
  by_cases h : slot < slotCount ∧ nodeID ∈ (sm.slots slot).replicas.map SlotReplica.nodeID
  · obtain ⟨sm', promoted, hok, -, hsl⟩ := promoteReplica_of_mem h.1 h.2
    rw [hok]
    simp only [h, and_true]
    exact configEpoch_update hsl s
  · obtain ⟨err, herr⟩ := promoteReplica_of_not_mem h
    rw [herr, if_neg fun hc => h hc.2]
    rfl

lemma configEpoch_finishMigration (h : sm.finishMigration slot nodeID = .ok sm') (s : UInt16) :
    sm'.configEpoch s = sm.configEpoch s := by
  by_cases hslot : slot < slotCount
  · obtain ⟨sm'', hok, hsl⟩ := sm.finishMigration_of_lt nodeID hslot
    cases hok.symm.trans h
    exact configEpoch_of_update hsl rfl s
  · rw [finishMigration, if_pos (UInt16.not_lt.1 hslot)] at h
    cases h

lemma le_add_one_iff (e : UInt64) : e ≤ e + 1 ↔ e ≠ 18446744073709551615 := by
  rw [UInt64.le_iff_toNat_le, UInt64.toNat_add, ne_eq, ← UInt64.toNat_inj]
  have := e.toNat_lt
  simp only [UInt64.reduceToNat]
  omega

end SlotManager

namespace Gossip

variable {g g' : Gossip} {self masterID id : String} {slot s : UInt16} {epoch : UInt64}

/-- No slot has forgotten an epoch that gossip recorded for it. -/
def Remembers (g g' : Gossip) : Prop := ∀ s, g.slotEpochs s ≤ g'.slotEpochs s

lemma Remembers.refl (g : Gossip) : g.Remembers g := fun _ => UInt64.le_refl _

lemma Remembers.trans {g₁ g₂ g₃ : Gossip} (h : g₁.Remembers g₂) (h' : g₂.Remembers g₃) :
    g₁.Remembers g₃ := fun s => UInt64.le_trans (h s) (h' s)

lemma remembers_of_eq (h : g'.slotEpochs = g.slotEpochs) : g.Remembers g' := by
  intro s
  rw [h]
  exact UInt64.le_refl _

lemma remembers_recordSlotEpoch : g.Remembers (g.recordSlotEpoch slot epoch) := by
  intro s
  by_cases hs : s = slot
  · subst hs
    rw [UInt64.le_iff_toNat_le, recordSlotEpoch_toNat]
    exact Nat.le_max_left _ _
  · rw [recordSlotEpoch_of_ne hs]
    exact UInt64.le_refl _

/-! ## Entries -/

lemma remembers_applySlot : g.Remembers (g.applySlot id epoch slot) := by
  unfold applySlot
  repeat' split
  · exact .refl g
  · exact .refl g
  · next slots _ =>
    have hsame : g.Remembers { g with slots } := remembers_of_eq rfl
    exact hsame.trans remembers_recordSlotEpoch
  · exact remembers_recordSlotEpoch

lemma configEpoch_applySlot (s : UInt16) : (g.applySlot id epoch slot).slots.configEpoch s = g.slots.configEpoch s := by
  have hassign := @configEpoch_assignSlot g.slots slot id s
  unfold applySlot
  split
  · rfl
  split
  · split
    · rfl
    · next slots hok =>
      rw [recordSlotEpoch_slots]
      rw [hok] at hassign
      exact hassign
  · rw [recordSlotEpoch_slots]

variable {info : NodeInfo} {direct : Bool} {event : EpochEvent}

lemma configEpoch_processNodeInfo (s : UInt16) :
    (g.processNodeInfo info direct).slots.configEpoch s = g.slots.configEpoch s := by
  refine processNodeInfo_rule (P := fun g' => g'.slots.configEpoch s = g.slots.configEpoch s) ?_ ?_ rfl
  · intro g' nodes h
    exact (registerReplica_slots _ info direct s).2.trans h
  · intro g' slot _ h
    exact (configEpoch_applySlot s).trans h

lemma remembers_processNodeInfo : g.Remembers (g.processNodeInfo info direct) := by
  refine processNodeInfo_rule (P := g.Remembers) ?_ ?_ (.refl g)
  · intro g' nodes h
    refine h.trans (remembers_of_eq ?_)
    unfold registerReplica
    split <;> rfl
  · intro g' slot _ h
    exact h.trans remembers_applySlot

/-! ## Broadcasts and the take-over -/

lemma broadcastSlotOwnership_frame (g : Gossip) (self : String) (slot : UInt16) (ownerID : String) :
    (g.broadcastSlotOwnership self slot ownerID).2.slots = g.slots ∧
      (g.broadcastSlotOwnership self slot ownerID).2.currentEpoch = g.currentEpoch ∧
      g.Remembers (g.broadcastSlotOwnership self slot ownerID).2 := by
  obtain ⟨-, hsl, hcur, -⟩ := slotEpoch_frame g slot
  have hrem : g.Remembers (g.slotEpoch slot).2 := by
    unfold slotEpoch
    dsimp only
    split
    · exact remembers_recordSlotEpoch
    · exact .refl g
  unfold broadcastSlotOwnership
  split
  · exact ⟨rfl, rfl, .refl g⟩
  · exact ⟨hsl, hcur, hrem⟩

/-- One slot of `FailoverToMaster`: the slots of the master get the epoch of the node. -/
lemma takeOver_epochs (g : Gossip) (self masterID : String) (slot : UInt16) :
    (∀ s, (g.takeOver self masterID slot).2.slots.configEpoch s =
      if s = slot ∧ slot < slotCount ∧ (g.slots.slots slot).nodeID = masterID then g.currentEpoch
      else g.slots.configEpoch s) ∧
    (∀ s ≠ slot, ((g.takeOver self masterID slot).2.slots.slots s).nodeID = (g.slots.slots s).nodeID) ∧
    (g.takeOver self masterID slot).2.currentEpoch = g.currentEpoch ∧
    g.Remembers (g.takeOver self masterID slot).2 := by
  by_cases htake : slot < slotCount ∧ (g.slots.slots slot).nodeID = masterID
  · obtain ⟨sm, heq, hset, -⟩ := takeOver_of self htake.1 htake.2
    obtain ⟨hkept, hcur, hrem⟩ :=
      broadcastSlotOwnership_frame ({ g with slots := sm } : Gossip) self slot self
    rw [heq, hkept]
    refine ⟨fun s => ?_, fun s hs => ?_, hcur, (remembers_of_eq rfl).trans hrem⟩
    · simp only [htake, and_true]
      exact configEpoch_update hset s
    · rw [hset, update_of_ne hs]
  · rw [takeOver_of_not self htake]
    refine ⟨fun s => ?_, fun _ _ => rfl, rfl, .refl g⟩
    rw [if_neg fun hc => htake hc.2]

lemma takeOverAll_epochs (self masterID : String) (slots : List UInt16) (g : Gossip) :
    (∀ s, (takeOverAll self masterID g slots).2.slots.configEpoch s =
      if s ∈ slots ∧ s < slotCount ∧ (g.slots.slots s).nodeID = masterID then g.currentEpoch
      else g.slots.configEpoch s) ∧
    g.Remembers (takeOverAll self masterID g slots).2 := by
  induction slots generalizing g with
  | nil =>
    refine ⟨fun s => ?_, .refl g⟩
    rfl
  | cons slot slots ih =>
    obtain ⟨hcfg, hnds, hcur, hrem⟩ := g.takeOver_epochs self masterID slot
    obtain ⟨hcfg', hrem'⟩ := ih (g.takeOver self masterID slot).2
    refine ⟨fun s => (hcfg' s).trans ?_, hrem.trans hrem'⟩
    rw [hcur, hcfg]
    by_cases hs : s = slot
    · -- once taken, the slot has the epoch of the node whether it is met again or not
      subst hs
      by_cases htake : s < slotCount ∧ (g.slots.slots s).nodeID = masterID
      · simp [htake]
      · rw [takeOver_of_not self htake]
        simp [htake]
    · rw [hnds s hs]
      simp [hs]

lemma failoverToMaster_epochs (g : Gossip) (self masterID : String) :
    (∀ s, (g.failoverToMaster self masterID).2.slots.configEpoch s =
      if g.Takes masterID s then g.currentEpoch + 1 else g.slots.configEpoch s) ∧
    g.Remembers (g.failoverToMaster self masterID).2 := by
  obtain ⟨hcfg, hrem⟩ := takeOverAll_epochs self masterID (g.slots.listedSlots masterID)
    (g.setSelfRole self .master "").incrementEpoch
  exact ⟨hcfg, hrem⟩

/-! ## One step -/

/-- A node takes part in the cluster under the name `self`. -/
def epochStep (self : String) (g : Gossip) : EpochEvent → Go Gossip
  | .assignSlot slot nodeID => return { g with slots := g.slots.orSame (g.slots.assignSlot slot nodeID) }
  | .configureReplication slot primaryID replicaIDs epoch =>
    return { g with
      slots := g.slots.orSame (g.slots.configureReplication slot primaryID replicaIDs epoch) }
  | .addReplicaToMaster masterID replicaID epoch =>
    return { g with slots := (g.slots.addReplicaToMaster masterID replicaID epoch).getD g.slots }
  | .replicateTo masterID => return g.replicateTo self masterID
  | .failoverToMaster masterID => return (g.failoverToMaster self masterID).2
  | .promoteReplica slot nodeID =>
    return { g with slots := g.slots.orSame (g.slots.promoteReplica slot nodeID) }
  | .finishMigration slot newNodeID => do
    let slots ← g.slots.finishMigration slot newNodeID
    return { g with slots }
  | .handOver slot targetID => do
    let (_, g) ← g.handOver self slot targetID
    return g
  | .processNodeInfo info direct => return g.processNodeInfo info direct

/-- No configuration epoch goes down in the step. -/
def KeepsEpochs (self : String) (g : Gossip) (event : EpochEvent) : Prop :=
  ∀ g', g.epochStep self event = .ok g' →
    ∀ s < slotCount, g.slots.configEpoch s ≤ g'.slots.configEpoch s

/-- `epoch` is as large as that of every slot of the master. -/
def CoversSlots (g : Gossip) (masterID : String) (epoch : UInt64) : Prop :=
  ∀ s < slotCount, (g.slots.slots s).nodeID = masterID → g.slots.configEpoch s ≤ epoch

/-- The epoch that is brought along is as large as those it replaces; a promotion needs a larger one to
exist. -/
def BringsLarger (self : String) (g : Gossip) : EpochEvent → Prop
  | .configureReplication slot _ _ epoch => slot < slotCount → g.slots.configEpoch slot ≤ epoch
  | .addReplicaToMaster masterID replicaID epoch =>
    SlotManager.ReplicaPair masterID replicaID → g.CoversSlots masterID epoch
  | .replicateTo masterID =>
    SlotManager.ReplicaPair masterID self → (∃ node ∈ g.nodes.lookup masterID, node.role = .master) →
      g.CoversSlots masterID (g.currentEpoch + 1)
  | .failoverToMaster masterID =>
    ∀ s, g.Takes masterID s → g.slots.configEpoch s ≤ g.currentEpoch + 1
  | .promoteReplica slot nodeID =>
    slot < slotCount → nodeID ∈ (g.slots.slots slot).replicas.map SlotReplica.nodeID →
      g.slots.configEpoch slot ≠ 18446744073709551615
  | _ => True

lemma replicateTo_of_master {node : GossipNode} (hnode : g.nodes.lookup masterID = some node)
    (hrole : node.role = .master) :
    g.replicateTo self masterID =
      let g' := (g.setSelfRole self .replica masterID).incrementEpoch
      { g' with
        slots := (g.slots.addReplicaToMaster masterID self (g.currentEpoch + 1)).getD g.slots } := by
  rw [replicateTo, hnode]
  exact if_neg (not_not.2 hrole)

lemma replicateTo_of_not (h : ¬ ∃ node ∈ g.nodes.lookup masterID, node.role = .master) : g.replicateTo self masterID = g := by
  unfold replicateTo
  cases hnode : g.nodes.lookup masterID with
  | none => rfl
  | some node => exact if_pos fun hrole => h ⟨node, hnode, hrole⟩

lemma coversSlots_iff {sm : SlotManager}
    (hsm : ∀ s, sm.configEpoch s = if s < slotCount ∧ (g.slots.slots s).nodeID = masterID then epoch
      else g.slots.configEpoch s) :
    (∀ s < slotCount, g.slots.configEpoch s ≤ sm.configEpoch s) ↔ g.CoversSlots masterID epoch := by
  constructor
  · intro h s hs hnode
    have hle := h s hs
    rwa [hsm, if_pos ⟨hs, hnode⟩] at hle
  · intro h s hs
    rw [hsm]
    split
    · next hnode => exact h s hs hnode.2
    · exact UInt64.le_refl _

lemma keepsEpochs_of_eq (h : ∀ g', g.epochStep self event = .ok g' → ∀ s, g'.slots.configEpoch s = g.slots.configEpoch s) :
    g.KeepsEpochs self event := by
  intro g' hstep s _
  rw [h g' hstep s]
  exact UInt64.le_refl _

lemma keepsEpochs_iff_of_ok (h : g.epochStep self event = .ok g') :
    g.KeepsEpochs self event ↔ ∀ s < slotCount, g.slots.configEpoch s ≤ g'.slots.configEpoch s := by
  refine ⟨fun hkp => hkp g' h, fun hle g'' hstep => ?_⟩
  cases h.symm.trans hstep
  exact hle

lemma handOver_epochs {targetID : String} {msg : Option Message} (h : g.handOver self slot targetID = .ok (msg, g')) :
    (∀ s, g'.slots.configEpoch s = g.slots.configEpoch s) ∧ g.Remembers g' := by
  obtain ⟨sm, hfinish, hbroadcast⟩ := Go.bind_eq_ok.1 h
  have hg' : (({ g with slots := sm } : Gossip).broadcastSlotOwnership self slot targetID).2 = g' :=
    congrArg Prod.snd (Except.ok.inj hbroadcast)
  obtain ⟨hsl, -, hrem⟩ :=
    broadcastSlotOwnership_frame { g with slots := sm } self slot targetID
  rw [hg'] at hsl hrem
  refine ⟨fun s => ?_, (remembers_of_eq rfl).trans hrem⟩
  rw [hsl]
  exact configEpoch_finishMigration hfinish s

/-- **One step keeps the configuration epochs exactly when it brings one that is large enough.** -/
lemma keepsEpochs_iff (self : String) (g : Gossip) (event : EpochEvent) :
    g.KeepsEpochs self event ↔ g.BringsLarger self event := by
  cases event with
  | assignSlot slot nodeID =>
    refine iff_of_true (keepsEpochs_of_eq fun g' hstep s => ?_) trivial
    cases hstep
    exact configEpoch_assignSlot s
  | configureReplication slot primaryID replicaIDs epoch =>
    rw [keepsEpochs_iff_of_ok rfl]
    simp only [configEpoch_configureReplication]
    constructor
    · intro h hslot
      have hle := h slot hslot
      rwa [if_pos ⟨rfl, hslot⟩] at hle
    · intro h s _
      split
      · next hs =>
        rw [hs.1]
        exact h hs.2
      · exact UInt64.le_refl _
  | addReplicaToMaster masterID replicaID epoch =>
    rw [keepsEpochs_iff_of_ok rfl]
    by_cases hpair : SlotManager.ReplicaPair masterID replicaID
    · rw [coversSlots_iff fun s => configEpoch_addReplicaToMaster s hpair]
      exact ⟨fun h _ => h, fun h => h hpair⟩
    · refine iff_of_true (fun s _ => ?_) fun hp => absurd hp hpair
      rw [addReplicaToMaster_of_not hpair]
      exact UInt64.le_refl _
  | replicateTo masterID =>
    rw [keepsEpochs_iff_of_ok rfl]
    by_cases hmaster : ∃ node ∈ g.nodes.lookup masterID, node.role = .master
    · obtain ⟨node, hnode, hrole⟩ := hmaster
      rw [replicateTo_of_master hnode hrole]
      by_cases hpair : SlotManager.ReplicaPair masterID self
      · rw [coversSlots_iff fun s => configEpoch_addReplicaToMaster s hpair]
        exact ⟨fun h _ _ => h, fun h => h hpair ⟨node, hnode, hrole⟩⟩
      · refine iff_of_true (fun s _ => ?_) fun hp => absurd hp hpair
        rw [addReplicaToMaster_of_not hpair]
        exact UInt64.le_refl _
    · rw [replicateTo_of_not hmaster]
      exact iff_of_true (fun _ _ => UInt64.le_refl _) fun _ hm => absurd hm hmaster
  | failoverToMaster masterID =>
    obtain ⟨hcfg, -⟩ := g.failoverToMaster_epochs self masterID
    rw [keepsEpochs_iff_of_ok rfl]
    constructor
    · intro h s htakes
      have hle := h s htakes.2.1
      rwa [hcfg, if_pos htakes] at hle
    · intro h s _
      rw [hcfg]
      split
      · next htakes => exact h s htakes
      · exact UInt64.le_refl _
  | promoteReplica slot nodeID =>
    rw [keepsEpochs_iff_of_ok rfl]
    simp only [configEpoch_promoteReplica]
    constructor
    · intro h hslot hmem
      have hle := h slot hslot
      rw [if_pos ⟨rfl, hslot, hmem⟩] at hle
      exact (le_add_one_iff _).1 hle
    · intro h s _
      split
      · next hs =>
        rw [hs.1]
        exact (le_add_one_iff _).2 (h hs.2.1 hs.2.2)
      · exact UInt64.le_refl _
  | finishMigration slot newNodeID =>
    refine iff_of_true (keepsEpochs_of_eq fun g' hstep s => ?_) trivial
    obtain ⟨sm, hfinish, hreturn⟩ := Go.bind_eq_ok.1 hstep
    cases hreturn
    exact configEpoch_finishMigration hfinish s
  | handOver slot targetID =>
    refine iff_of_true (keepsEpochs_of_eq fun g' hstep s => ?_) trivial
    obtain ⟨⟨msg, g''⟩, hover, hreturn⟩ := Go.bind_eq_ok.1 hstep
    cases hreturn
    exact (handOver_epochs hover).1 s
  | processNodeInfo info direct =>
    refine iff_of_true (keepsEpochs_of_eq fun g' hstep s => ?_) trivial
    cases hstep
    exact configEpoch_processNodeInfo s

/-! ## What gossip remembers -/

lemma remembers_epochStep (h : g.epochStep self event = .ok g') : g.Remembers g' := by
  cases event with
  | replicateTo masterID =>
    cases h
    unfold replicateTo
    split
    · exact .refl g
    · split
      · exact .refl g
      · exact remembers_of_eq rfl
  | failoverToMaster masterID =>
    cases h
    exact (g.failoverToMaster_epochs self masterID).2
  | finishMigration slot newNodeID =>
    obtain ⟨sm, -, hreturn⟩ := Go.bind_eq_ok.1 h
    cases hreturn
    exact remembers_of_eq rfl
  | handOver slot targetID =>
    obtain ⟨⟨msg, g''⟩, hover, hreturn⟩ := Go.bind_eq_ok.1 h
    cases hreturn
    exact (handOver_epochs hover).2
  | processNodeInfo info direct =>
    cases h
    exact remembers_processNodeInfo
  | _ =>
    cases h
    exact remembers_of_eq rfl

/-- A slot of an entry that `processNodeInfo` accepts. -/
structure AcceptsClaim (g : Gossip) (info : NodeInfo) (direct : Bool) (slot : UInt16) : Prop where
  master : (g.learn info direct).role = .master
  claimed : slot ∈ info.slots
  newer : g.canApplySlotOwnership slot info.configEpoch = true

lemma AcceptsClaim.recorded (h : g.AcceptsClaim info direct slot) (hslot : slot < slotCount) (hpos : 0 < info.configEpoch) :
    info.configEpoch ≤ (g.processNodeInfo info direct).slotEpochs slot := by
  have hacc := canApply_iff.1 h.newer
  have hpos' : 0 < info.configEpoch.toNat := UInt64.lt_iff_toNat_lt.1 hpos
  have hlarger : (g.register slot).epoch < info.configEpoch.toNat := by
    unfold Register.Accepts at hacc
    omega
  have hreg := congrArg Register.epoch (@register_processNodeInfo g slot info direct hslot)
  rw [if_pos ⟨h.master, h.claimed⟩, Register.claim_of_accepts hacc] at hreg
  -- the configuration epoch was smaller and is what it was
  have hbefore : (g.register slot).epoch = max (g.slotEpochs slot).toNat
      (g.slots.getSlotConfigEpoch slot).toNat := seenEpoch_toNat slot
  have hafter : ((g.processNodeInfo info direct).register slot).epoch =
      max ((g.processNodeInfo info direct).slotEpochs slot).toNat
        ((g.processNodeInfo info direct).slots.getSlotConfigEpoch slot).toNat := seenEpoch_toNat slot
  rw [getSlotConfigEpoch_of_lt hslot] at hbefore hafter
  have hcfg : ((g.processNodeInfo info direct).slots.slots slot).configEpoch =
      (g.slots.slots slot).configEpoch := configEpoch_processNodeInfo slot
  rw [hcfg] at hafter
  rw [UInt64.le_iff_toNat_le]
  dsimp only at hreg
  omega

lemma rejects_of_recorded {e : UInt64} (hpos : 0 < e) (hrecorded : e ≤ g.slotEpochs slot)
    (hle : epoch ≤ e) : g.canApplySlotOwnership slot epoch = false := by
  have hseen := seenEpoch_toNat (g := g) slot
  rw [UInt64.le_iff_toNat_le] at hrecorded hle
  have hpos' : 0 < e.toNat := UInt64.lt_iff_toNat_lt.1 hpos
  rw [← Bool.not_eq_true, canApply_iff]
  unfold Register.Accepts register
  dsimp only
  omega

/-- In the run, a claim accepted under a positive epoch leaves its slot refusing every later claim that is
not newer. -/
def RefusesOlder (self : String) (g : Gossip) (events : List EpochEvent) : Prop :=
  ∀ before info direct between after, events = before ++ .processNodeInfo info direct :: between ++ after →
    ∀ g₁ g₂, Runs.run (epochStep self) g before = .ok g₁ →
      Runs.run (epochStep self) (g₁.processNodeInfo info direct) between = .ok g₂ →
      ∀ slot < slotCount, g₁.AcceptsClaim info direct slot → 0 < info.configEpoch →
        ∀ epoch ≤ info.configEpoch, g₂.canApplySlotOwnership slot epoch = false

lemma refusesOlder (self : String) (g : Gossip) (events : List EpochEvent) : g.RefusesOlder self events := by
  intro before info direct between after _ g₁ g₂ _ hbetween slot hslot hacc hpos epoch hle
  have hrem : (g₁.processNodeInfo info direct).Remembers g₂ :=
    Runs.run_invariant (fun _ _ _ h hstep => h.trans (remembers_epochStep hstep)) (.refl _) hbetween
  exact rejects_of_recorded hpos (UInt64.le_trans (hacc.recorded hslot hpos) (hrem slot)) hle

/-- **Configuration epochs.** In a run of a node's operations no slot's epoch goes down and accepted claims
are not undone by older ones, exactly when every step brings an epoch that is large enough. -/
theorem epochs_monotone_iff (self : String) (g : Gossip) (events : List EpochEvent) :
    (Runs.Along (epochStep self) (KeepsEpochs self) g events ∧ g.RefusesOlder self events) ↔
      Runs.Along (epochStep self) (BringsLarger self) g events := by
  have hiff := keepsEpochs_iff self
  constructor
  · rintro ⟨h, -⟩
    exact h.imp (I := fun _ => True) (fun _ _ _ _ _ _ => trivial) (fun g event _ => (hiff g event).1) trivial
  · intro h
    refine ⟨?_, refusesOlder self g events⟩
    exact h.imp (I := fun _ => True) (fun _ _ _ _ _ _ => trivial) (fun g event _ => (hiff g event).2) trivial

/-- A node that has just heard of the master `m`. -/
def hasHeardOf : Gossip where
  nodes := (∅ : GoMap String GossipNode).insert "m" {}
  slots := .new
  slotEpochs _ := 0
  currentEpoch := 0

/-- **An epoch goes down.** `r` replicates `m`, is promoted, gives way to `m` again and replicates it once
more: the two promotions have brought the slot to epoch 3, `r` itself has only reached 2. -/
theorem replicateTo_lowers_epoch :
    ∃ g₁ g₂, Runs.run (epochStep "r") hasHeardOf [.assignSlot 0 "m", .replicateTo "m",
        .promoteReplica 0 "r", .promoteReplica 0 "m"] = .ok g₁ ∧
      g₁.epochStep "r" (.replicateTo "m") = .ok g₂ ∧
      g₁.slots.configEpoch 0 = 3 ∧ g₂.slots.configEpoch 0 = 2 ∧
      ¬ g₁.KeepsEpochs "r" (.replicateTo "m") := by
  refine ⟨_, _, rfl, rfl, by decide, by decide, fun h => ?_⟩
  exact absurd (h _ rfl 0 (by decide)) (by decide)

end Gossip

end AutoCache.Cluster
