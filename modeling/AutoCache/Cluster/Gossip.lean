import AutoCache.Cluster.Slots
import AutoCache.Lib.Register

/-!
# Gossip about slot owners (`internal/cluster/gossip/gossip.go`, `internal/cluster/cluster.go`)

Nodes tell each other which slots they own and what they know of others. An entry about a node
carries one epoch for all its slots; the receiver applies it to a slot when the epoch is larger
than what it has seen for that slot. What it has seen is the larger of the epochs it accepted and
the slot's own configuration epoch. Applying an entry changes the owner but not the configuration
epoch.

For each slot the owner and the epoch seen are a register in the sense of `AutoCache.Register`.

Addresses, load and failure reports do not enter here; whether a node is held for failed is set
from outside.
-/

namespace AutoCache.Cluster

open SlotManager Function

inductive NodeRole where
  | master
  | replica
  deriving DecidableEq, Repr

inductive NodeState where
  | unknown
  | handshake
  | connected
  | pfail
  | fail
  deriving DecidableEq, Repr

/-- What a node knows of another or of itself. A node that was only heard of is taken for a
master: that is the zero value of its role. -/
structure GossipNode where
  role : NodeRole := .master
  masterID : String := ""
  state : NodeState := .connected
  deriving DecidableEq, Repr

/-- An entry of a message. `role` stands for the flags: the master bit is looked at first. `slots`
are the bits of the bitmap. -/
structure NodeInfo where
  id : String
  role : Option NodeRole
  masterID : String
  configEpoch : UInt64
  slots : List UInt16
  deriving DecidableEq, Repr

structure Message where
  sender : String
  nodeInfo : NodeInfo
  gossipNodes : List NodeInfo
  deriving DecidableEq, Repr

/-- All entries, that of the sender first. -/
def Message.entries (msg : Message) : List NodeInfo := msg.nodeInfo :: msg.gossipNodes

/-- The state of a node: its slot manager is shared with the rest of the node. -/
structure Gossip where
  nodes : GoMap String GossipNode
  slots : SlotManager
  slotEpochs : UInt16 → UInt64
  currentEpoch : UInt64

namespace Gossip

variable (g : Gossip)

/-! ## Epochs of slots -/

/-- The epoch an entry has to exceed. -/
def seenEpoch (slot : UInt16) : UInt64 :=
  let assignedEpoch := g.slots.getSlotConfigEpoch slot
  if assignedEpoch > g.slotEpochs slot then assignedEpoch else g.slotEpochs slot

def canApplySlotOwnership (slot : UInt16) (incomingEpoch : UInt64) : Bool :=
  if incomingEpoch = 0 then g.seenEpoch slot = 0 else incomingEpoch > g.seenEpoch slot

def recordSlotEpoch (slot : UInt16) (epoch : UInt64) : Gossip :=
  if epoch ≥ g.slotEpochs slot then
    { g with slotEpochs := update g.slotEpochs slot epoch }
  else g

/-- `slotEpoch`, the epoch of a broadcast: that of the slot, which is recorded, or else that of the
node. -/
def slotEpoch (slot : UInt16) : UInt64 × Gossip :=
  let epoch := g.slots.getSlotConfigEpoch slot
  if epoch > 0 then (epoch, g.recordSlotEpoch slot epoch) else (g.currentEpoch, g)

/-! ## Entries -/

/-- One slot of an entry. -/
def applySlot (id : String) (epoch : UInt64) (slot : UInt16) : Gossip :=
  if ¬ g.canApplySlotOwnership slot epoch then g
  else if g.slots.getSlotNode slot ≠ id then
    match g.slots.assignSlot slot id with
    | .error _ => g
    | .ok slots => { g with slots }.recordSlotEpoch slot epoch
  else g.recordSlotEpoch slot epoch

/-- What is known of the node of an entry afterwards; only its own report counts for the role. -/
def learn (info : NodeInfo) (direct : Bool) : GossipNode :=
  let node := (g.nodes.lookup info.id).getD {}
  if direct then
    match info.role with
    | some .master => { node with role := .master, masterID := "" }
    | some .replica => { node with role := .replica, masterID := info.masterID }
    | none => node
  else node

/-- A replica that reports itself is registered for the slots of its master. -/
def registerReplica (info : NodeInfo) (direct : Bool) : Gossip :=
  if direct ∧ info.masterID ≠ "" then
    let masterSlots := g.slots.listedSlots info.masterID
    { g with slots := masterSlots.foldl (fun sm slot => sm.addSlotReplica slot info.id) g.slots }
  else g

def processNodeInfo (info : NodeInfo) (direct : Bool) : Gossip :=
  let node := g.learn info direct
  let g := { g with nodes := g.nodes.insert info.id node }.registerReplica info direct
  if node.role = .master then
    info.slots.foldl (fun g slot => g.applySlot info.id info.configEpoch slot) g
  else g

/-- `handlePing` and `handlePong`. -/
def handleMessage (msg : Message) : Gossip :=
  msg.gossipNodes.foldl (fun g info => g.processNodeInfo info false)
    (g.processNodeInfo msg.nodeInfo true)

/-! ## Messages -/

/-- The bitmap of a list of slots. -/
def bitmap (slots : List UInt16) : List UInt16 := SlotManager.allSlots.filter (· ∈ slots)

def selfNodeInfo (self : String) : NodeInfo :=
  let node := (g.nodes.lookup self).getD {}
  { id := self, role := some node.role, masterID := node.masterID, configEpoch := g.currentEpoch,
    slots := bitmap (g.slots.listedSlots self) }

/-- An entry of `randomGossipNodes`. It carries the epoch of the node that sends it. -/
def gossipNodeInfo (id : String) : NodeInfo :=
  let node := (g.nodes.lookup id).getD {}
  { id := id, role := some node.role, masterID := node.masterID, configEpoch := g.currentEpoch,
    slots := bitmap (g.slots.listedSlots id) }

/-- A ping or pong; `chosen` are the nodes that `randomGossipNodes` picked. -/
def ping (self : String) (chosen : List String) : Message :=
  { sender := self, nodeInfo := g.selfNodeInfo self, gossipNodes := chosen.map g.gossipNodeInfo }

/-- A broadcast finds someone to send to. -/
def HasPeers (self : String) : Prop :=
  ∃ id ∈ g.nodes.keys, id ≠ self ∧ ((g.nodes.lookup id).getD {}).state = .connected

instance (self : String) : Decidable (g.HasPeers self) :=
  inferInstanceAs (Decidable (∃ id ∈ g.nodes.keys, _))

/-- The entry of a hand-over: all slots of the owner, under one epoch. -/
def ownerInfo (slot : UInt16) (ownerID : String) (epoch : UInt64) : NodeInfo :=
  { id := ownerID, role := some .master, masterID := "", configEpoch := epoch,
    slots := bitmap (slot :: g.slots.listedSlots ownerID) }

/-- `BroadcastSlotOwnership`. An unknown owner is an error, which no caller looks at. -/
def broadcastSlotOwnership (self : String) (slot : UInt16) (ownerID : String) :
    Option Message × Gossip :=
  if (g.nodes.lookup ownerID).isNone then (none, g)
  else
    let (epoch, g) := g.slotEpoch slot
    let msg : Message :=
      { sender := self, nodeInfo := g.selfNodeInfo self,
        gossipNodes := [g.ownerInfo slot ownerID epoch] }
    (if g.HasPeers self then some msg else none, g)

/-! ## Reconfiguration -/

def incrementEpoch : Gossip := { g with currentEpoch := g.currentEpoch + 1 }

def setSelfRole (self : String) (role : NodeRole) (masterID : String) : Gossip :=
  { g with nodes := g.nodes.insert self { (g.nodes.lookup self).getD {} with role, masterID } }

/-- The check of a replica: its master is unknown or held for failed. -/
def masterIsFailed (masterID : String) : Bool :=
  match g.nodes.lookup masterID with
  | none => true
  | some node => node.state = .fail

/-- One slot of `FailoverToMaster`. -/
def takeOver (self masterID : String) (slot : UInt16) : Option Message × Gossip :=
  if slotCount ≤ slot ∨ (g.slots.slots slot).nodeID ≠ masterID then (none, g)
  else
    let slots :=
      match g.slots.assignSlot slot self with
      | .ok slots => slots
      | .error _ => g.slots
    { g with slots := slots.setSlotConfigEpoch slot g.currentEpoch }.broadcastSlotOwnership self slot
      self

/-- The slots one after the other, with the messages that go out. -/
def takeOverAll (self masterID : String) : Gossip → List UInt16 → List Message × Gossip
  | g, [] => ([], g)
  | g, slot :: slots =>
    let (msg, g) := g.takeOver self masterID slot
    let (msgs, g) := takeOverAll self masterID g slots
    (msg.toList ++ msgs, g)

def failoverToMaster (self masterID : String) : List Message × Gossip :=
  takeOverAll self masterID (g.setSelfRole self .master "").incrementEpoch
    (g.slots.listedSlots masterID)

/-- `ReplicateTo`; its errors change nothing but, for a node that would replicate itself, the role
and the epoch. -/
def replicateTo (self masterID : String) : Gossip :=
  match g.nodes.lookup masterID with
  | none => g
  | some node =>
    if node.role ≠ .master then g
    else
      let g := (g.setSelfRole self .replica masterID).incrementEpoch
      { g with slots := (g.slots.addReplicaToMaster masterID self g.currentEpoch).getD g.slots }

/-- The end of a migration that moved all keys: the owner changes here, and is broadcast. -/
def handOver (self : String) (slot : UInt16) (targetID : String) : Go (Option Message × Gossip) := do
  let slots ← g.slots.finishMigration slot targetID
  return { g with slots }.broadcastSlotOwnership self slot targetID

/-! ## What a message can do

It does no more than insert nodes, register replicas and apply slots of its entries. -/

section Rules

variable {g} {P : Gossip → Prop}

lemma processNodeInfo_rule {info : NodeInfo} {direct : Bool}
    (hbase : ∀ g nodes, P g → P ({ g with nodes }.registerReplica info direct))
    (happly : ∀ g, ∀ slot ∈ info.slots, P g → P (g.applySlot info.id info.configEpoch slot))
    (h : P g) : P (g.processNodeInfo info direct) := by
  have hsl : ∀ (slots : List UInt16) (g' : Gossip), (∀ slot ∈ slots, slot ∈ info.slots) → P g' →
      P (slots.foldl (fun g slot => g.applySlot info.id info.configEpoch slot) g') := by
    intro slots
    induction slots with
    | nil => exact fun _ _ hg => hg
    | cons slot slots ih =>
      intro g' hsub hg
      exact ih _ (fun s hs => hsub s (List.mem_cons_of_mem _ hs)) (happly g' slot (hsub slot List.mem_cons_self) hg)
  unfold processNodeInfo
  dsimp only
  split
  · exact hsl _ _ (fun _ hs => hs) (hbase g _ h)
  · exact hbase g _ h

/-- **What registering a replica and applying a slot keep, a message keeps.** -/
lemma handleMessage_rule {msg : Message}
    (hbase : ∀ g nodes info direct, P g → P ({ g with nodes }.registerReplica info direct))
    (happly : ∀ g, ∀ info ∈ msg.entries, ∀ slot ∈ info.slots, P g → P (g.applySlot info.id info.configEpoch slot))
    (h : P g) : P (g.handleMessage msg) := by
  have hinfos : ∀ (infos : List NodeInfo) (g' : Gossip), (∀ info ∈ infos, info ∈ msg.entries) → P g' →
      P (infos.foldl (fun g info => g.processNodeInfo info false) g') := by
    intro infos
    induction infos with
    | nil => exact fun _ _ hg => hg
    | cons info infos ih =>
      intro g' hsub hg
      refine ih _ (fun i hi => hsub i (List.mem_cons_of_mem _ hi)) ?_
      exact processNodeInfo_rule (fun g nodes => hbase g nodes info false)
        (fun g => happly g info (hsub info List.mem_cons_self)) hg
  refine hinfos _ _ (fun i hi => List.mem_cons_of_mem _ hi) ?_
  exact processNodeInfo_rule (fun g nodes => hbase g nodes _ true) (fun g => happly g _ List.mem_cons_self) h

end Rules

/-! ## Registers -/

/-- The owner of a slot and the epoch seen for it. -/
def register (slot : UInt16) : Register String :=
  ⟨g.slots.getSlotNode slot, (g.seenEpoch slot).toNat⟩

variable {g} {slot : UInt16}

lemma register_owner : (g.register slot).owner = g.slots.getSlotNode slot := rfl

lemma seenEpoch_toNat (slot : UInt16) : (g.seenEpoch slot).toNat =
      max (g.slotEpochs slot).toNat (g.slots.getSlotConfigEpoch slot).toNat := by
  unfold seenEpoch
  dsimp only
  split
  · next h =>
    rw [gt_iff_lt, UInt64.lt_iff_toNat_lt] at h
    omega
  · next h =>
    rw [gt_iff_lt, UInt64.lt_iff_toNat_lt] at h
    omega

lemma mem_bitmap {slots : List UInt16} : slot ∈ bitmap slots ↔ slot < slotCount ∧ slot ∈ slots := by
  rw [bitmap, List.mem_filter, mem_allSlots, decide_eq_true_iff]

lemma mem_selfNodeInfo_slots {self : String} :
    slot ∈ (g.selfNodeInfo self).slots ↔ slot < slotCount ∧ slot ∈ g.slots.listedSlots self := by
  rw [selfNodeInfo, mem_bitmap]

variable {id : String} {s : UInt16} {epoch : UInt64}

lemma mem_gossipNodeInfo_slots : slot ∈ (g.gossipNodeInfo id).slots ↔ slot < slotCount ∧ slot ∈ g.slots.listedSlots id := by
  rw [gossipNodeInfo, mem_bitmap]

lemma mem_ownerInfo_slots {ownerID : String} : s ∈ (g.ownerInfo slot ownerID epoch).slots ↔
      s < slotCount ∧ (s = slot ∨ s ∈ g.slots.listedSlots ownerID) := by
  rw [ownerInfo, mem_bitmap, List.mem_cons]

lemma canApply_iff : g.canApplySlotOwnership slot epoch = true ↔ (g.register slot).Accepts epoch.toNat := by
  have hzero : ∀ e : UInt64, e = 0 ↔ e.toNat = 0 := fun e => by
    rw [← UInt64.toNat_inj]
    rfl
  unfold canApplySlotOwnership Register.Accepts register
  split
  · next h =>
    rw [hzero] at h
    rw [decide_eq_true_iff, hzero]
    dsimp only
    omega
  · next h =>
    rw [hzero] at h
    rw [decide_eq_true_iff, gt_iff_lt, UInt64.lt_iff_toNat_lt]
    dsimp only
    omega

lemma recordSlotEpoch_slots : (g.recordSlotEpoch slot epoch).slots = g.slots := by
  unfold recordSlotEpoch
  split <;> rfl

lemma register_record (h : (g.register slot).epoch ≤ epoch.toNat) :
    (g.recordSlotEpoch slot epoch).register slot = ⟨g.slots.getSlotNode slot, epoch.toNat⟩ := by
  have hseen : max (g.slotEpochs slot).toNat (g.slots.getSlotConfigEpoch slot).toNat ≤ epoch.toNat :=
    seenEpoch_toNat slot ▸ h
  have hge : epoch ≥ g.slotEpochs slot := by
    rw [ge_iff_le, UInt64.le_iff_toNat_le]
    omega
  rw [recordSlotEpoch, if_pos hge]
  ext1
  · rfl
  · simp only [register, seenEpoch_toNat, update_self]
    omega

lemma register_record_of_ne (h : s ≠ slot) : (g.recordSlotEpoch slot epoch).register s = g.register s := by
  unfold recordSlotEpoch
  split
  · simp [register, seenEpoch, update_of_ne h]
  · rfl

lemma register_congr {g' : Gossip} (hepochs : g'.slotEpochs s = g.slotEpochs s)
    (hnode : (g'.slots.slots s).nodeID = (g.slots.slots s).nodeID)
    (hep : (g'.slots.slots s).configEpoch = (g.slots.slots s).configEpoch) :
    g'.register s = g.register s := by
  unfold register seenEpoch getSlotNode getSlotConfigEpoch
  rw [hepochs, hnode, hep]

/-- **An entry for a slot is a claim on its register.** -/
lemma register_applySlot (hs : s < slotCount) : (g.applySlot id epoch slot).register s =
      if s = slot then (g.register s).claim ⟨id, epoch.toNat⟩ else g.register s := by
  unfold applySlot
  by_cases hcan : g.canApplySlotOwnership slot epoch
  · rw [if_neg (not_not.2 hcan)]
    have hacc := canApply_iff.1 hcan
    have hle : (g.register slot).epoch ≤ epoch.toNat := by
      unfold Register.Accepts at hacc
      omega
    by_cases hown : g.slots.getSlotNode slot ≠ id
    · rw [if_pos hown]
      by_cases hslot : s = slot
      · subst hslot
        obtain ⟨sm, hsm, hsl⟩ := g.slots.assignSlot_of_lt id hs
        have hreg : ({ g with slots := sm } : Gossip).register s = ⟨id, (g.register s).epoch⟩ := by
          have hnode : (sm.slots s).nodeID = id := by rw [hsl, update_self]
          have hcfg : (sm.slots s).configEpoch = (g.slots.slots s).configEpoch := by
            rw [hsl, update_self]
          ext1
          · exact (getSlotNode_of_lt hs).trans hnode
          · simp only [register, seenEpoch, getSlotConfigEpoch_of_lt hs, hcfg]
        rw [hsm, if_pos rfl, Register.claim_of_accepts hacc]
        refine (register_record (by rw [hreg]; exact hle)).trans ?_
        rw [getSlotNode_of_lt hs, hsl, update_self]
      · rw [if_neg hslot]
        cases hsm : g.slots.assignSlot slot id with
        | error err => rfl
        | ok sm =>
          have hoth : sm.slots s = g.slots.slots s := by
            obtain ⟨-, hsl⟩ := of_assignSlot_eq_ok _ _ hsm
            rw [hsl, update_of_ne hslot]
          refine (register_record_of_ne hslot).trans (register_congr rfl ?_ ?_)
          · exact congrArg SlotInfo.nodeID hoth
          · exact congrArg SlotInfo.configEpoch hoth
    · rw [if_neg hown]
      have hown := not_not.1 hown
      by_cases hslot : s = slot
      · subst hslot
        rw [if_pos rfl, Register.claim_of_accepts hacc, register_record hle, hown]
      · rw [if_neg hslot, register_record_of_ne hslot]
  · rw [if_pos hcan]
    split
    · next hslot =>
      subst hslot
      rw [Register.claim_of_not_accepts fun hacc => hcan (canApply_iff.2 hacc)]
    · rfl

lemma register_applySlots (hs : s < slotCount) (slots : List UInt16) :
    (slots.foldl (fun g slot => g.applySlot id epoch slot) g).register s =
      if s ∈ slots then (g.register s).claim ⟨id, epoch.toNat⟩ else g.register s := by
  induction slots generalizing g with
  | nil => rfl
  | cons slot slots ih =>
    rw [List.foldl_cons, ih, register_applySlot hs]
    by_cases hslot : s = slot
    · subst hslot
      simp
    · simp [hslot]

lemma registerReplica_slots (g : Gossip) (info : NodeInfo) (direct : Bool) (s : UInt16) :
    ((g.registerReplica info direct).slots.slots s).nodeID = (g.slots.slots s).nodeID ∧
      ((g.registerReplica info direct).slots.slots s).configEpoch = (g.slots.slots s).configEpoch := by
  have hframe : ∀ (slots : List UInt16) (sm : SlotManager),
      ((slots.foldl (fun sm slot => sm.addSlotReplica slot info.id) sm).slots s).nodeID = (sm.slots s).nodeID ∧
        ((slots.foldl (fun sm slot => sm.addSlotReplica slot info.id) sm).slots s).configEpoch =
          (sm.slots s).configEpoch := by
    intro slots
    induction slots with
    | nil => exact fun sm => ⟨rfl, rfl⟩
    | cons slot slots ih =>
      intro sm
      have hstep := sm.addSlotReplica_frame slot info.id s
      have hrest := ih (sm.addSlotReplica slot info.id)
      exact ⟨hrest.1.trans hstep.1, hrest.2.trans hstep.2⟩
  unfold registerReplica
  split
  · exact hframe _ _
  · exact ⟨rfl, rfl⟩

lemma register_registerReplica {info : NodeInfo} {direct : Bool} (s : UInt16) :
    (g.registerReplica info direct).register s = g.register s := by
  refine register_congr ?_ (registerReplica_slots g info direct s).1 (registerReplica_slots g info direct s).2
  unfold registerReplica
  split <;> rfl

/-- **An entry is a claim on each of its slots**, when its node counts as a master. -/
lemma register_processNodeInfo {info : NodeInfo} {direct : Bool} (hs : s < slotCount) :
    (g.processNodeInfo info direct).register s = if (g.learn info direct).role = .master ∧ s ∈ info.slots then
        (g.register s).claim ⟨info.id, info.configEpoch.toNat⟩
      else g.register s := by
  have hbase : (({ g with nodes := g.nodes.insert info.id (g.learn info direct) } :
      Gossip).registerReplica info direct).register s = g.register s :=
    (register_registerReplica s).trans rfl
  unfold processNodeInfo
  by_cases hrole : (g.learn info direct).role = .master
  · rw [if_pos hrole, register_applySlots hs, hbase]
    simp [hrole]
  · rw [if_neg hrole, hbase]
    simp [hrole]

end Gossip

end AutoCache.Cluster
