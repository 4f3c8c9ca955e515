import Mathlib.Logic.Function.Basic
import AutoCache.Lib.GoMap
import AutoCache.Ring.Defs

/-!
# The slot manager (`internal/cluster/slots.go`)

The cluster divides the keys into 16384 slots. For each slot the manager keeps who owns it, who
replicates it, and the counter the replication log numbers of that slot are taken from
(`NextLSN`); `nodeSlots` is the reverse index from a node to its slots.

Slots are the values of a `uint16`, so a slot argument can lie outside the table. Most operations
answer that with an error; `FinishMigration` indexes the array without a check and panics.

The saved state is what `internal/cluster/state` writes to disk (`PersistentState`): the three
getters produce it and `RestoreFromState` reads it back. Its maps are modelled as functions on the
slots, which is what the getters return; the order in which Go ranges over them only shows in the
order of the lists of `nodeSlots`.
-/

namespace AutoCache.Cluster

open Function

def slotCount : UInt16 := 16384

inductive SlotState where
  | normal
  | importing
  | exporting
  deriving DecidableEq, Repr

structure SlotReplica where
  nodeID : String
  matchLSN : UInt64 := 0
  healthy : Bool := false
  deriving DecidableEq, Repr

structure SlotInfo where
  state : SlotState := .normal
  nodeID : String := ""
  primaryID : String := ""
  replicas : List SlotReplica := []
  configEpoch : UInt64 := 0
  nextLSN : UInt64 := 0
  importing : String := ""
  exporting : String := ""
  deriving DecidableEq, Repr

structure SlotManager where
  slots : UInt16 → SlotInfo
  nodeSlots : GoMap String (List UInt16)

/-- The errors the manager returns, with the values their texts print. -/
inductive SlotError where
  /-- `invalid slot: %d` -/
  | invalidSlot (slot : UInt16)
  /-- `slot %d not assigned` -/
  | notAssigned (slot : UInt16)
  /-- `replica %s not found for slot %d` -/
  | replicaNotFound (nodeID : String) (slot : UInt16)
  deriving DecidableEq, Repr

namespace SlotManager

def new : SlotManager := { slots := fun _ => {}, nodeSlots := ∅ }

def modify (sm : SlotManager) (slot : UInt16) (f : SlotInfo → SlotInfo) : SlotManager :=
  { sm with slots := update sm.slots slot (f (sm.slots slot)) }

/-! ## Owners -/

/-- The slots listed for a node; an absent key reads as the nil slice. -/
def listedSlots (sm : SlotManager) (nodeID : String) : List UInt16 :=
  (sm.nodeSlots.lookup nodeID).getD []

def removeSlotFromNode (sm : SlotManager) (nodeID : String) (slot : UInt16) : SlotManager :=
  if slot ∈ sm.listedSlots nodeID then
    { sm with nodeSlots := sm.nodeSlots.insert nodeID ((sm.listedSlots nodeID).erase slot) }
  else sm

/-- `nodeSlots[nodeID] = append(nodeSlots[nodeID], slot)`. -/
def listSlot (sm : SlotManager) (nodeID : String) (slot : UInt16) : SlotManager :=
  { sm with nodeSlots := sm.nodeSlots.insert nodeID (sm.listedSlots nodeID ++ [slot]) }

def setOwnerLocked (sm : SlotManager) (slot : UInt16) (nodeID : String) : SlotManager :=
  let oldNodeID := (sm.slots slot).nodeID
  let sm := if oldNodeID ≠ "" ∧ oldNodeID ≠ nodeID then sm.removeSlotFromNode oldNodeID slot else sm
  let sm := sm.modify slot fun info => { info with nodeID := nodeID }
  if nodeID = "" then sm
  else if slot ∈ sm.listedSlots nodeID then sm
  else sm.listSlot nodeID slot

def assignSlot (sm : SlotManager) (slot : UInt16) (nodeID : String) :
    Except SlotError SlotManager :=
  if slotCount ≤ slot then .error (.invalidSlot slot)
  else
    let oldNodeID := (sm.slots slot).nodeID
    let sm := if oldNodeID ≠ "" then sm.removeSlotFromNode oldNodeID slot else sm
    let sm := sm.modify slot fun info =>
      { info with nodeID := nodeID, primaryID := nodeID, replicas := [], state := .normal }
    .ok (sm.listSlot nodeID slot)

/-- The loop of `AssignSlotRange`: the slots before the first error stay assigned. -/
def assignSlots (sm : SlotManager) (nodeID : String) :
    List UInt16 → SlotManager × Except SlotError Unit
  | [] => (sm, .ok ())
  | slot :: slots =>
    match sm.assignSlot slot nodeID with
    | .error err => (sm, .error err)
    | .ok sm => assignSlots sm nodeID slots

def assignSlotRange (sm : SlotManager) (start stop : UInt16) (nodeID : String) :
    SlotManager × Except SlotError Unit :=
  sm.assignSlots nodeID
    ((List.range (stop.toNat + 1 - start.toNat)).map fun i => UInt16.ofNat (start.toNat + i))

def getSlotNode (sm : SlotManager) (slot : UInt16) : String :=
  if slotCount ≤ slot then "" else (sm.slots slot).nodeID

def getSlotConfigEpoch (sm : SlotManager) (slot : UInt16) : UInt64 :=
  if slotCount ≤ slot then 0 else (sm.slots slot).configEpoch

def setSlotConfigEpoch (sm : SlotManager) (slot : UInt16) (epoch : UInt64) : SlotManager :=
  if slotCount ≤ slot then sm else sm.modify slot fun info => { info with configEpoch := epoch }

/-! ## Migrations

These index the array without a check: a slot outside the table is an index out of range. -/

def setImporting (sm : SlotManager) (slot : UInt16) (fromNodeID : String) : Go SlotManager :=
  if slotCount ≤ slot then throw .indexRange
  else pure <| sm.modify slot fun info => { info with state := .importing, importing := fromNodeID }

def setExporting (sm : SlotManager) (slot : UInt16) (toNodeID : String) : Go SlotManager :=
  if slotCount ≤ slot then throw .indexRange
  else pure <| sm.modify slot fun info => { info with state := .exporting, exporting := toNodeID }

def setStable (sm : SlotManager) (slot : UInt16) : Go SlotManager :=
  if slotCount ≤ slot then throw .indexRange
  else
    pure <| sm.modify slot fun info =>
      { info with
        state := .normal
        importing := ""
        exporting := ""
        primaryID := if info.primaryID = "" then info.nodeID else info.primaryID }

def finishMigration (sm : SlotManager) (slot : UInt16) (newNodeID : String) : Go SlotManager :=
  if slotCount ≤ slot then throw .indexRange
  else
    pure <| (sm.setOwnerLocked slot newNodeID).modify slot fun info =>
      { info with state := .normal, primaryID := newNodeID, importing := "", exporting := "" }

/-! ## Replicas and log numbers -/

def configureReplication (sm : SlotManager) (slot : UInt16) (primaryID : String)
    (replicaIDs : List String) (epoch : UInt64) : Except SlotError SlotManager :=
  if slotCount ≤ slot then .error (.invalidSlot slot)
  else
    let replicas := (replicaIDs.filter fun id => id ≠ "" ∧ id ≠ primaryID).map fun id =>
      { nodeID := id, healthy := true }
    .ok <| (sm.setOwnerLocked slot primaryID).modify slot fun info =>
      { info with primaryID := primaryID, configEpoch := epoch, replicas := replicas }

/-- `AddSlotReplica`: a replica that is listed already stays as it is. -/
def addSlotReplica (sm : SlotManager) (slot : UInt16) (replicaID : String) : SlotManager :=
  if slotCount ≤ slot ∨ replicaID = "" then sm
  else if (sm.slots slot).nodeID = "" then sm
  else if replicaID ∈ (sm.slots slot).replicas.map SlotReplica.nodeID then sm
  else
    sm.modify slot fun info =>
      { info with replicas := info.replicas ++ [{ nodeID := replicaID, healthy := true }] }

/-- One slot of `AddReplicaToMaster`. -/
def withReplica (info : SlotInfo) (replicaID : String) (epoch : UInt64) : SlotInfo :=
  { info with
    primaryID := info.nodeID
    configEpoch := epoch
    replicas :=
      if replicaID ∈ info.replicas.map SlotReplica.nodeID then info.replicas
      else info.replicas ++ [{ nodeID := replicaID, healthy := true }] }

/-- `AddReplicaToMaster`; its error changes nothing and is the text `invalid master/replica IDs`. -/
def addReplicaToMaster (sm : SlotManager) (masterID replicaID : String) (epoch : UInt64) :
    Option SlotManager :=
  if masterID = "" ∨ replicaID = "" ∨ masterID = replicaID then none
  else
    some { sm with slots := fun slot =>
      let info := sm.slots slot
      if slot < slotCount ∧ info.nodeID = masterID then withReplica info replicaID epoch else info }

/-- The epoch and the log number of the next write of a slot. -/
def allocateLSN (sm : SlotManager) (slot : UInt16) :
    Except SlotError (SlotManager × UInt64 × UInt64) :=
  if slotCount ≤ slot then .error (.invalidSlot slot)
  else if (sm.slots slot).nodeID = "" then .error (.notAssigned slot)
  else
    let lsn := (sm.slots slot).nextLSN + 1
    .ok (sm.modify slot fun info => { info with nextLSN := lsn }, (sm.slots slot).configEpoch, lsn)

/-- The first replica of that name is brought up to date; `none` when there is none. -/
def touchReplica (nodeID : String) (lsn : UInt64) : List SlotReplica → Option (List SlotReplica)
  | [] => none
  | r :: rs =>
    if r.nodeID ≠ nodeID then (touchReplica nodeID lsn rs).map (r :: ·)
    else
      some ({ r with matchLSN := if r.matchLSN < lsn then lsn else r.matchLSN, healthy := true }
        :: rs)

def updateReplicaLSN (sm : SlotManager) (slot : UInt16) (nodeID : String) (lsn : UInt64) :
    Except SlotError SlotManager :=
  if slotCount ≤ slot then .error (.invalidSlot slot)
  else
    match touchReplica nodeID lsn (sm.slots slot).replicas with
    | none => .error (.replicaNotFound nodeID slot)
    | some replicas => .ok (sm.modify slot fun info => { info with replicas := replicas })

/-- The replica that `PromoteReplica` promotes: its loop keeps the last one of that name. -/
def promotedReplica (replicas : List SlotReplica) (nodeID : String) : Option SlotReplica :=
  (replicas.filter fun r => r.nodeID = nodeID).getLast?

def promoteReplica (sm : SlotManager) (slot : UInt16) (nodeID : String) :
    Except SlotError SlotManager :=
  if slotCount ≤ slot then .error (.invalidSlot slot)
  else
    let info := sm.slots slot
    let remaining := info.replicas.filter fun r => r.nodeID ≠ nodeID
    match promotedReplica info.replicas nodeID with
    | none => .error (.replicaNotFound nodeID slot)
    | some promoted =>
      let oldPrimary := if info.primaryID = "" then info.nodeID else info.primaryID
      let remaining :=
        if oldPrimary ≠ "" ∧ oldPrimary ≠ nodeID then
          remaining ++ [{ nodeID := oldPrimary, healthy := true }]
        else remaining
      .ok <| (sm.setOwnerLocked slot nodeID).modify slot fun info =>
        { info with
          primaryID := nodeID
          replicas := remaining
          configEpoch := info.configEpoch + 1
          nextLSN := if info.nextLSN < promoted.matchLSN then promoted.matchLSN else info.nextLSN }

end SlotManager

/-! ## The saved state -/

structure MigrationState where
  sourceNodeID : String
  targetNodeID : String
  state : SlotState
  deriving DecidableEq, Repr

structure SlotReplicaSet where
  primaryID : String
  replicas : List SlotReplica
  configEpoch : UInt64
  nextLSN : UInt64
  deriving DecidableEq, Repr

/-- The slot part of `PersistentState`. -/
structure SavedSlots where
  slotMap : UInt16 → String
  migratingSlots : UInt16 → Option MigrationState
  slotReplicas : UInt16 → Option SlotReplicaSet

namespace SlotManager

def getSlotMapSnapshot (sm : SlotManager) (slot : UInt16) : String := (sm.slots slot).nodeID

def getMigratingSlots (sm : SlotManager) (slot : UInt16) : Option MigrationState :=
  let info := sm.slots slot
  match info.state with
  | .importing => some ⟨info.importing, info.nodeID, .importing⟩
  | .exporting => some ⟨info.nodeID, info.exporting, .exporting⟩
  | .normal => none

def getSlotReplicationState (sm : SlotManager) (slot : UInt16) : Option SlotReplicaSet :=
  let info := sm.slots slot
  -- a slot nobody ever touched is left out of the file
  if info.primaryID = "" ∧ info.replicas = [] ∧ info.configEpoch = 0 ∧ info.nextLSN = 0 then none
  else some ⟨info.primaryID, info.replicas, info.configEpoch, info.nextLSN⟩

def save (sm : SlotManager) : SavedSlots where
  slotMap := sm.getSlotMapSnapshot
  migratingSlots := sm.getMigratingSlots
  slotReplicas := sm.getSlotReplicationState

/-- The owner a slot has after the replica sets were read: a saved primary overrides the slot
map. -/
def restoredOwner (saved : SavedSlots) (slot : UInt16) : String :=
  match saved.slotReplicas slot with
  | none => saved.slotMap slot
  | some set => if set.primaryID ≠ "" then set.primaryID else saved.slotMap slot

def restoredInfo (saved : SavedSlots) (slot : UInt16) : SlotInfo :=
  let owner := restoredOwner saved slot
  let info : SlotInfo :=
    match saved.slotReplicas slot with
    | none => { nodeID := owner, primaryID := owner }
    | some set =>
      { nodeID := owner, primaryID := owner, replicas := set.replicas,
        configEpoch := set.configEpoch, nextLSN := set.nextLSN }
  match saved.migratingSlots slot with
  | none => info
  | some migration =>
    match migration.state with
    | .importing => { info with state := .importing, importing := migration.sourceNodeID }
    | .exporting => { info with state := .exporting, exporting := migration.targetNodeID }
    | .normal => info

def allSlots : List UInt16 := (List.range slotCount.toNat).map UInt16.ofNat

/-- `RestoreFromState` on a new manager. The records are rebuilt slot by slot; the reverse index
takes two passes, one over the slot map and one over the saved primaries. -/
def restoreFromState (saved : SavedSlots) : SlotManager :=
  let mapped := allSlots.foldl (fun sm slot =>
    if saved.slotMap slot ≠ "" then
      (sm.modify slot fun info => { info with nodeID := saved.slotMap slot }).listSlot
        (saved.slotMap slot) slot
    else sm) new
  let owned := allSlots.foldl (fun sm slot =>
    match saved.slotReplicas slot with
    | some set => if set.primaryID ≠ "" then sm.setOwnerLocked slot set.primaryID else sm
    | none => sm) mapped
  { slots := fun slot => if slotCount ≤ slot then {} else restoredInfo saved slot
    nodeSlots := owned.nodeSlots }

/-! ## What the operations do to the records

The reverse index is a separate field, so only the records are followed here. -/

variable (sm : SlotManager) (slot : UInt16) (nodeID : String)

lemma modify_slots (f : SlotInfo → SlotInfo) : (sm.modify slot f).slots = update sm.slots slot (f (sm.slots slot)) := rfl

@[simp] lemma removeSlotFromNode_slots : (sm.removeSlotFromNode nodeID slot).slots = sm.slots := by
  unfold removeSlotFromNode
  split <;> rfl

@[simp] lemma listSlot_slots : (sm.listSlot nodeID slot).slots = sm.slots := rfl

@[simp] lemma setOwnerLocked_slots : (sm.setOwnerLocked slot nodeID).slots =
      update sm.slots slot { sm.slots slot with nodeID := nodeID } := by
  unfold setOwnerLocked
  dsimp only
  split_ifs <;> simp [modify_slots]

lemma getSlotNode_of_lt {sm : SlotManager} {slot : UInt16} (h : slot < slotCount) :
    sm.getSlotNode slot = (sm.slots slot).nodeID := if_neg (UInt16.not_le.2 h)

lemma getSlotConfigEpoch_of_lt {sm : SlotManager} {slot : UInt16} (h : slot < slotCount) :
    sm.getSlotConfigEpoch slot = (sm.slots slot).configEpoch := if_neg (UInt16.not_le.2 h)

lemma assignSlot_of_lt {slot : UInt16} (h : slot < slotCount) : ∃ sm', sm.assignSlot slot nodeID = .ok sm' ∧
      sm'.slots = update sm.slots slot
        { sm.slots slot with nodeID := nodeID, primaryID := nodeID, replicas := [], state := .normal } := by
  refine ⟨_, if_neg (UInt16.not_le.2 h), ?_⟩
  rw [listSlot_slots, modify_slots]
  split <;> simp

lemma of_assignSlot_eq_ok {sm' : SlotManager} {slot : UInt16} (h : sm.assignSlot slot nodeID = .ok sm') :
    slot < slotCount ∧ sm'.slots = update sm.slots slot
      { sm.slots slot with nodeID := nodeID, primaryID := nodeID, replicas := [], state := .normal } := by
  by_cases hslot : slot < slotCount
  · obtain ⟨_, hok, hsl⟩ := assignSlot_of_lt sm nodeID hslot
    cases hok.symm.trans h
    exact ⟨hslot, hsl⟩
  · rw [assignSlot, if_pos (UInt16.not_lt.1 hslot)] at h
    cases h

lemma setOwnerLocked_modify_slots (f : SlotInfo → SlotInfo) : ((sm.setOwnerLocked slot nodeID).modify slot f).slots =
      update sm.slots slot (f { sm.slots slot with nodeID := nodeID }) := by
  rw [modify_slots, setOwnerLocked_slots, update_idem, update_self]

/-- The replicas that `ConfigureReplication` writes. -/
def configuredReplicas (primaryID : String) (replicaIDs : List String) : List SlotReplica :=
  (replicaIDs.filter fun id => id ≠ "" ∧ id ≠ primaryID).map fun id => { nodeID := id, healthy := true }

lemma configureReplication_of_lt {slot : UInt16} (h : slot < slotCount) (replicaIDs : List String) (epoch : UInt64) :
    ∃ sm', sm.configureReplication slot nodeID replicaIDs epoch = .ok sm' ∧ sm'.slots = update sm.slots slot
        { sm.slots slot with nodeID := nodeID, primaryID := nodeID, configEpoch := epoch,
                             replicas := configuredReplicas nodeID replicaIDs } := by
  refine ⟨_, if_neg (UInt16.not_le.2 h), ?_⟩
  rw [setOwnerLocked_modify_slots]
  rfl

lemma finishMigration_of_lt {slot : UInt16} (h : slot < slotCount) :
    ∃ sm', sm.finishMigration slot nodeID = .ok sm' ∧ sm'.slots = update sm.slots slot
        { sm.slots slot with state := .normal, nodeID := nodeID, primaryID := nodeID, importing := "", exporting := "" } := by
  refine ⟨_, if_neg (UInt16.not_le.2 h), ?_⟩
  rw [setOwnerLocked_modify_slots]

lemma promotedReplica_eq_none_iff {replicas : List SlotReplica} {nodeID : String} :
    promotedReplica replicas nodeID = none ↔ nodeID ∉ replicas.map SlotReplica.nodeID := by
  rw [promotedReplica, List.getLast?_eq_none_iff, List.filter_eq_nil_iff]
  simp

/-- The primary of a record: a record that names none has its owner for primary. -/
def currentPrimary (info : SlotInfo) : String :=
  if info.primaryID = "" then info.nodeID else info.primaryID

/-- The replicas after a promotion: the old primary takes the place of the new one. -/
def remainingReplicas (info : SlotInfo) (nodeID : String) : List SlotReplica :=
  if currentPrimary info ≠ "" ∧ currentPrimary info ≠ nodeID then
    (info.replicas.filter fun r => r.nodeID ≠ nodeID) ++
      [{ nodeID := currentPrimary info, healthy := true }]
  else info.replicas.filter fun r => r.nodeID ≠ nodeID

lemma promoteReplica_of_mem {sm : SlotManager} {slot : UInt16} {nodeID : String} (h : slot < slotCount)
    (hmem : nodeID ∈ (sm.slots slot).replicas.map SlotReplica.nodeID) :
    ∃ sm' promoted, sm.promoteReplica slot nodeID = .ok sm' ∧
      promotedReplica (sm.slots slot).replicas nodeID = some promoted ∧
      sm'.slots = update sm.slots slot { sm.slots slot with
          nodeID := nodeID
          primaryID := nodeID
          replicas := remainingReplicas (sm.slots slot) nodeID
          configEpoch := (sm.slots slot).configEpoch + 1
          nextLSN :=
            if (sm.slots slot).nextLSN < promoted.matchLSN then promoted.matchLSN
            else (sm.slots slot).nextLSN } := by
  cases hpromoted : promotedReplica (sm.slots slot).replicas nodeID with
  | none => exact absurd hmem (promotedReplica_eq_none_iff.1 hpromoted)
  | some promoted =>
    have hok : sm.promoteReplica slot nodeID = .ok ((sm.setOwnerLocked slot nodeID).modify slot fun info =>
          { info with
            primaryID := nodeID
            replicas := remainingReplicas (sm.slots slot) nodeID
            configEpoch := info.configEpoch + 1
            nextLSN := if info.nextLSN < promoted.matchLSN then promoted.matchLSN
              else info.nextLSN }) := by
      rw [promoteReplica, if_neg (UInt16.not_le.2 h)]
      dsimp only
      rw [hpromoted]
      rfl
    refine ⟨_, promoted, hok, rfl, ?_⟩
    rw [setOwnerLocked_modify_slots]

lemma promoteReplica_of_not_mem {sm : SlotManager} {slot : UInt16} {nodeID : String}
    (h : ¬ (slot < slotCount ∧ nodeID ∈ (sm.slots slot).replicas.map SlotReplica.nodeID)) :
    ∃ err, sm.promoteReplica slot nodeID = .error err := by
  unfold promoteReplica
  by_cases hslot : slot < slotCount
  · refine ⟨.replicaNotFound nodeID slot, ?_⟩
    rw [if_neg (UInt16.not_le.2 hslot)]
    dsimp only
    rw [promotedReplica_eq_none_iff.2 fun hmem => h ⟨hslot, hmem⟩]
  · exact ⟨_, if_pos (UInt16.not_lt.1 hslot)⟩

lemma toNat_ofNat {n : ℕ} (h : n < slotCount.toNat) : (UInt16.ofNat n).toNat = n :=
  UInt16.toNat_ofNat_of_lt' (h.trans_le (by decide))

lemma map_toNat_allSlots : allSlots.map UInt16.toNat = List.range slotCount.toNat := by
  rw [allSlots, List.map_map]
  exact (List.map_congr_left fun n hn => toNat_ofNat (List.mem_range.1 hn)).trans (List.map_id _)

lemma mem_allSlots {slot : UInt16} : slot ∈ allSlots ↔ slot < slotCount := by
  rw [← List.mem_map_of_injective (f := UInt16.toNat) fun _ _ => UInt16.toNat_inj.1, map_toNat_allSlots,
    List.mem_range, UInt16.lt_iff_toNat_lt]

lemma mem_listedSlots_listSlot : slot ∈ (sm.listSlot nodeID slot).listedSlots nodeID := by
  simp [listedSlots, listSlot]

lemma mem_listedSlots_assignSlot {sm sm' : SlotManager} {slot : UInt16} {nodeID : String}
    (h : sm.assignSlot slot nodeID = .ok sm') : slot ∈ sm'.listedSlots nodeID := by
  unfold assignSlot at h
  split at h
  · cases h
  · cases h
    exact mem_listedSlots_listSlot _ _ _

lemma addSlotReplica_frame (replicaID : String) (s : UInt16) :
    ((sm.addSlotReplica slot replicaID).slots s).nodeID = (sm.slots s).nodeID ∧
      ((sm.addSlotReplica slot replicaID).slots s).configEpoch = (sm.slots s).configEpoch := by
  unfold addSlotReplica
  split_ifs
  · exact ⟨rfl, rfl⟩
  · exact ⟨rfl, rfl⟩
  · exact ⟨rfl, rfl⟩
  · rw [modify_slots]
    by_cases hs : s = slot
    · rw [hs, update_self]
      exact ⟨rfl, rfl⟩
    · rw [update_of_ne hs]
      exact ⟨rfl, rfl⟩

lemma allocateLSN_of_assigned {sm : SlotManager} {slot : UInt16} (hslot : slot < slotCount)
    (hown : (sm.slots slot).nodeID ≠ "") :
    sm.allocateLSN slot = .ok (sm.modify slot fun info => { info with nextLSN := (sm.slots slot).nextLSN + 1 },
        (sm.slots slot).configEpoch, (sm.slots slot).nextLSN + 1) := by
  rw [allocateLSN, if_neg (by simpa using hslot), if_neg hown]

lemma allocateLSN_cases (sm : SlotManager) (slot : UInt16) :
    (slot < slotCount ∧ (sm.slots slot).nodeID ≠ "") ∨ ∃ err, sm.allocateLSN slot = .error err := by
  by_cases hslot : slotCount ≤ slot
  · exact .inr ⟨_, if_pos hslot⟩
  · by_cases hown : (sm.slots slot).nodeID = ""
    · refine .inr ⟨.notAssigned slot, ?_⟩
      rw [allocateLSN, if_neg hslot, if_pos hown]
    · exact .inl ⟨by simpa using hslot, hown⟩

end SlotManager

end AutoCache.Cluster
