import AutoCache.Cluster.Restart

/-!
# Replica sets (`internal/cluster/slots.go`, `internal/cluster/failover/manager.go`)

Who replicates a slot is edited by seven operations with checks of their own. A replica set is well formed
when the primary is not in it and its names are distinct and not empty; then a failover never picks the node
that it is to replace. Three operations can leave one that is not: a replica is added that owns the slot, a
list with a repeated name is configured, and a slot is given to one of its replicas.
-/

namespace AutoCache.Cluster

open List SlotInfo Function

/-- The names of the replicas. -/
def SlotInfo.replicaIDs (info : SlotInfo) : List String := info.replicas.map SlotReplica.nodeID

structure SlotInfo.WellReplicated (info : SlotInfo) : Prop where
  primary_not_mem : info.primaryID ∉ info.replicaIDs
  nodup : info.replicaIDs.Nodup
  empty_not_mem : "" ∉ info.replicaIDs

lemma SlotInfo.WellReplicated.append_iff {info info' : SlotInfo} {id : String}
    (h : info.WellReplicated) (hids : info'.replicaIDs = info.replicaIDs ++ [id])
    (hprim : info'.primaryID = info.primaryID) (hname : id ≠ "") (hnew : id ∉ info.replicaIDs) :
    info'.WellReplicated ↔ id ≠ info.primaryID := by
  constructor
  · intro h' heq
    apply h'.primary_not_mem
    rw [hids, hprim, heq]
    simp
  · intro hne
    refine ⟨?_, ?_, ?_⟩
    · rw [hids, hprim]
      simp [h.primary_not_mem, hne.symm]
    · rw [hids]
      exact h.nodup.append (nodup_singleton _) (disjoint_singleton.2 hnew)
    · rw [hids]
      simp [h.empty_not_mem, hname.symm]

inductive SelectError where
  /-- `slot %d not found` -/
  | slotNotFound (slot : UInt16)
  /-- `no healthy replica for slot %d` -/
  | noHealthyReplica (slot : UInt16)
  deriving DecidableEq, Repr

namespace SlotManager

/-! ## The choice of a failover -/

/-- The loop of `SelectBestReplica`: the best so far and its log number. -/
def betterReplica (best : String × UInt64) (replica : SlotReplica) : String × UInt64 :=
  if ¬ replica.healthy then best
  else if best.1 = "" ∨ replica.matchLSN > best.2 then (replica.nodeID, replica.matchLSN)
  else best

def selectBestReplica (sm : SlotManager) (slot : UInt16) : Except SelectError String :=
  if slotCount ≤ slot then .error (.slotNotFound slot)
  else
    let best := (sm.slots slot).replicas.foldl betterReplica ("", 0)
    if best.1 = "" then .error (.noHealthyReplica slot) else .ok best.1

lemma foldl_betterReplica_fst (replicas : List SlotReplica) (best : String × UInt64) :
    (replicas.foldl betterReplica best).1 = best.1 ∨
      (replicas.foldl betterReplica best).1 ∈ replicas.map SlotReplica.nodeID := by
  induction replicas generalizing best with
  | nil => exact .inl rfl
  | cons replica replicas ih =>
    rw [foldl_cons, map_cons, mem_cons]
    rcases ih (betterReplica best replica) with h | h
    · rw [h]
      unfold betterReplica
      split_ifs <;> simp
    · exact .inr (.inr h)

variable {sm sm' : SlotManager} {slot : UInt16} {nodeID : String}

lemma selectBestReplica_mem (h : sm.selectBestReplica slot = .ok nodeID) :
    nodeID ≠ "" ∧ nodeID ∈ (sm.slots slot).replicaIDs := by
  unfold selectBestReplica at h
  split at h
  · cases h
  · dsimp only at h
    split at h
    · cases h
    · next hbest =>
      cases h
      exact ⟨hbest, (foldl_betterReplica_fst _ _).resolve_left hbest⟩

/-! ## Well formed tables -/

def WellReplicated (sm : SlotManager) : Prop :=
  ∀ slot < slotCount, (sm.slots slot).nodeID ≠ "" → (sm.slots slot).WellReplicated

/-- A failover of a slot never selects its primary. -/
def SelectsOthers (sm : SlotManager) : Prop :=
  ∀ slot nodeID, sm.selectBestReplica slot = .ok nodeID → nodeID ≠ (sm.slots slot).primaryID

section

variable (h : sm.WellReplicated)
include h

lemma WellReplicated.selectsOthers (hsettled : sm.Settled) : sm.SelectsOthers := by
  intro slot nodeID hsel hprim
  obtain ⟨hne, hmem⟩ := selectBestReplica_mem hsel
  have hslot : slot < slotCount := by
    by_contra hge
    rw [selectBestReplica, if_pos (UInt16.not_lt.1 hge)] at hsel
    cases hsel
  have hasg : (sm.slots slot).nodeID ≠ "" := by
    rw [← hsettled slot, ← hprim]
    exact hne
  rw [hprim] at hmem
  exact (h slot hslot hasg).primary_not_mem hmem

lemma WellReplicated.update_iff {info : SlotInfo} (hslot : slot < slotCount) (hsl : sm'.slots = update sm.slots slot info) :
    sm'.WellReplicated ↔ (info.nodeID ≠ "" → info.WellReplicated) := by
  constructor
  · intro h'
    have hself := h' slot hslot
    rwa [hsl, update_self] at hself
  · intro hinfo s hs
    rw [hsl, update_apply]
    split
    · exact hinfo
    · exact h s hs

lemma WellReplicated.congr (hsame : ∀ s, (sm'.slots s).nodeID = (sm.slots s).nodeID ∧
      (sm'.slots s).primaryID = (sm.slots s).primaryID ∧
      (sm'.slots s).replicaIDs = (sm.slots s).replicaIDs) : sm'.WellReplicated := by
  intro s hs hasg
  obtain ⟨hnode, hprim, hids⟩ := hsame s
  rw [hnode] at hasg
  have hwell := h s hs hasg
  refine ⟨?_, ?_, ?_⟩
  · rw [hprim, hids]
    exact hwell.primary_not_mem
  · rw [hids]
    exact hwell.nodup
  · rw [hids]
    exact hwell.empty_not_mem

lemma WellReplicated.modify {f : SlotInfo → SlotInfo} (hf : (f (sm.slots slot)).nodeID = (sm.slots slot).nodeID ∧
      (f (sm.slots slot)).primaryID = (sm.slots slot).primaryID ∧
      (f (sm.slots slot)).replicaIDs = (sm.slots slot).replicaIDs) :
    (sm.modify slot f).WellReplicated := by
  refine h.congr fun s => ?_
  rw [modify_slots]
  by_cases hs : s = slot
  · rw [hs, update_self]
    exact hf
  · rw [update_of_ne hs]
    exact ⟨rfl, rfl, rfl⟩

end

/-! ## The operations that can go wrong -/

/-- What an operation needs so that it leaves well formed replica sets. -/
def KeepsReplicaSets (sm : SlotManager) : SlotAct → Prop
  | .configureReplication slot primaryID replicaIDs _ =>
    slot < slotCount → primaryID ≠ "" →
      (replicaIDs.filter fun id => id ≠ "" ∧ id ≠ primaryID).Nodup
  | .addSlotReplica slot replicaID =>
    slot < slotCount → (sm.slots slot).nodeID ≠ "" → replicaID ≠ (sm.slots slot).nodeID
  | .promoteReplica slot nodeID =>
    -- an unassigned slot can have been left with any replicas
    slot < slotCount → (sm.slots slot).nodeID = "" → nodeID ≠ "" →
      nodeID ∈ (sm.slots slot).replicaIDs →
      ((sm.slots slot).replicaIDs.filter fun id => id ≠ nodeID).Nodup ∧
        "" ∉ (sm.slots slot).replicaIDs
  | .finishMigration slot newNodeID =>
    slot < slotCount → newNodeID ≠ "" → newNodeID ∉ (sm.slots slot).replicaIDs ∧
      ((sm.slots slot).nodeID = "" →
        (sm.slots slot).replicaIDs.Nodup ∧ "" ∉ (sm.slots slot).replicaIDs)
  | .restoreFromState saved =>
    ∀ slot < slotCount, restoredOwner saved slot ≠ "" → (restoredInfo saved slot).WellReplicated
  | _ => True

lemma configuredReplicas_ids (primaryID : String) (replicaIDs : List String) :
    (configuredReplicas primaryID replicaIDs).map SlotReplica.nodeID =
      replicaIDs.filter fun id => id ≠ "" ∧ id ≠ primaryID := by
  rw [configuredReplicas, map_map]
  exact map_id _

lemma WellReplicated.configureReplication_iff {replicaIDs : List String} {epoch : UInt64} (h : sm.WellReplicated) :
    (sm.orSame (sm.configureReplication slot nodeID replicaIDs epoch)).WellReplicated ↔
      sm.KeepsReplicaSets (.configureReplication slot nodeID replicaIDs epoch) := by
  by_cases hslot : slot < slotCount
  · obtain ⟨sm', hok, hsl⟩ := sm.configureReplication_of_lt nodeID hslot replicaIDs epoch
    rw [hok]
    refine (h.update_iff hslot hsl).trans ?_
    have hids := configuredReplicas_ids nodeID replicaIDs
    constructor
    · intro hwell _ hne
      have hnd := (hwell hne).nodup
      rwa [SlotInfo.replicaIDs, hids] at hnd
    · intro hnd hne
      refine ⟨?_, ?_, ?_⟩
      · rw [SlotInfo.replicaIDs, hids]
        simp
      · rw [SlotInfo.replicaIDs, hids]
        exact hnd hslot hne
      · rw [SlotInfo.replicaIDs, hids]
        simp
  · rw [configureReplication, if_pos (UInt16.not_lt.1 hslot)]
    exact iff_of_true h fun hlt => absurd hlt hslot

lemma WellReplicated.addSlotReplica_iff {replicaID : String} (h : sm.WellReplicated) (hsettled : sm.Settled) :
    (sm.addSlotReplica slot replicaID).WellReplicated ↔ sm.KeepsReplicaSets (.addSlotReplica slot replicaID) := by
  unfold addSlotReplica
  split_ifs with hvld hown hin
  · refine iff_of_true h fun hslot hasg heq => ?_
    rcases hvld with hge | hname
    · exact UInt16.not_le.2 hslot hge
    · exact hasg (heq.symm.trans hname)
  · exact iff_of_true h fun _ hasg => absurd hown hasg
  · -- a replica of a well formed set is not the primary
    refine iff_of_true h fun hslot hasg heq => ?_
    apply (h slot hslot hasg).primary_not_mem
    rw [hsettled slot, ← heq]
    exact hin
  · rw [not_or, UInt16.not_le] at hvld
    obtain ⟨hslot, hname⟩ := hvld
    rw [h.update_iff hslot (modify_slots _ _ _)]
    have hwell : ({ sm.slots slot with
        replicas := (sm.slots slot).replicas ++ [{ nodeID := replicaID, healthy := true }] } :
          SlotInfo).WellReplicated ↔ replicaID ≠ (sm.slots slot).primaryID :=
      (h slot hslot hown).append_iff map_append rfl hname hin
    rw [hsettled slot] at hwell
    exact ⟨fun hnew _ _ => hwell.1 (hnew hown), fun hne _ => hwell.2 (hne hslot hown)⟩

lemma WellReplicated.addReplicaToMaster {masterID replicaID : String} {epoch : UInt64}
    (h : sm.WellReplicated) (hsettled : sm.Settled) :
    ((sm.addReplicaToMaster masterID replicaID epoch).getD sm).WellReplicated := by
  unfold SlotManager.addReplicaToMaster
  split_ifs with hids
  · exact h
  rw [not_or, not_or] at hids
  obtain ⟨hmaster, hreplica, hne⟩ := hids
  intro s hs
  dsimp only [Option.getD_some]
  split_ifs with hown
  · intro _
    have hwell := h s hs (by rw [hown.2]; exact hmaster)
    have hprim : (withReplica (sm.slots s) replicaID epoch).primaryID = (sm.slots s).primaryID :=
      (hsettled s).symm
    by_cases hin : replicaID ∈ (sm.slots s).replicaIDs
    · have hsame : (withReplica (sm.slots s) replicaID epoch).replicaIDs = (sm.slots s).replicaIDs :=
        congrArg (map SlotReplica.nodeID) (if_pos hin)
      exact ⟨by rw [hsame, hprim]; exact hwell.primary_not_mem, by rw [hsame]; exact hwell.nodup,
        by rw [hsame]; exact hwell.empty_not_mem⟩
    · have hadded : (withReplica (sm.slots s) replicaID epoch).replicaIDs = (sm.slots s).replicaIDs ++ [replicaID] :=
        (congrArg (map SlotReplica.nodeID) (if_neg hin)).trans map_append
      rw [hwell.append_iff hadded hprim hreplica hin, hsettled s, hown.2]
      exact Ne.symm hne
  · exact h s hs

/-! ### Promotions -/

lemma filter_replicaIDs (info : SlotInfo) (nodeID : String) :
    (info.replicas.filter fun r => r.nodeID ≠ nodeID).map SlotReplica.nodeID =
      info.replicaIDs.filter fun id => id ≠ nodeID := by
  rw [replicaIDs, filter_map]
  rfl

lemma remainingReplicas_of_assigned {info : SlotInfo} (h : info.WellReplicated)
    (hsettled : info.primaryID = info.nodeID) (hasg : info.nodeID ≠ "")
    (hmem : nodeID ∈ info.replicaIDs) :
    (remainingReplicas info nodeID).map SlotReplica.nodeID =
      (info.replicaIDs.filter fun id => id ≠ nodeID) ++ [info.nodeID] := by
  have hprim : currentPrimary info = info.nodeID := by
    rw [currentPrimary, hsettled]
    split <;> rfl
  have hne : info.nodeID ≠ nodeID := by
    intro heq
    apply h.primary_not_mem
    rw [hsettled, heq]
    exact hmem
  rw [remainingReplicas, hprim, if_pos ⟨hasg, hne⟩, map_append, filter_replicaIDs]
  rfl

lemma remainingReplicas_of_unassigned {info : SlotInfo} (hsettled : info.primaryID = info.nodeID) (hfree : info.nodeID = "") :
    (remainingReplicas info nodeID).map SlotReplica.nodeID = info.replicaIDs.filter fun id => id ≠ nodeID := by
  have hprim : currentPrimary info = "" := by
    rw [currentPrimary, hsettled, hfree]
    rfl
  rw [remainingReplicas, hprim, if_neg fun hc => hc.1 rfl, filter_replicaIDs]

lemma WellReplicated.promoteReplica_iff (h : sm.WellReplicated) (hsettled : sm.Settled) :
    (sm.orSame (sm.promoteReplica slot nodeID)).WellReplicated ↔ sm.KeepsReplicaSets (.promoteReplica slot nodeID) := by
  by_cases hpromotes : slot < slotCount ∧ nodeID ∈ (sm.slots slot).replicaIDs
  · obtain ⟨hslot, hmem⟩ := hpromotes
    obtain ⟨sm', promoted, hok, -, hsl⟩ := promoteReplica_of_mem hslot hmem
    rw [hok]
    refine (h.update_iff hslot hsl).trans ?_
    by_cases hfree : (sm.slots slot).nodeID = ""
    · have hids := @remainingReplicas_of_unassigned nodeID (sm.slots slot) (hsettled slot) hfree
      constructor
      · intro hnew _ _ hname _
        have hwell := hnew hname
        have hnd := hwell.nodup
        have hempty := hwell.empty_not_mem
        rw [replicaIDs, hids] at hnd hempty
        refine ⟨hnd, fun hin => hempty ?_⟩
        exact mem_filter.2 ⟨hin, by simpa using hname.symm⟩
      · intro hkp hname
        obtain ⟨hnd, hempty⟩ := hkp hslot hfree hname hmem
        refine ⟨?_, ?_, ?_⟩
        · rw [replicaIDs, hids]
          simp
        · rw [replicaIDs, hids]
          exact hnd
        · rw [replicaIDs, hids]
          exact fun hin => hempty (mem_of_mem_filter hin)
    · have hwell := h slot hslot hfree
      have hids := remainingReplicas_of_assigned hwell (hsettled slot) hfree hmem
      have hprim := hwell.primary_not_mem
      rw [hsettled slot] at hprim
      refine iff_of_true (fun _ => ⟨?_, ?_, ?_⟩) fun _ hf => absurd hf hfree
      · rw [replicaIDs, hids]
        have hne : nodeID ≠ (sm.slots slot).nodeID := fun heq => hprim (heq ▸ hmem)
        simp [hne]
      · rw [replicaIDs, hids]
        refine (hwell.nodup.filter _).append (nodup_singleton _) (disjoint_singleton.2 ?_)
        exact fun hin => hprim (mem_of_mem_filter hin)
      · rw [replicaIDs, hids]
        simp [hwell.empty_not_mem, Ne.symm hfree]
  · obtain ⟨err, herr⟩ := promoteReplica_of_not_mem hpromotes
    rw [herr]
    exact iff_of_true h fun hslot _ _ hmem => absurd ⟨hslot, hmem⟩ hpromotes

/-! ### Hand-overs and restarts -/

lemma WellReplicated.finishMigration_iff (h : sm.WellReplicated) (hslot : slot < slotCount)
    (hok : sm.finishMigration slot nodeID = .ok sm') :
    sm'.WellReplicated ↔ sm.KeepsReplicaSets (.finishMigration slot nodeID) := by
  obtain ⟨sm'', hok', hsl⟩ := sm.finishMigration_of_lt nodeID hslot
  cases hok'.symm.trans hok
  refine (h.update_iff hslot hsl).trans ⟨?_, ?_⟩
  · intro hnew _ hname
    have hwell := hnew hname
    exact ⟨hwell.primary_not_mem, fun _ => ⟨hwell.nodup, hwell.empty_not_mem⟩⟩
  · intro hkp hname
    obtain ⟨hout, hrest⟩ := hkp hslot hname
    by_cases hfree : (sm.slots slot).nodeID = ""
    · exact ⟨hout, (hrest hfree).1, (hrest hfree).2⟩
    · have hwell := h slot hslot hfree
      exact ⟨hout, hwell.nodup, hwell.empty_not_mem⟩

lemma wellReplicated_restoreFromState_iff {saved : SavedSlots} :
    (restoreFromState saved).WellReplicated ↔ sm.KeepsReplicaSets (.restoreFromState saved) := by
  change (restoreInOrder saved allSlots).WellReplicated ↔ _
  constructor
  · intro h slot hslot hasg
    have hwell := h slot hslot
    rw [restoreInOrder_slots_of_lt hslot, restoredInfo_nodeID] at hwell
    exact hwell hasg
  · intro h slot hslot
    rw [restoreInOrder_slots_of_lt hslot, restoredInfo_nodeID]
    exact h slot hslot

/-! ## Every operation -/

lemma touchReplica_ids {lsn : UInt64} {replicas replicas' : List SlotReplica}
    (h : touchReplica nodeID lsn replicas = some replicas') :
    replicas'.map SlotReplica.nodeID = replicas.map SlotReplica.nodeID := by
  induction replicas generalizing replicas' with
  | nil => cases h
  | cons r rs ih =>
    unfold touchReplica at h
    split at h
    · obtain ⟨rs', hrs, rfl⟩ := Option.map_eq_some_iff.1 h
      rw [map_cons, map_cons, ih hrs]
    · cases h
      rfl

lemma WellReplicated.assignSlot (h : sm.WellReplicated) (hok : sm.assignSlot slot nodeID = .ok sm') : sm'.WellReplicated := by
  obtain ⟨hslot, hsl⟩ := of_assignSlot_eq_ok _ _ hok
  rw [h.update_iff hslot hsl]
  exact fun _ => ⟨not_mem_nil, nodup_nil, not_mem_nil⟩

/-- **What an operation leaves is well formed exactly if the operation met its condition.** -/
lemma WellReplicated.act_iff {a : SlotAct} (h : sm.WellReplicated) (hsettled : sm.Settled)
    (hact : sm.act a = .ok sm') : sm'.WellReplicated ↔ sm.KeepsReplicaSets a := by
  cases a with try cases hact
  | configureReplication slot primaryID replicaIDs epoch =>
    exact h.configureReplication_iff
  | addSlotReplica slot replicaID =>
    exact h.addSlotReplica_iff hsettled
  | promoteReplica slot nodeID =>
    exact h.promoteReplica_iff hsettled
  | finishMigration slot newNodeID =>
    by_cases hslot : slot < slotCount
    · exact h.finishMigration_iff hslot hact
    · rw [SlotManager.act, SlotManager.finishMigration, if_pos (UInt16.not_lt.1 hslot)] at hact
      cases hact
  | restoreFromState saved =>
    exact wellReplicated_restoreFromState_iff
  | assignSlot slot nodeID =>
    exact iff_of_true (orSame_keeps h fun _ => h.assignSlot) trivial
  | assignSlotRange start stop nodeID =>
    exact iff_of_true (assignSlots_keeps .assignSlot h _) trivial
  | setSlotConfigEpoch slot epoch =>
    refine iff_of_true ?_ trivial
    unfold setSlotConfigEpoch
    split
    · exact h
    · exact h.modify ⟨rfl, rfl, rfl⟩
  | addReplicaToMaster masterID replicaID epoch =>
    exact iff_of_true (h.addReplicaToMaster hsettled) trivial
  | allocateLSN slot =>
    exact iff_of_true (allocateLSN_keeps hact h fun _ => h.modify ⟨rfl, rfl, rfl⟩) trivial
  | updateReplicaLSN slot nodeID lsn =>
    refine iff_of_true (orSame_keeps h fun _ hok => ?_) trivial
    unfold updateReplicaLSN at hok
    split_ifs at hok
    split at hok
    · cases hok
    · next htouch =>
      cases hok
      exact h.modify ⟨rfl, rfl, touchReplica_ids htouch⟩
  | setImporting slot fromNodeID | setExporting slot toNodeID =>
    exact iff_of_true (checked_keeps hact (h.modify ⟨rfl, rfl, rfl⟩)) trivial
  | setStable slot =>
    refine iff_of_true (checked_keeps hact (h.modify ⟨rfl, ?_, rfl⟩)) trivial
    -- an empty primary is the owner already
    rw [hsettled slot]
    split
    · next hempty => rw [hempty]
    · rfl

lemma keepsReplicaSets_of_panic {a : SlotAct} {fault : Fault} (hact : sm.act a = .error fault) : sm.KeepsReplicaSets a := by
  cases a with
  | finishMigration slot newNodeID =>
    intro hslot
    obtain ⟨sm', hok, -⟩ := sm.finishMigration_of_lt newNodeID hslot
    cases hok.symm.trans hact
  | setImporting slot fromNodeID => trivial
  | setExporting slot toNodeID => trivial
  | setStable slot => trivial
  | allocateLSN slot => trivial
  | _ => cases hact

/-! ## Runs -/

/-- The replica sets are well formed, and failovers select others than the primary. -/
def SoundReplicas (sm : SlotManager) : Prop := sm.WellReplicated ∧ sm.SelectsOthers

/-- **Replica sets.** In a run of operations every table has well formed replica sets, of which a failover
never selects the primary, exactly when every operation meets its condition. -/
theorem soundReplicas_iff (acts : List SlotAct) :
    Runs.Along act (fun sm a => ∀ sm', sm.act a = .ok sm' → sm'.SoundReplicas) new acts ↔
      Runs.Along act KeepsReplicaSets new acts := by
  have hstart : new.WellReplicated ∧ new.Settled := ⟨fun _ _ h => absurd rfl h, settled_new⟩
  constructor
  · intro h
    refine h.imp (I := fun sm => sm.WellReplicated ∧ sm.Settled) ?_ ?_ hstart
    · intro sm a sm' hi hsound hact
      exact ⟨(hsound sm' hact).1, hi.2.act hact⟩
    · intro sm a hi hsound
      cases hact : sm.act a with
      | ok sm' => exact (hi.1.act_iff hi.2 hact).1 (hsound sm' hact).1
      | error fault => exact keepsReplicaSets_of_panic hact
  · intro h
    refine h.imp (I := fun sm => sm.WellReplicated ∧ sm.Settled) ?_ ?_ hstart
    · intro sm a sm' hi hkp hact
      exact ⟨(hi.1.act_iff hi.2 hact).2 hkp, hi.2.act hact⟩
    · intro sm a hi hkp sm' hact
      have hwell := (hi.1.act_iff hi.2 hact).2 hkp
      exact ⟨hwell, hwell.selectsOthers (hi.2.act hact)⟩

/-- **The primary is its own replica.** `b` replicates slot 0 of `a`; the slot is moved to `b`, which stays
in the list, and a failover of `b` selects `b`. -/
theorem finishMigration_to_replica :
    ∃ sm, Runs.run act new [.assignSlot 0 "a", .addSlotReplica 0 "b", .finishMigration 0 "b"] = .ok sm ∧
      (sm.slots 0).primaryID = "b" ∧ (sm.slots 0).replicaIDs = ["b"] ∧
      sm.selectBestReplica 0 = .ok "b" ∧ ¬ sm.SoundReplicas := by
  refine ⟨_, rfl, by decide, by decide, by decide, fun h => ?_⟩
  exact h.2 0 "b" (by decide) (by decide)

/-! ## A whole failover -/

inductive PromoteError where
  | select (err : SelectError)
  | promote (err : SlotError)

/-- `PromoteBestReplica` and the table it leaves. The hooks it calls at the end only read the table. -/
def promoteBestReplica (sm : SlotManager) (slot : UInt16) : Except PromoteError String × SlotManager :=
  match sm.selectBestReplica slot with
  | .error err => (.error (.select err), sm)
  | .ok best =>
    match sm.promoteReplica slot best with
    | .error err => (.error (.promote err), sm)
    | .ok sm' => (.ok best, sm')

/-- The primary, if there is one, and the replicas. -/
def members (info : SlotInfo) : Set String :=
  {id | id ≠ "" ∧ (id = currentPrimary info ∨ id ∈ info.replicaIDs)}

/-- `best` is a most advanced one of the healthy replicas. -/
structure Best (healthy : List SlotReplica) (best : SlotReplica) : Prop where
  mem : best ∈ healthy
  maximal : ∀ r ∈ healthy, r.matchLSN ≤ best.matchLSN

/-- What a failover to `best` makes of a record. -/
structure Promoted (info info' : SlotInfo) (best : SlotReplica) : Prop where
  chosen : Best (info.replicas.filter SlotReplica.healthy) best
  owner : info'.nodeID = best.nodeID
  primary : info'.primaryID = best.nodeID
  members : members info' = members info
  epoch : info'.configEpoch.toNat = info.configEpoch.toNat + 1
  nextLSN : info'.nextLSN.toNat = max info.nextLSN.toNat best.matchLSN.toNat

/-- As long as no name is empty, an empty name means that nobody is healthy so far. -/
lemma foldl_betterReplica {replicas : List SlotReplica} (h : "" ∉ replicas.map SlotReplica.nodeID) :
    (replicas.foldl betterReplica ("", 0) = ("", 0) ∧ replicas.filter SlotReplica.healthy = []) ∨
      ∃ best, Best (replicas.filter SlotReplica.healthy) best ∧
        replicas.foldl betterReplica ("", 0) = (best.nodeID, best.matchLSN) := by
  induction replicas using reverseRecOn with
  | nil => exact .inl ⟨rfl, rfl⟩
  | append_singleton replicas r ih =>
    rw [map_append, mem_append, not_or] at h
    rw [foldl_append, foldl_cons, foldl_nil, filter_append]
    by_cases hr : r.healthy
    · rw [filter_singleton, hr]
      right
      rcases ih h.1 with ⟨hfold, hnone⟩ | ⟨best, hbest, hfold⟩
      · refine ⟨r, ?_, by simp [hfold, betterReplica, hr]⟩
        rw [hnone]
        exact ⟨mem_singleton_self r, forall_mem_singleton.2 (UInt64.le_refl _)⟩
      · have hname : best.nodeID ≠ "" := by
          intro hname
          apply h.1
          rw [← hname]
          exact mem_map_of_mem (mem_of_mem_filter hbest.mem)
        by_cases hlt : best.matchLSN < r.matchLSN
        · refine ⟨r, ⟨by simp, forall_mem_append.2 ⟨?_, ?_⟩⟩, by simp [hfold, betterReplica, hr, hlt]⟩
          · intro r' hr'
            exact UInt64.le_trans (hbest.maximal r' hr') (UInt64.le_of_lt hlt)
          · exact forall_mem_singleton.2 (UInt64.le_refl _)
        · refine ⟨best, ⟨mem_append_left _ hbest.mem, ?_⟩, by simp [hfold, betterReplica, hr, hname, hlt]⟩
          exact forall_mem_append.2 ⟨hbest.maximal, forall_mem_singleton.2 (UInt64.not_lt.1 hlt)⟩
    · have hsame : ∀ best, betterReplica best r = best := fun best => if_pos hr
      rw [hsame, filter_singleton, Bool.not_eq_true _ |>.mp hr]
      simpa using ih h.1

lemma members_of_promoted {info info' : SlotInfo} (hmem : nodeID ∈ info.replicaIDs) (hname : nodeID ≠ "")
    (hprim : currentPrimary info ≠ nodeID) (hnew : info'.primaryID = nodeID)
    (hreps : info'.replicas = remainingReplicas info nodeID) : members info' = members info := by
  have hcur : currentPrimary info' = nodeID := by
    rw [currentPrimary, hnew, if_neg hname]
  have hids : ∀ id ≠ "", id ∈ info'.replicaIDs ↔ id ∈ info.replicaIDs ∧ id ≠ nodeID ∨ id = currentPrimary info := by
    intro id hid
    rw [replicaIDs, hreps, remainingReplicas]
    by_cases hold : currentPrimary info = ""
    · rw [if_neg fun hc => hc.1 hold, filter_replicaIDs, mem_filter, hold]
      simp [hid]
    · rw [if_pos ⟨hold, hprim⟩, map_append, filter_replicaIDs, mem_append, mem_filter]
      simp
  ext id
  refine and_congr_right fun hid => ?_
  rw [hcur, hids id hid]
  by_cases heq : id = nodeID
  · simp [heq, hmem]
  · simp [heq, or_comm]

lemma promotedReplica_eq {replicas : List SlotReplica} {best promoted : SlotReplica}
    (h : (replicas.map SlotReplica.nodeID).Nodup) (hbest : best ∈ replicas)
    (hpromoted : promotedReplica replicas best.nodeID = some promoted) : promoted = best := by
  obtain ⟨hmem, hname⟩ := mem_filter.1 (mem_of_getLast? hpromoted)
  exact inj_on_of_nodup_map h hmem hbest (of_decide_eq_true hname)

/-- A failover promotes one of the best and leaves the other slots alone, or it fails and leaves the table. -/
def KeepsGroup (sm : SlotManager) (slot : UInt16) : Prop :=
  match sm.promoteBestReplica slot with
  | (.error _, sm') => sm' = sm
  | (.ok node, sm') => (∀ s ≠ slot, sm'.slots s = sm.slots s) ∧
      ∃ best, best.nodeID = node ∧ Promoted (sm.slots slot) (sm'.slots slot) best

/-- **A failover takes a most advanced healthy replica and keeps the group.** -/
theorem keepsGroup (sm : SlotManager) (slot : UInt16) (hdistinct : (sm.slots slot).replicaIDs.Nodup)
    (hprimary : currentPrimary (sm.slots slot) ∉ (sm.slots slot).replicaIDs)
    (hnames : "" ∉ (sm.slots slot).replicaIDs)
    (hepoch : (sm.slots slot).configEpoch.toNat + 1 < 2 ^ 64) : sm.KeepsGroup slot := by
  unfold KeepsGroup promoteBestReplica
  cases hsel : sm.selectBestReplica slot with
  | error err => rfl
  | ok node =>
    obtain ⟨hname, hmem⟩ := selectBestReplica_mem hsel
    unfold selectBestReplica at hsel
    split at hsel
    · cases hsel
    rename_i hslot
    obtain ⟨sm', promoted, hok, hpromoted, hsl⟩ := promoteReplica_of_mem (UInt16.not_le.1 hslot) hmem
    simp only [hok]
    refine ⟨fun s hs => by rw [hsl, update_of_ne hs], ?_⟩
    rw [hsl, update_self]
    rcases foldl_betterReplica hnames with ⟨hfold, -⟩ | ⟨best, hbest, hfold⟩
    · simp [hfold] at hsel
    simp only [hfold] at hsel
    split at hsel
    · cases hsel
    cases hsel
    cases promotedReplica_eq hdistinct (mem_of_mem_filter hbest.mem) hpromoted
    refine ⟨_, rfl, hbest, rfl, rfl, ?_, ?_, ?_⟩
    · exact members_of_promoted hmem hname (fun he => hprimary (he ▸ hmem)) rfl rfl
    · exact (UInt64.toNat_add _ _).trans (Nat.mod_eq_of_lt hepoch)
    · dsimp only
      split
      · next hlt => exact (max_eq_right (UInt64.lt_iff_toNat_lt.1 hlt).le).symm
      · next hle => exact (max_eq_left (UInt64.not_lt.1 hle)).symm

/-- Slot 0 of `p` with its replicas. -/
def group (epoch : UInt64) (replicas : List SlotReplica) : SlotManager :=
  { new with slots := update new.slots 0 ⟨.normal, "p", "p", replicas, epoch, 0, "", ""⟩ }

theorem keepsGroup_two :
    ((group 0 [⟨"a", 5, true⟩, ⟨"b", 9, true⟩]).promoteBestReplica 0).1 = .ok "b" ∧
      (group 0 [⟨"a", 5, true⟩, ⟨"b", 9, true⟩]).KeepsGroup 0 :=
  ⟨rfl, keepsGroup _ 0 (by decide) (by decide) (by decide) (by decide)⟩

/-- The replicas of slot 0 are distinct and not the primary, but a failover does not keep the group. -/
def BreaksGroup (sm : SlotManager) : Prop :=
  (sm.slots 0).replicaIDs.Nodup ∧ currentPrimary (sm.slots 0) ∉ (sm.slots 0).replicaIDs ∧ ¬ sm.KeepsGroup 0

/-- **Two records a failover does not keep.** A replica without a name passes for none at all, so that a
worse one is taken; and the epoch after the last one is 0. -/
theorem keepsGroup_fails : (group 0 [⟨"", 5, true⟩, ⟨"a", 3, true⟩]).BreaksGroup ∧
    (group (-1) [⟨"a", 3, true⟩]).BreaksGroup := by
  refine ⟨⟨by decide, by decide, ?_⟩, by decide, by decide, ?_⟩
  · rintro ⟨-, best, hname, hbest⟩
    have hmem : best ∈ [⟨"", 5, true⟩, ⟨"a", 3, true⟩] := hbest.chosen.mem
    rcases mem_pair.1 hmem with rfl | rfl
    · exact absurd hname (by decide)
    · exact absurd (hbest.chosen.maximal ⟨"", 5, true⟩ (mem_cons_self ..)) (by decide)
  · rintro ⟨-, best, hname, hbest⟩
    exact absurd hbest.epoch (by decide)

end SlotManager

end AutoCache.Cluster
