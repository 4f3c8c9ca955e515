import AutoCache.Lib.Runs
import AutoCache.Replication.Log

/-!
# The allocator and the log over a node's life

A node numbers its writes with the `NextLSN` of the slot manager, which is saved to disk, and
appends them to a log that lives in memory only. This module follows the pair through sequential
writes, changes of ownership and of the replica set, and restarts.

The invariant is that the two counters of every slot agree (`Manager.InStep`); it is exactly what
the next append needs (`nextAccepted_iff`). Two operations can break it: a restart forgets the
log but restores the counter, and a promotion raises the counter to the promoted replica's
`MatchLSN`.
-/

namespace AutoCache.Replication

open Cluster SlotManager Function

/-! ## A node and its operations -/

/-- A node: what its writes go through, and the slot state last written to disk. -/
structure Node where
  manager : Manager
  saved : SavedSlots

inductive Act where
  /-- One whole `ApplyWrite`; the callback succeeds or fails. -/
  | applyWrite (req : WriteRequest) (applied : Bool)
  | assignSlot (slot : UInt16) (nodeID : String)
  | finishMigration (slot : UInt16) (newNodeID : String)
  | configureReplication (slot : UInt16) (primaryID : String) (replicaIDs : List String)
      (epoch : UInt64)
  | updateReplicaLSN (slot : UInt16) (nodeID : String) (lsn : UInt64)
  | promoteReplica (slot : UInt16) (nodeID : String)
  /-- The state manager writes the slot state to disk. -/
  | save
  /-- The process starts again from the saved slot state. -/
  | restart

namespace Node

/-- `NewCluster` creates its log store with this limit. -/
def newLogs : LogStore := LogStore.new 1024 LogStore.default_lt

/-- A node that starts without a state file. -/
def new : Node where
  manager := { slots := SlotManager.new, logs := newLogs }
  saved := SlotManager.new.save

/-- An operation of the slot manager; one that returns an error changed nothing. -/
def onSlots (n : Node) (result : Except SlotError SlotManager) : Node :=
  match result with
  | .ok slots => { n with manager := { n.manager with slots := slots } }
  | .error _ => n

def step (n : Node) : Act → Go Node
  | .applyWrite req applied => do
    let apply : Unit → Go (Option Unit × Unit) := fun s =>
      pure (if applied then none else some (), s)
    let (_, manager, _) ← Manager.applyWrite req apply n.manager ()
    return { n with manager := manager }
  | .assignSlot slot nodeID => return n.onSlots (n.manager.slots.assignSlot slot nodeID)
  | .finishMigration slot newNodeID => do
    let slots ← n.manager.slots.finishMigration slot newNodeID
    return { n with manager := { n.manager with slots := slots } }
  | .configureReplication slot primaryID replicaIDs epoch =>
    return n.onSlots (n.manager.slots.configureReplication slot primaryID replicaIDs epoch)
  | .updateReplicaLSN slot nodeID lsn =>
    return n.onSlots (n.manager.slots.updateReplicaLSN slot nodeID lsn)
  | .promoteReplica slot nodeID => return n.onSlots (n.manager.slots.promoteReplica slot nodeID)
  | .save => return { n with saved := n.manager.slots.save }
  | .restart =>
    return { n with manager := { slots := SlotManager.restoreFromState n.saved, logs := newLogs } }

/-! ## The next number -/

/-- The next number the allocator gives for the slot is one the log takes. -/
def NextAccepted (n : Node) (slot : UInt16) : Prop :=
  ∃ slots epoch lsn, n.manager.slots.allocateLSN slot = .ok (slots, epoch, lsn) ∧
    ∀ op : Op, op.slot = slot → op.lsn = lsn → ∃ logs, n.manager.logs.append op = .ok logs

variable {n : Node} {slot : UInt16} {sm sm' : SlotManager} {nodeID : String}

/-- **The invariant is exact.** For an assigned slot, agreement of the two counters is the same as
the next append being accepted. -/
lemma nextAccepted_iff (hslot : slot < slotCount) (howner : (n.manager.slots.slots slot).nodeID ≠ "") :
    n.NextAccepted slot ↔ n.manager.InStep slot := by
  have halloc := allocateLSN_of_assigned hslot howner
  constructor
  · rintro ⟨slots, epoch, lsn, hlsn, haccept⟩
    rw [halloc] at hlsn
    cases hlsn
    obtain ⟨logs, hlogs⟩ := haccept ⟨slot, 0, _, .set, [], [], 0⟩ rfl rfl
    have hnext := LogStore.append_ok_iff.1 ⟨logs, hlogs⟩
    exact (UInt64.add_left_inj 1).1 hnext
  · intro hstep
    refine ⟨_, _, _, halloc, ?_⟩
    rintro op rfl hlsn
    apply LogStore.append_ok_iff.2
    rw [hlsn, hstep]

/-! ## What keeps the counters in step -/

/-- **The steps that keep the counters in step.** A promoted replica is not ahead of the
allocator, and a restart finds no number in use. -/
def KeepsStep (n : Node) : Act → Prop
  | .promoteReplica slot nodeID =>
    ∀ promoted, SlotManager.promotedReplica (n.manager.slots.slots slot).replicas nodeID =
      some promoted → promoted.matchLSN ≤ (n.manager.slots.slots slot).nextLSN
  | .restart => ∀ slot < slotCount, ∀ set, n.saved.slotReplicas slot = some set → set.nextLSN = 0
  | _ => True

def AllInStep (n : Node) : Prop := ∀ slot, n.manager.InStep slot

lemma AllInStep.of_nextLSN {n n' : Node} (h : n.AllInStep) (hlogs : n'.manager.logs = n.manager.logs)
    (hnext : ∀ slot, (n'.manager.slots.slots slot).nextLSN = (n.manager.slots.slots slot).nextLSN) : n'.AllInStep := by
  intro slot
  rw [Manager.InStep, hnext slot, hlogs]
  exact h slot

lemma logWrite_inStep {ε : Type} {m : Manager} (req : WriteRequest) (h : ∀ slot, m.InStep slot)
    (slot : UInt16) : (m.logWrite req : Except (WriteError ε) Op × Manager).2.InStep slot := by
  rcases m.slots.allocateLSN_cases req.slot with ⟨hslot, howner⟩ | ⟨err, herr⟩
  · obtain ⟨slots, logs, hw, rfl, happ⟩ :=
      Manager.logWrite_of_inStep (ε := ε) hslot howner (h req.slot)
    rw [hw]
    by_cases hs : slot = req.slot
    · subst hs
      simp only [Manager.InStep, modify_slots, update_self]
      exact happ.last.symm
    · have hlast : logs.lastLSN slot = m.logs.lastLSN slot := happ.last_other slot hs
      simp only [Manager.InStep, modify_slots, update_of_ne hs, hlast]
      exact h slot
  · simp only [Manager.logWrite, herr]
    exact h slot

/-- A step of the slot manager keeps the counters in step when it leaves every counter alone. -/
lemma onSlots_allInStep {result : Except SlotError SlotManager} (h : n.AllInStep) (hnext : ∀ slots, result = .ok slots →
      ∀ slot, (slots.slots slot).nextLSN = (n.manager.slots.slots slot).nextLSN) :
    (n.onSlots result).AllInStep := by
  cases result with
  | error err => exact h
  | ok slots => exact h.of_nextLSN rfl (hnext slots rfl)

lemma update_nextLSN {slots : UInt16 → SlotInfo} {info : SlotInfo} (h : info.nextLSN = (slots slot).nextLSN) (t : UInt16) :
    (Function.update slots slot info t).nextLSN = (slots t).nextLSN := by
  by_cases ht : t = slot
  · rw [ht, update_self, h]
  · rw [update_of_ne ht]

lemma assignSlot_nextLSN (h : sm.assignSlot slot nodeID = .ok sm') (t : UInt16) :
    (sm'.slots t).nextLSN = (sm.slots t).nextLSN := by
  unfold assignSlot at h
  split at h
  · cases h
  · cases h
    split <;>
    · simp only [listSlot_slots, modify_slots, removeSlotFromNode_slots]
      apply update_nextLSN
      rfl

lemma finishMigration_nextLSN (h : sm.finishMigration slot nodeID = .ok sm') (t : UInt16) :
    (sm'.slots t).nextLSN = (sm.slots t).nextLSN := by
  unfold finishMigration at h
  split at h
  · cases h
  · cases h
    simp only [modify_slots, setOwnerLocked_slots, update_self, update_idem]
    apply update_nextLSN
    rfl

lemma configureReplication_nextLSN {primaryID : String} {replicaIDs : List String} {epoch : UInt64}
    (h : sm.configureReplication slot primaryID replicaIDs epoch = .ok sm') (t : UInt16) :
    (sm'.slots t).nextLSN = (sm.slots t).nextLSN := by
  unfold configureReplication at h
  split at h
  · cases h
  · cases h
    simp only [modify_slots, setOwnerLocked_slots, update_self, update_idem]
    apply update_nextLSN
    rfl

lemma updateReplicaLSN_nextLSN {lsn : UInt64} (h : sm.updateReplicaLSN slot nodeID lsn = .ok sm') (t : UInt16) :
    (sm'.slots t).nextLSN = (sm.slots t).nextLSN := by
  unfold updateReplicaLSN at h
  split at h
  · cases h
  · split at h
    · cases h
    · cases h
      apply update_nextLSN
      rfl

lemma promoteReplica_nextLSN (h : sm.promoteReplica slot nodeID = .ok sm')
    (hle : ∀ promoted, SlotManager.promotedReplica (sm.slots slot).replicas nodeID =
      some promoted → promoted.matchLSN ≤ (sm.slots slot).nextLSN) (t : UInt16) :
    (sm'.slots t).nextLSN = (sm.slots t).nextLSN := by
  unfold promoteReplica at h
  split at h
  · cases h
  · dsimp only at h
    split at h
    · cases h
    · rename_i promoted hp
      cases h
      simp only [modify_slots, setOwnerLocked_slots, update_self, update_idem]
      exact update_nextLSN (if_neg (UInt64.not_lt.2 (hle promoted hp))) t

lemma restart_nextLSN {saved : SavedSlots}
    (h : ∀ slot < slotCount, ∀ set, saved.slotReplicas slot = some set → set.nextLSN = 0)
    (t : UInt16) : ((SlotManager.restoreFromState saved).slots t).nextLSN = 0 := by
  simp only [restoreFromState]
  split
  · rfl
  rename_i ht
  have hset := h t (by simpa using ht)
  unfold restoredInfo
  dsimp only
  cases hs : saved.slotReplicas t with
  | none => split <;> [rfl; (split <;> rfl)]
  | some set =>
    rw [hs] at hset
    split <;> [exact hset set rfl; (split <;> exact hset set rfl)]

/-- **Step lemma.** -/
theorem step_allInStep {n n' : Node} {a : Act} (h : n.AllInStep) (hc : n.KeepsStep a)
    (hs : n.step a = .ok n') : n'.AllInStep := by
  cases a with try cases hs
  | applyWrite req applied =>
    cases applied with
    | false => cases hs; exact h
    | true =>
      cases hs
      exact logWrite_inStep req h
  | assignSlot slot nodeID =>
    exact onSlots_allInStep h fun slots hok => assignSlot_nextLSN hok
  | finishMigration slot newNodeID =>
    obtain ⟨slots, hok, hn⟩ := Go.bind_eq_ok.1 hs
    cases hn
    exact h.of_nextLSN rfl (finishMigration_nextLSN hok)
  | configureReplication slot primaryID replicaIDs epoch =>
    exact onSlots_allInStep h fun slots hok => configureReplication_nextLSN hok
  | updateReplicaLSN slot nodeID lsn =>
    exact onSlots_allInStep h fun slots hok => updateReplicaLSN_nextLSN hok
  | promoteReplica slot nodeID =>
    exact onSlots_allInStep h fun slots hok => promoteReplica_nextLSN hok hc
  | save =>
    exact h
  | restart =>
    intro slot
    exact restart_nextLSN hc slot

/-- **Run lemma.** -/
theorem run_allInStep {acts : List Act} (hc : Runs.Along step KeepsStep new acts)
    (hrun : Runs.run step new acts = .ok n) : n.AllInStep :=
  hc.run_invariant (fun _ _ _ hn ha hs => step_allInStep hn ha hs) (fun _ => rfl) hrun

/-- **The allocator and the log stay in step.** In every state a node reaches by steps that keep
the counters in step, the next number of every assigned slot is accepted by the log. -/
theorem next_lsn_accepted {acts : List Act} {n : Node}
    (hc : Runs.Along step KeepsStep new acts) (hrun : Runs.run step new acts = .ok n)
    {slot : UInt16} (hslot : slot < slotCount) (howner : (n.manager.slots.slots slot).nodeID ≠ "") :
    n.NextAccepted slot :=
  (nextAccepted_iff hslot howner).2 (run_allInStep hc hrun slot)

def slotZeroWrite : WriteRequest := ⟨0, .set, [107], [107, 0, 118], 0⟩

/-- A primary writes once, its replica acknowledges and is promoted. -/
def failover : List Act :=
  [.configureReplication 0 "a" ["b"] 1, .applyWrite slotZeroWrite true, .updateReplicaLSN 0 "b" 1,
    .promoteReplica 0 "b"]

theorem next_lsn_accepted_failover :
    ∃ n, Runs.run step new failover = .ok n ∧ n.NextAccepted 0 := by
  refine ⟨_, rfl, @next_lsn_accepted failover _ ?_ rfl 0 (by decide) (by decide)⟩
  refine ⟨trivial, ?_⟩
  rintro _ ⟨⟩
  refine ⟨trivial, ?_⟩
  rintro _ ⟨⟩
  refine ⟨trivial, ?_⟩
  rintro _ ⟨⟩
  refine ⟨?_, fun _ _ => trivial⟩
  rintro promoted ⟨⟩
  decide

/-- **A restart loses the slot.** After one write, a save and a restart the allocator gives the
number `2`, and the new log wants `1`. -/
theorem restart_refuses_next_lsn :
    ∃ n, Runs.run step new
        [.assignSlot 0 "a", .applyWrite slotZeroWrite true, .save, .restart] = .ok n ∧
      (n.manager.slots.slots 0).nodeID = "a" ∧ ¬ n.NextAccepted 0 := by
  refine ⟨_, rfl, rfl, ?_⟩
  rw [nextAccepted_iff (by decide) (by decide)]
  decide

end Node

/-! ## Refused writes -/

namespace Manager

variable {σ ε : Type} {m : Manager} {req : WriteRequest}

def Assigned (m : Manager) (slot : UInt16) : Prop :=
  slot < slotCount ∧ (m.slots.slots slot).nodeID ≠ ""

/-- A refused write has no effect on the engine, the log and the slot's next number. -/
def RefusalKeeps (m : Manager) (req : WriteRequest) (apply : σ → Go (Option ε × σ)) (s : σ) :
    Prop :=
  ∀ err m' s', m.applyWrite req apply s = .ok (.error err, m', s') →
    s' = s ∧ m'.logs = m.logs ∧
      (m'.slots.slots req.slot).nextLSN = (m.slots.slots req.slot).nextLSN

lemma logWrite_of_not_assigned (h : ¬ m.Assigned req.slot) :
    ∃ err, (m.logWrite req : Except (WriteError ε) Op × Manager) = (.error err, m) := by
  rcases allocateLSN_cases m.slots req.slot with hasg | ⟨err, herr⟩
  · exact absurd hasg h
  · exact ⟨.allocate req.slot err, by simp only [logWrite, herr]⟩

/-- Out of step, the log refuses the number, which stays used up. -/
lemma logWrite_of_not_inStep (ha : m.Assigned req.slot) (h : ¬ m.InStep req.slot) :
    ∃ err m', (m.logWrite req : Except (WriteError ε) Op × Manager) = (.error err, m') ∧
      (m'.slots.slots req.slot).nextLSN ≠ (m.slots.slots req.slot).nextLSN := by
  have halloc := allocateLSN_of_assigned ha.1 ha.2
  have hlog := @LogStore.append_of_not_next m.logs (req.op (m.slots.slots req.slot).configEpoch
    ((m.slots.slots req.slot).nextLSN + 1)) fun heq => h ((UInt64.add_left_inj 1).1 heq)
  refine ⟨_, _, by simp only [logWrite, halloc, hlog]; rfl, ?_⟩
  simp [modify_slots]

/-- The engine is written first. A refusal that comes later undoes nothing, so the write must have
changed nothing there, or be one that no later step refuses. -/
theorem refusalKeeps_iff (m : Manager) (req : WriteRequest) (apply : σ → Go (Option ε × σ))
    (s : σ) :
    m.RefusalKeeps req apply s ↔
      ∀ failed s', apply s = .ok (failed, s') →
        (failed = none ∧ m.Assigned req.slot → m.InStep req.slot) ∧
          (¬ (failed = none ∧ m.Assigned req.slot) → s' = s) := by
  constructor
  · intro h failed s' happ
    cases failed with
    | some err =>
      have hrun : m.applyWrite req apply s = .ok (.error (.apply err), m, s') := by
        simp only [applyWrite, happ, Go.ok_bind, Go.pure_eq_ok]
      simpa using (h _ _ _ hrun).1
    | none =>
      refine ⟨fun ha => ?_, fun ha => ?_⟩
      · by_contra hstep
        obtain ⟨err, m', hw, hne⟩ := logWrite_of_not_inStep (ε := ε) ha.2 hstep
        exact hne (h _ _ _ (applyWrite_of_applied happ hw)).2.2
      · obtain ⟨err, hw⟩ := logWrite_of_not_assigned (ε := ε) fun hasg => ha ⟨rfl, hasg⟩
        exact (h _ _ _ (applyWrite_of_applied happ hw)).1
  · intro h err m' s' hrun
    obtain ⟨⟨failed, t⟩, happ, hlogged⟩ := Go.bind_eq_ok.1 hrun
    cases failed with
    | some e =>
      cases hlogged
      exact ⟨(h _ _ happ).2 (by simp), rfl, rfl⟩
    | none =>
      by_cases ha : m.Assigned req.slot
      · obtain ⟨slots, logs, hw, -⟩ :=
          logWrite_of_inStep (ε := ε) ha.1 ha.2 ((h _ _ happ).1 ⟨rfl, ha⟩)
        rw [applyWrite_of_applied happ hw] at hrun
        cases hrun
      · obtain ⟨err, hw⟩ := logWrite_of_not_assigned (ε := ε) ha
        rw [applyWrite_of_applied happ hw] at hrun
        cases hrun
        exact ⟨(h _ _ happ).2 (by simp [ha]), rfl, rfl⟩

/-- On a node that owns no slot yet, `SET k v` is refused and the engine holds the value. -/
theorem refused_set_stays :
    ∃ err, Node.new.manager.applyWrite (ε := Unit) Node.slotZeroWrite
        (fun s : Bytes → Option Bytes => pure (none, update s [107] (some [118]))) (fun _ => none) =
      .ok (.error err, Node.new.manager, update (fun _ => none) [107] (some [118])) :=
  ⟨.allocate 0 (.notAssigned 0), rfl⟩

end Manager

end AutoCache.Replication
