import AutoCache.Replication.Log

/-!
# Sending and acknowledging
(`internal/cluster/replication/stream.go`, `peer.go`, `log.go`, `internal/cluster/failover/manager.go`)

Each replica has a peer with a bounded queue; what finds the queue full is dropped. A peer sends
one operation at a time and never again. The tracker keeps the largest number a replica has
acknowledged for a slot, and the slot manager keeps the same as its `MatchLSN`.
-/

namespace AutoCache.Replication

open Cluster List Function

/-! ## Peers -/

structure PeerTarget where
  nodeID : String
  addr : String
  deriving DecidableEq, Repr

structure Peer where
  addr : String
  queue : List Op

/-- The queue size `NewManager` gives its stream. -/
def queueSize : ℕ := 1024

abbrev Peers : Type := GoMap String Peer

namespace Peers

def queue (peers : Peers) (nodeID : String) : List Op := ((peers.lookup nodeID).map Peer.queue).getD []

/-- `Stream.Enqueue`. A peer whose address changed is closed, and its queue is lost; what finds the
queue full is dropped. -/
def enqueue (peers : Peers) (target : PeerTarget) (op : Op) : Peers :=
  if target.nodeID = "" ∨ target.addr = "" then peers
  else
    let queue :=
      match peers.lookup target.nodeID with
      | some peer => if peer.addr = target.addr then peer.queue else []
      | none => []
    peers.insert target.nodeID
      ⟨target.addr, if queue.length < queueSize then queue ++ [op] else queue⟩

/-- The stream's part of `dispatch`. -/
def dispatch (peers : Peers) (targets : List PeerTarget) (op : Op) : Peers :=
  targets.foldl (fun peers target => peers.enqueue target op) peers

def take (peers : Peers) (nodeID : String) : Option (Op × Peers) :=
  match peers.lookup nodeID with
  | some ⟨addr, op :: rest⟩ => some (op, peers.insert nodeID ⟨addr, rest⟩)
  | _ => none

variable {peers peers' : Peers} {r addr : String} {op : Op}

/-- The peer of `r`, if there is one, has the address `addr`. -/
def Settled (peers : Peers) (r addr : String) : Prop :=
  ∀ peer, peers.lookup r = some peer → peer.addr = addr

lemma enqueue_of_ne (peers : Peers) (op : Op) {target : PeerTarget} (h : target.nodeID ≠ r) :
    (peers.enqueue target op).lookup r = peers.lookup r := by
  unfold enqueue
  split
  · rfl
  · rw [GoMap.lookup_insert_eq, if_neg fun heq => h heq.symm]

lemma enqueue_settled (op : Op) (hr : r ≠ "") (haddr : addr ≠ "") (hset : peers.Settled r addr) :
    (peers.enqueue ⟨r, addr⟩ op).Settled r addr ∧ (peers.enqueue ⟨r, addr⟩ op).queue r =
        if (peers.queue r).length < queueSize then peers.queue r ++ [op] else peers.queue r := by
  have hqueue : (match peers.lookup r with
      | some peer => if peer.addr = addr then peer.queue else []
      | none => []) = peers.queue r := by
    unfold queue
    cases hp : peers.lookup r with
    | none => rfl
    | some peer => simp [hset peer hp]
  have hne : ¬ (r = "" ∨ addr = "") := by simp [hr, haddr]
  constructor
  · intro peer hpeer
    rw [enqueue, if_neg hne, GoMap.lookup_insert_eq, if_pos rfl] at hpeer
    cases hpeer
    rfl
  · rw [enqueue, if_neg hne, queue, GoMap.lookup_insert_eq, if_pos rfl]
    rw [hqueue]
    rfl

/-- **Dispatch.** Where every target for `r` has the address of its peer, copies of the operation go
to the end of the queue, at least one if `r` is a target and there is room. -/
lemma dispatch_settled (op : Op) (hr : r ≠ "") (haddr : addr ≠ "") {targets : List PeerTarget}
    (htgts : ∀ t ∈ targets, t.nodeID = r → t.addr = addr) (hset : peers.Settled r addr) :
    ∃ k, (peers.dispatch targets op).queue r = peers.queue r ++ List.replicate k op ∧
      ((∃ t ∈ targets, t.nodeID = r) → (peers.queue r).length < queueSize → 0 < k) := by
  induction targets generalizing peers with
  | nil => exact ⟨0, by simp [dispatch], by simp⟩
  | cons t ts ih =>
    have hts : ∀ t ∈ ts, t.nodeID = r → t.addr = addr :=
      fun t ht => htgts t (mem_cons_of_mem _ ht)
    by_cases htr : t.nodeID = r
    · have heq : t = ⟨r, addr⟩ := by
        rw [← htr, ← htgts t mem_cons_self htr]
      obtain ⟨hset', hqueue⟩ := enqueue_settled op hr haddr hset
      rw [← heq] at hset' hqueue
      obtain ⟨k, hk, -⟩ := ih hts hset'
      split at hqueue
      · refine ⟨k + 1, ?_, fun _ _ => Nat.succ_pos k⟩
        change ((peers.enqueue t op).dispatch ts op).queue r = _
        rw [hk, hqueue, append_assoc, singleton_append, replicate_succ]
      · next hfull =>
        refine ⟨k, ?_, fun _ hroom => absurd hroom hfull⟩
        change ((peers.enqueue t op).dispatch ts op).queue r = _
        rw [hk, hqueue]
    · have hlook := enqueue_of_ne peers op htr
      have hset' : (peers.enqueue t op).Settled r addr := by
        intro peer hpeer
        exact hset peer (hlook ▸ hpeer)
      have hqueue : (peers.enqueue t op).queue r = peers.queue r := by
        rw [queue, hlook, queue]
      obtain ⟨k, hk, hpos⟩ := ih hts hset'
      rw [hqueue] at hk hpos
      refine ⟨k, hk, ?_⟩
      rintro ⟨t', ht', htr'⟩
      rcases mem_cons.1 ht' with rfl | ht'
      · exact absurd htr' htr
      · exact hpos ⟨t', ht', htr'⟩

lemma dispatch_of_not_target {targets : List PeerTarget} (h : ∀ t ∈ targets, t.nodeID = r → t.addr = "" ∨ r = "") :
    (peers.dispatch targets op).queue r = peers.queue r := by
  induction targets generalizing peers with
  | nil => rfl
  | cons t ts ih =>
    change ((peers.enqueue t op).dispatch ts op).queue r = _
    rw [ih fun t ht => h t (mem_cons_of_mem _ ht)]
    by_cases htr : t.nodeID = r
    · have hempty : t.nodeID = "" ∨ t.addr = "" := by
        rw [htr]
        exact (h t mem_cons_self htr).symm
      rw [enqueue, if_pos hempty]
    · rw [queue, enqueue_of_ne _ _ htr, queue]

lemma take_eq_some (h : peers.take r = some (op, peers')) : peers.queue r = op :: peers'.queue r ∧
      ∀ r', r' ≠ r → peers'.queue r' = peers.queue r' := by
  unfold take at h
  split at h
  · next addr op' rest hlook =>
    cases h
    constructor
    · simp [queue, hlook]
    · intro r' hne
      simp [queue, hne]
  · cases h

end Peers

/-! ## Acknowledgements -/

structure ReplicaAck where
  slot : UInt16
  epoch : UInt64
  nodeID : String
  appliedLSN : UInt64
  deriving DecidableEq, Repr

/-- The acknowledgements of a slot, by replica; a slot without a map reads as the empty one. -/
structure AckTracker where
  acks : UInt16 → GoMap String ReplicaAck

namespace AckTracker

def new : AckTracker := ⟨fun _ => ∅⟩

/-- `Track` keeps the acknowledgement with the larger number, whatever the epochs. -/
def track (t : AckTracker) (ack : ReplicaAck) : AckTracker :=
  let tracked : AckTracker :=
    ⟨update t.acks ack.slot ((t.acks ack.slot).insert ack.nodeID ack)⟩
  match (t.acks ack.slot).lookup ack.nodeID with
  | some current => if ack.appliedLSN ≤ current.appliedLSN then t else tracked
  | none => tracked

def get (t : AckTracker) (slot : UInt16) (nodeID : String) : UInt64 :=
  (((t.acks slot).lookup nodeID).map ReplicaAck.appliedLSN).getD 0

/-- The replicas `WAIT` counts for a number of a slot. -/
def counted (t : AckTracker) (slot : UInt16) (needLSN : UInt64) : Finset String :=
  (t.acks slot).keys.filter fun nodeID => needLSN ≤ t.get slot nodeID

variable {t : AckTracker} {ack : ReplicaAck} {slot : UInt16} {needLSN : UInt64} {r : String}

lemma get_track (t : AckTracker) (ack : ReplicaAck) (slot : UInt16) (r : String) : (t.track ack).get slot r = t.get slot r ∨
      slot = ack.slot ∧ r = ack.nodeID ∧ (t.track ack).get slot r = ack.appliedLSN := by
  have htracked : ∀ t' : AckTracker, t' = ⟨update t.acks ack.slot ((t.acks ack.slot).insert ack.nodeID ack)⟩ →
      t'.get slot r = t.get slot r ∨ slot = ack.slot ∧ r = ack.nodeID ∧ t'.get slot r = ack.appliedLSN := by
    rintro t' rfl
    by_cases hslot : slot = ack.slot
    · subst hslot
      by_cases hr : r = ack.nodeID
      · exact Or.inr ⟨rfl, hr, by simp [get, hr]⟩
      · exact Or.inl (by simp [get, hr])
    · exact Or.inl (by simp [get, hslot])
  unfold track
  split
  · split
    · exact Or.inl rfl
    · exact htracked _ rfl
  · exact htracked _ rfl

end AckTracker

/-! ## Replicas -/

/-- `replicationTargetsForSlot`: the replicas of a slot whose address is known. -/
def replicationTargetsForSlot (sm : SlotManager) (addrs : String → Option String) (slot : UInt16) :
    List PeerTarget :=
  (sm.slots slot).replicas.filterMap fun replica =>
    (addrs replica.nodeID).map fun addr => ⟨replica.nodeID, addr⟩

variable {sm : SlotManager} {slot : UInt16}

lemma mem_targets {addrs : String → Option String} {t : PeerTarget} (h : t ∈ replicationTargetsForSlot sm addrs slot) :
    addrs t.nodeID = some t.addr := by
  obtain ⟨replica, -, h⟩ := mem_filterMap.1 h
  obtain ⟨addr, haddr, rfl⟩ := Option.map_eq_some_iff.1 h
  exact haddr

lemma exists_target {addrs : String → Option String}
    {r addr : String} (hr : r ∈ (sm.slots slot).replicas.map SlotReplica.nodeID)
    (haddr : addrs r = some addr) :
    ∃ t ∈ replicationTargetsForSlot sm addrs slot, t.nodeID = r := by
  obtain ⟨replica, hmem, rfl⟩ := mem_map.1 hr
  exact ⟨⟨replica.nodeID, addr⟩, mem_filterMap.2 ⟨replica, hmem, by simp [haddr]⟩, rfl⟩

/-- `slot %d not found`, `no healthy replica for slot %d`. -/
inductive SelectError where
  | slotNotFound (slot : UInt16)
  | noHealthyReplica (slot : UInt16)
  deriving DecidableEq, Repr

/-- The loop of `SelectBestReplica`: the name and number of the best replica so far. -/
def betterReplica (best : String × UInt64) (replica : SlotReplica) : String × UInt64 :=
  if replica.healthy ∧ (best.1 = "" ∨ best.2 < replica.matchLSN) then
    (replica.nodeID, replica.matchLSN)
  else best

def selectBestReplica (sm : SlotManager) (slot : UInt16) : Except SelectError String :=
  if slotCount ≤ slot then .error (.slotNotFound slot)
  else
    let best := (sm.slots slot).replicas.foldl betterReplica ("", 0)
    if best.1 = "" then .error (.noHealthyReplica slot) else .ok best.1

lemma foldl_betterReplica (replicas : List SlotReplica) (best : String × UInt64) : replicas.foldl betterReplica best = best ∨
      ∃ replica ∈ replicas, replicas.foldl betterReplica best = (replica.nodeID, replica.matchLSN) :=
  by
    induction replicas generalizing best with
    | nil => exact Or.inl rfl
    | cons replica replicas ih =>
      rw [foldl_cons]
      rcases ih (betterReplica best replica) with h | ⟨other, hmem, h⟩
      · rw [h]
        unfold betterReplica
        split
        · exact Or.inr ⟨replica, mem_cons_self, rfl⟩
        · exact Or.inl rfl
      · exact Or.inr ⟨other, mem_cons_of_mem _ hmem, h⟩

lemma mem_of_selectBestReplica {r : String} (h : selectBestReplica sm slot = .ok r) :
    ∃ replica ∈ (sm.slots slot).replicas, replica.nodeID = r := by
  unfold selectBestReplica at h
  split at h
  · cases h
  dsimp only at h
  split at h
  · cases h
  · next hne =>
    cases h
    rcases foldl_betterReplica (sm.slots slot).replicas ("", 0) with h | ⟨replica, hmem, h⟩
    · exact absurd (by rw [h]) hne
    · exact ⟨replica, hmem, by rw [h]⟩

/-- An entry after `UpdateReplicaLSN` was there before, or is the one of that name, brought to the
acknowledged number. -/
lemma mem_touchReplica {nodeID : String} {lsn : UInt64} {replicas replicas' : List SlotReplica}
    {replica : SlotReplica} (h : SlotManager.touchReplica nodeID lsn replicas = some replicas')
    (hmem : replica ∈ replicas') :
    (∃ old ∈ replicas, old.nodeID = replica.nodeID ∧ old.matchLSN = replica.matchLSN) ∨
      replica.nodeID = nodeID ∧ replica.matchLSN = lsn := by
  induction replicas generalizing replicas' with
  | nil => cases h
  | cons r rs ih =>
    rw [SlotManager.touchReplica] at h
    split at h
    · obtain ⟨rest, hrest, rfl⟩ := Option.map_eq_some_iff.1 h
      rcases mem_cons.1 hmem with rfl | hmem
      · exact Or.inl ⟨replica, mem_cons_self, rfl, rfl⟩
      · rcases ih hrest hmem with ⟨old, hold, heq⟩ | hnew
        · exact Or.inl ⟨old, mem_cons_of_mem _ hold, heq⟩
        · exact Or.inr hnew
    · next hname =>
      cases h
      rcases mem_cons.1 hmem with rfl | hmem
      · by_cases hlt : r.matchLSN < lsn
        · exact Or.inr ⟨not_not.1 hname, by simp [hlt]⟩
        · exact Or.inl ⟨r, mem_cons_self, rfl, by simp [hlt]⟩
      · exact Or.inl ⟨replica, mem_cons_of_mem _ hmem, rfl, rfl⟩

end AutoCache.Replication
