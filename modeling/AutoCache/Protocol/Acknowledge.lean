import AutoCache.Protocol.Delivery
import AutoCache.Replication.Stream

/-!
# Acknowledgements

A primary with its log, its peers and its replicas. Writes are logged and queued; each peer sends
what is in its queue, once, and acknowledges what was sent without an error. An operation that a
full queue dropped or whose send failed is not sent again, but the next one that goes through is
acknowledged under its own number, which says that everything up to it has arrived.
-/

namespace AutoCache.Protocol

open Cluster Replication Runs List Function SlotManager

/-- A primary, its replicas by name, and everything it ever logged, oldest first. -/
structure Primary (σ : Type) where
  manager : Manager
  peers : Peers
  acks : AckTracker
  replicas : String → Received σ
  logged : List Op

inductive PrimaryStep where
  | assign (slot : UInt16) (nodeID : String)
  | configure (slot : UInt16) (primaryID : String) (replicaIDs : List String) (epoch : UInt64)
  /-- `ApplyWrite` once its callback succeeded; `addrs` is what gossip knows of the nodes -/
  | write (req : WriteRequest) (addrs : String → Option String)
  /-- the peer of `r` takes an operation from its queue and sends it -/
  | send (r : String) (reached : Bool) (now : Int)
  /-- the persistent connection to `r` brings an operation of the log -/
  | push (r : String) (op : Op) (now : Int)

namespace Primary

variable {σ : Type} {E : Engine σ} {st st' : Primary σ} {r : String} {slot : UInt16}

def start (limit : Int) (hlimit : limit < 2 ^ 63) (stores : String → Store σ) : Primary σ where
  manager := ⟨.new, .new limit hlimit⟩
  peers := ∅
  acks := .new
  replicas := fun r => .start (stores r)
  logged := []

/-- The slot manager after a call whose error is ignored. -/
def withSlots (st : Primary σ) (result : Except SlotError SlotManager) : Primary σ :=
  match result with
  | .ok slots => { st with manager := { st.manager with slots } }
  | .error _ => st

def onSent (st : Primary σ) (r : String) (op : Op) : Primary σ :=
  let st := { st with acks := st.acks.track ⟨op.slot, op.epoch, r, op.lsn⟩ }
  st.withSlots (st.manager.slots.updateReplicaLSN op.slot r op.lsn)

def delivered (st : Primary σ) (peers : Peers) (r : String) (received : Received σ) : Primary σ :=
  { st with peers, replicas := Function.update st.replicas r received }

variable {peers : Peers} {received : Received σ} {r' : String} {op : Op} {now : Int}

@[simp] lemma delivered_self : (st.delivered peers r received).replicas r = received := update_self _ _ _

lemma delivered_of_ne (h : r' ≠ r) : (st.delivered peers r' received).replicas r = st.replicas r :=
  update_of_ne h.symm _ _

def step (E : Engine σ) (st : Primary σ) : PrimaryStep → Go (Primary σ)
  | .assign slot nodeID => return st.withSlots (st.manager.slots.assignSlot slot nodeID)
  | .configure slot primaryID replicaIDs epoch =>
    return st.withSlots (st.manager.slots.configureReplication slot primaryID replicaIDs epoch)
  | .write req addrs =>
    match (st.manager.logWrite req : Except (WriteError ApplyError) Op × Manager) with
    | (.error _, manager) => return { st with manager }
    | (.ok op, manager) =>
      return { st with
        manager := manager
        peers := st.peers.dispatch (replicationTargetsForSlot manager.slots addrs op.slot) op
        logged := st.logged ++ [op] }
  | .send r reached now =>
    match st.peers.take r with
    | none => return st
    | some (op, peers) =>
      if reached then do
        let (result, received) ← receive E now op (st.replicas r)
        match result with
        | .ok () => return (st.delivered peers r received).onSent r op
        | .error _ => return st.delivered peers r received
      else return { st with peers }
  | .push r op now =>
    if op ∈ st.logged then do
      let (_, received) ← receive E now op (st.replicas r)
      return st.delivered st.peers r received
    else return st

/-! ## What an acknowledgement says -/

/-- The replica has applied every operation of the slot up to the number `n`. -/
def Holds (st : Primary σ) (r : String) (slot : UInt16) (n : UInt64) : Prop :=
  ∀ op ∈ st.logged, op.slot = slot → op.lsn ≤ n → op ∈ (st.replicas r).applied

/-- **Soundness** of what the primary believes of a replica: of its acknowledgement, of being
counted by `WAIT`, of its `MatchLSN` and of being selected. -/
structure Sound (st : Primary σ) (r : String) (slot : UInt16) : Prop where
  acked : st.Holds r slot (st.acks.get slot r)
  counted : ∀ needLSN, r ∈ st.acks.counted slot needLSN → st.Holds r slot needLSN
  matched : ∀ replica ∈ (st.manager.slots.slots slot).replicas, replica.nodeID = r →
    st.Holds r slot replica.matchLSN
  selected : Replication.selectBestReplica st.manager.slots slot = .ok r →
    ∃ replica ∈ (st.manager.slots.slots slot).replicas, replica.nodeID = r ∧
      st.Holds r slot replica.matchLSN

/-- Nothing of the slot gets lost on its way to `r`: the peer keeps its address, an operation of the
slot finds room in its queue, a send of one succeeds, and the persistent connection does not run
ahead. -/
def Lossless (E : Engine σ) (r : String) (slot : UInt16) (st : Primary σ) : PrimaryStep → Prop
  | .assign _ _ => True
  | .configure _ _ _ _ => True
  | .write req addrs =>
    (∀ addr, addrs r = some addr → st.peers.Settled r addr) ∧
      (req.slot = slot → r ≠ "" ∧ (∃ addr, addrs r = some addr ∧ addr ≠ "") ∧
        r ∈ (st.manager.slots.slots slot).replicas.map SlotReplica.nodeID ∧
        (st.peers.queue r).length < queueSize ∧ st.manager.logs.lastLSN slot ≠ -1)
  | .send r' reached now =>
    r' = r → ∀ op peers, st.peers.take r = some (op, peers) → op.slot = slot →
      reached ∧ ∃ replica,
        applyIncomingReplicationOp E now op (st.replicas r).replica = .ok (.ok (), replica)
  | .push r' op _ =>
    r' = r → op.slot = slot →
      op.lsn.toNat ≤ ((st.replicas r).replica.applier.recorded slot).lsn.toNat + 1

/-! ## The invariant -/

/-- A number up to which the replica holds the slot, and which has been given out. -/
def Confirmed (st : Primary σ) (r : String) (slot : UInt16) (n : UInt64) : Prop :=
  n ≤ st.manager.logs.lastLSN slot ∧ st.Holds r slot n

/-- What the replica has not applied is in its queue, in order, and what is recorded, acknowledged
or matched is confirmed. -/
structure Complete (st : Primary σ) (r : String) (slot : UInt16) : Prop where
  numbered : ∀ op ∈ st.logged, op.slot = slot →
    0 < op.lsn ∧ op.lsn ≤ st.manager.logs.lastLSN slot
  distinct : ∀ op ∈ st.logged, ∀ other ∈ st.logged, op.slot = slot → other.slot = slot →
    op.lsn = other.lsn → op = other
  queued : ∀ op ∈ st.peers.queue r, op.slot = slot → op ∈ st.logged
  sorted : (st.peers.queue r).Pairwise fun op next =>
    op.slot = slot → next.slot = slot → op.lsn ≤ next.lsn
  waiting : ∀ op ∈ st.logged, op.slot = slot →
    op ∈ (st.replicas r).applied ∨ op ∈ st.peers.queue r
  recorded : st.Confirmed r slot ((st.replicas r).replica.applier.recorded slot).lsn
  acked : st.Confirmed r slot (st.acks.get slot r)
  matched : ∀ replica ∈ (st.manager.slots.slots slot).replicas, replica.nodeID = r →
    st.Confirmed r slot replica.matchLSN

lemma Complete.sound (h : st.Complete r slot) : st.Sound r slot := by
  constructor
  · exact h.acked.2
  · intro needLSN hcounted op hop hslot hle
    exact h.acked.2 op hop hslot (UInt64.le_trans hle (Finset.mem_filter.1 hcounted).2)
  · intro replica hmem hname
    exact (h.matched replica hmem hname).2
  · intro hsel
    obtain ⟨replica, hmem, hname⟩ := mem_of_selectBestReplica hsel
    exact ⟨replica, hmem, hname, (h.matched replica hmem hname).2⟩

/-- A confirmed number stays confirmed while numbers are given out and operations applied. -/
lemma Confirmed.mono {n : UInt64} (h : st.Confirmed r slot n)
    (hlast : st.manager.logs.lastLSN slot ≤ st'.manager.logs.lastLSN slot)
    (hlogged : ∀ op ∈ st'.logged, op.slot = slot → op ∈ st.logged ∨ st.manager.logs.lastLSN slot < op.lsn)
    (happ : ∀ op ∈ (st.replicas r).applied, op ∈ (st'.replicas r).applied) :
    st'.Confirmed r slot n := by
  refine ⟨UInt64.le_trans h.1 hlast, fun op hop hslot hle => ?_⟩
  rcases hlogged op hop hslot with hop | hlt
  · exact happ op (h.2 op hop hslot hle)
  · exact absurd (UInt64.le_trans hle h.1) (UInt64.not_le.2 hlt)

lemma complete_start (limit : Int) (hlimit : limit < 2 ^ 63) (stores : String → Store σ) :
    (start limit hlimit stores).Complete r slot := by
  have hzero : (start limit hlimit stores).Confirmed r slot 0 :=
    ⟨UInt64.zero_le, nofun⟩
  exact ⟨nofun, nofun, nofun, .nil, nofun, hzero, hzero, nofun⟩

/-! ## The slot manager -/

section

variable (h : st.Complete r slot)
include h

lemma Complete.withSlots {result : Except SlotError SlotManager}
    (hresult : ∀ slots, result = .ok slots → ∀ replica ∈ (slots.slots slot).replicas,
      replica.nodeID = r → st.Confirmed r slot replica.matchLSN) :
    (st.withSlots result).Complete r slot := by
  cases result with
  | error err => exact h
  | ok slots => exact { h with matched := hresult slots rfl }

lemma Complete.assign (slot' : UInt16) (nodeID : String) :
    (st.withSlots (st.manager.slots.assignSlot slot' nodeID)).Complete r slot := by
  refine h.withSlots fun slots hsl replica hmem hname => ?_
  unfold assignSlot at hsl
  split at hsl
  · cases hsl
  cases hsl
  rw [listSlot_slots, modify_slots] at hmem
  by_cases hslot : slot = slot'
  · rw [hslot, update_self] at hmem
    cases hmem
  · rw [update_of_ne hslot] at hmem
    split at hmem
    · rw [removeSlotFromNode_slots] at hmem
      exact h.matched replica hmem hname
    · exact h.matched replica hmem hname

lemma Complete.configure (slot' : UInt16) (primaryID : String) (replicaIDs : List String) (epoch : UInt64) :
    (st.withSlots (st.manager.slots.configureReplication slot' primaryID replicaIDs epoch)).Complete r slot := by
  refine h.withSlots fun slots hsl replica hmem hname => ?_
  unfold configureReplication at hsl
  split at hsl
  · cases hsl
  cases hsl
  rw [modify_slots] at hmem
  by_cases hslot : slot = slot'
  · rw [hslot, update_self] at hmem
    obtain ⟨id, -, rfl⟩ := mem_map.1 hmem
    exact ⟨UInt64.zero_le, fun op hop hs hle => absurd (h.numbered op hop hs).1 (UInt64.not_lt.2 hle)⟩
  · rw [update_of_ne hslot, setOwnerLocked_slots, update_of_ne hslot] at hmem
    exact h.matched replica hmem hname

lemma Complete.onSent (hop : r' = r → op.slot = slot → st.Confirmed r slot op.lsn) : (st.onSent r' op).Complete r slot := by
  have hacks : Complete { st with acks := st.acks.track ⟨op.slot, op.epoch, r', op.lsn⟩ } r slot := by
    refine { h with acked := ?_ }
    rcases st.acks.get_track ⟨op.slot, op.epoch, r', op.lsn⟩ slot r with
      heq | ⟨hslot, hr, heq⟩
    · rw [heq]
      exact h.acked
    · rw [heq]
      exact hop hr.symm hslot.symm
  refine hacks.withSlots fun slots hsl replica hmem hname => ?_
  unfold updateReplicaLSN at hsl
  split at hsl
  · cases hsl
  split at hsl
  · cases hsl
  rename_i replicas htouch
  cases hsl
  rw [modify_slots] at hmem
  by_cases hslot : slot = op.slot
  · rw [hslot, update_self] at hmem
    rcases mem_touchReplica htouch hmem with ⟨old, hold, hid, hlsn⟩ | ⟨hid, hlsn⟩
    · rw [← hlsn]
      exact h.matched old (hslot ▸ hold) (hid.trans hname)
    · rw [hlsn]
      exact hop (hid.symm.trans hname) hslot.symm
  · rw [update_of_ne hslot] at hmem
    exact h.matched replica hmem hname

end

/-! ## Writes -/

/-- What a write leaves in the queue of `r`: copies of the operation at the end, at least one when
`r` is a replica with a known address and room. -/
lemma queue_dispatch {addrs : String → Option String} (sm : SlotManager) (op : Op)
    (hset : ∀ addr, addrs r = some addr → peers.Settled r addr) :
    ∃ k, (peers.dispatch (replicationTargetsForSlot sm addrs op.slot) op).queue r = peers.queue r ++ List.replicate k op ∧
      (r ≠ "" → (∃ addr, addrs r = some addr ∧ addr ≠ "") → r ∈ (sm.slots op.slot).replicas.map SlotReplica.nodeID →
        (peers.queue r).length < queueSize → 0 < k) := by
  by_cases hkn : r ≠ "" ∧ ∃ addr, addrs r = some addr ∧ addr ≠ ""
  · obtain ⟨hr, addr, haddr, hne⟩ := hkn
    have htgts : ∀ t ∈ replicationTargetsForSlot sm addrs op.slot, t.nodeID = r → t.addr = addr := by
      intro t ht htr
      have := mem_targets ht
      rw [htr, haddr] at this
      exact (Option.some.inj this).symm
    obtain ⟨k, hk, hpos⟩ := Peers.dispatch_settled op hr hne htgts (hset addr haddr)
    exact ⟨k, hk, fun _ _ hmem hroom => hpos (exists_target hmem haddr) hroom⟩
  · refine ⟨0, ?_, fun hr haddr => absurd ⟨hr, haddr⟩ hkn⟩
    rw [replicate_zero, append_nil]
    refine Peers.dispatch_of_not_target fun t ht htr => ?_
    by_contra hne
    obtain ⟨haddr, hr⟩ := not_or.1 hne
    exact hkn ⟨hr, t.addr, htr ▸ mem_targets ht, haddr⟩

lemma succ_of_ne_max {n : UInt64} (h : n ≠ -1) : (n + 1).toNat = n.toNat + 1 := by
  have hlt := n.toNat_lt
  have hne : n.toNat ≠ 2 ^ 64 - 1 := fun heq => h (UInt64.toNat_inj.1 (by rw [heq]; rfl))
  rw [UInt64.toNat_add, show (1 : UInt64).toNat = 1 from rfl]
  omega

section

variable (h : st.Complete r slot)
include h

/-- A logged write waits at the end of the queue. If it is one of the slot, its number is larger
than all before. -/
lemma Complete.write_logged {m : Manager} {k : ℕ}
    (hlast : st.manager.logs.lastLSN slot ≤ m.logs.lastLSN slot) (hnew : op.slot = slot →
      st.manager.logs.lastLSN slot < op.lsn ∧ op.lsn ≤ m.logs.lastLSN slot ∧ 0 < k)
    (hreps : ∀ s, (m.slots.slots s).replicas = (st.manager.slots.slots s).replicas)
    (hqueue : peers.queue r = st.peers.queue r ++ List.replicate k op) :
    Complete { st with manager := m, peers := peers, logged := st.logged ++ [op] } r slot := by
  have hmem {o : Op} (ho : o ∈ st.logged ++ [op]) : o ∈ st.logged ∨ o = op := by simpa using ho
  have hmono : ∀ n, st.Confirmed r slot n →
      Confirmed { st with manager := m, peers := peers, logged := st.logged ++ [op] } r slot n := by
    refine fun n hn => hn.mono hlast (fun o ho hos => ?_) fun o ho => ho
    rcases hmem ho with ho | rfl
    · exact Or.inl ho
    · exact Or.inr (hnew hos).1
  have hbefore : ∀ o ∈ st.logged, o.slot = slot → op.slot = slot → o.lsn < op.lsn :=
    fun o ho hos hop => UInt64.lt_of_le_of_lt (h.numbered o ho hos).2 (hnew hop).1
  constructor
  · intro o ho hos
    rcases hmem ho with ho | rfl
    · exact ⟨(h.numbered o ho hos).1, UInt64.le_trans (h.numbered o ho hos).2 hlast⟩
    · exact ⟨UInt64.lt_of_le_of_lt UInt64.zero_le (hnew hos).1, (hnew hos).2.1⟩
  · intro o ho o' ho' hos hos' heq
    rcases hmem ho with hold | rfl <;> rcases hmem ho' with hold' | rfl
    · exact h.distinct o hold o' hold' hos hos' heq
    · exact absurd (hbefore o hold hos hos') (by rw [heq]; exact UInt64.lt_irrefl _)
    · exact absurd (hbefore o' hold' hos' hos) (by rw [← heq]; exact UInt64.lt_irrefl _)
    · rfl
  · intro o ho hos
    rw [hqueue, mem_append] at ho
    rcases ho with ho | ho
    · exact mem_append_left _ (h.queued o ho hos)
    · rw [eq_of_mem_replicate ho]
      exact mem_append_right _ (mem_singleton.2 rfl)
  · change (peers.queue r).Pairwise _
    rw [hqueue, pairwise_append]
    refine ⟨h.sorted, pairwise_replicate.2 (Or.inr fun _ _ => UInt64.le_refl _), ?_⟩
    intro o ho o' ho' hos hos'
    cases eq_of_mem_replicate ho'
    exact UInt64.le_of_lt (hbefore o (h.queued o ho hos) hos hos')
  · intro o ho hos
    change o ∈ (st.replicas r).applied ∨ o ∈ peers.queue r
    rw [hqueue]
    rcases hmem ho with ho | rfl
    · exact (h.waiting o ho hos).imp id fun hwait => mem_append_left _ hwait
    · exact Or.inr (mem_append_right _ (mem_replicate.2 ⟨(hnew hos).2.2.ne', rfl⟩))
  · exact hmono _ h.recorded
  · exact hmono _ h.acked
  · intro replica hmem hname
    exact hmono _ (h.matched replica (hreps slot ▸ hmem) hname)

/-- Operations leave the queue or are applied; the invariant goes on when what left is applied and
the record is confirmed. -/
lemma Complete.advance (hlast : st'.manager.logs.lastLSN slot = st.manager.logs.lastLSN slot)
    (hreps : (st'.manager.slots.slots slot).replicas = (st.manager.slots.slots slot).replicas)
    (hacks : st'.acks = st.acks) (hlogged : st'.logged = st.logged) (hsub : (st'.peers.queue r).Sublist (st.peers.queue r))
    (hgone : ∀ op ∈ st.peers.queue r, op.slot = slot → op ∈ st'.peers.queue r ∨ op ∈ (st'.replicas r).applied)
    (happ : ∀ op ∈ (st.replicas r).applied, op ∈ (st'.replicas r).applied)
    (hrec : ((st'.replicas r).replica.applier.recorded slot).lsn = ((st.replicas r).replica.applier.recorded slot).lsn ∨
      st'.Confirmed r slot ((st'.replicas r).replica.applier.recorded slot).lsn) :
    st'.Complete r slot := by
  have hmono : ∀ n, st.Confirmed r slot n → st'.Confirmed r slot n :=
    fun n hn => hn.mono (hlast ▸ UInt64.le_refl _) (fun o ho _ => Or.inl (hlogged ▸ ho)) happ
  constructor
  · rw [hlogged, hlast]
    exact h.numbered
  · rw [hlogged]
    exact h.distinct
  · intro op hop hslot
    rw [hlogged]
    exact h.queued op (hsub.subset hop) hslot
  · exact h.sorted.sublist hsub
  · intro op hop hslot
    rcases h.waiting op (hlogged ▸ hop) hslot with hdone | hwait
    · exact Or.inl (happ op hdone)
    · exact (hgone op hwait hslot).symm
  · rcases hrec with heq | hrec
    · rw [heq]
      exact hmono _ h.recorded
    · exact hrec
  · rw [hacks]
    exact hmono _ h.acked
  · rw [hreps]
    exact fun replica hmem hname => hmono _ (h.matched replica hmem hname)

lemma Complete.write {req : WriteRequest} {addrs : String → Option String}
    (hlossless : Lossless E r slot st (.write req addrs))
    (hstep : st.step E (.write req addrs) = .ok st') : st'.Complete r slot := by
  obtain ⟨result, m, hwr, hreps, ⟨⟨err, rfl⟩, hlogs⟩ | ⟨op, rfl, hslot, hlsn, happ⟩⟩ :=
    Manager.logWrite_cases (ε := ApplyError) st.manager req
  · simp only [step, hwr] at hstep
    cases hstep
    exact h.advance (by rw [hlogs]) (hreps slot) rfl rfl (.refl _) (fun o ho _ => .inl ho) (fun o ho => ho) (.inl rfl)
  · simp only [step, hwr] at hstep
    cases hstep
    obtain ⟨hset, hroom⟩ := hlossless
    obtain ⟨k, hqueue, hpos⟩ := queue_dispatch m.slots op hset
    have hnew (hs : op.slot = slot) : st.manager.logs.lastLSN slot < op.lsn ∧ op.lsn ≤ m.logs.lastLSN slot ∧ 0 < k := by
      obtain ⟨hr, haddr, hmem, hlen, hmax⟩ := hroom (hslot.symm.trans hs)
      rw [← hs, ← hreps op.slot] at hmem
      rw [← hslot, hs] at hlsn
      have hnext := succ_of_ne_max hmax
      rw [← hlsn] at hnext
      refine ⟨UInt64.lt_iff_toNat_lt.2 (by omega), ?_, hpos hr haddr hmem hlen⟩
      rw [← hs, happ.last]
      exact UInt64.le_refl _
    refine h.write_logged ?_ hnew hreps hqueue
    by_cases hs : op.slot = slot
    · exact UInt64.le_trans (UInt64.le_of_lt (hnew hs).1) (hnew hs).2.1
    · rw [happ.last_other slot fun heq => hs heq.symm]
      exact UInt64.le_refl _

/-! ## Deliveries -/

lemma Complete.other (hr : r' ≠ r) (hqueue : peers.queue r = st.peers.queue r) :
    (st.delivered peers r' received).Complete r slot := by
  refine h.advance rfl rfl rfl rfl (hqueue ▸ .refl _) (fun op hop _ => Or.inl (hqueue ▸ hop)) ?_ ?_
  · rw [delivered_of_ne hr]
    exact fun op hop => hop
  · rw [delivered_of_ne hr]
    exact Or.inl rfl

lemma Complete.receive_other {result : Except ReplayError Unit} (hoth : op.slot ≠ slot ∨ ∃ err, result = .error err)
    (hrcv : receive E now op (st.replicas r) = .ok (result, received))
    (hsub : (peers.queue r).Sublist (st.peers.queue r))
    (hgone : ∀ o ∈ st.peers.queue r, o.slot = slot → o ∈ peers.queue r) :
    (st.delivered peers r received).Complete r slot := by
  have hrcvd : (∀ o ∈ (st.replicas r).applied, o ∈ received.applied) ∧
      received.replica.applier.recorded slot = (st.replicas r).replica.applier.recorded slot := by
    rcases receive_cases hrcv with
      ⟨err, -, happ, hrec⟩ | ⟨-, -, rfl⟩ | ⟨hok, -, happ, hrec, -⟩
    · rw [happ, hrec]
      exact ⟨fun o ho => ho, rfl⟩
    · exact ⟨fun o ho => ho, rfl⟩
    · have hslot : op.slot ≠ slot := by
        rcases hoth with hslot | ⟨err, rfl⟩
        · exact hslot
        · cases hok
      rw [happ, hrec, ReplicaApplier.recorded_commit, if_neg fun heq => hslot heq.symm]
      exact ⟨fun o ho => mem_append_left _ ho, rfl⟩
  refine h.advance rfl rfl rfl rfl hsub (fun o ho hos => Or.inl (hgone o ho hos)) ?_ ?_
  · rw [delivered_self]
    exact hrcvd.1
  · rw [delivered_self, hrcvd.2]
    exact Or.inl rfl

/-- An operation of the slot all of whose predecessors are applied, when the call returns nil: it is
applied now, and its number is confirmed. -/
lemma Complete.receive_next (hslot : op.slot = slot) (hop : op ∈ st.logged)
    (hprev : ∀ o ∈ st.logged, o.slot = slot → o.lsn ≤ op.lsn → o ∈ (st.replicas r).applied ∨ o = op)
    (hrcv : receive E now op (st.replicas r) = .ok (.ok (), received))
    (hsub : (peers.queue r).Sublist (st.peers.queue r))
    (hgone : ∀ o ∈ st.peers.queue r, o ∈ peers.queue r ∨ o = op) :
    (st.delivered peers r received).Complete r slot ∧ (st.delivered peers r received).Confirmed r slot op.lsn := by
  have hpos := (h.numbered op hop hslot).1
  have hrcvd : (∀ o ∈ (st.replicas r).applied, o ∈ received.applied) ∧ op ∈ received.applied ∧
      (received.replica.applier.recorded slot = (st.replicas r).replica.applier.recorded slot ∨
        (received.replica.applier.recorded slot).lsn = op.lsn) := by
    rcases receive_cases hrcv with
      ⟨err, herr, -⟩ | ⟨-, hskip, rfl⟩ | ⟨-, -, happ, hrec, -⟩
    · cases herr
    · -- it was skipped, so its number is not behind the record
      have hle : op.lsn ≤ ((st.replicas r).replica.applier.recorded slot).lsn := by
        rw [← hslot]
        exact ReplicaApplier.lsn_le_of_skip hpos hskip
      exact ⟨fun o ho => ho, h.recorded.2 op hop hslot hle, Or.inl rfl⟩
    · rw [happ, hrec, ReplicaApplier.recorded_commit, if_pos hslot.symm]
      exact ⟨fun o ho => mem_append_left _ ho, mem_append_right _ (mem_singleton.2 rfl), Or.inr rfl⟩
  have hconfirmed : (st.delivered peers r received).Confirmed r slot op.lsn := by
    refine ⟨(h.numbered op hop hslot).2, fun o ho hos hle => ?_⟩
    rw [delivered_self]
    rcases hprev o ho hos hle with hdone | rfl
    · exact hrcvd.1 o hdone
    · exact hrcvd.2.1
  refine ⟨h.advance rfl rfl rfl rfl hsub ?_ ?_ ?_, hconfirmed⟩
  · intro o ho _
    rw [delivered_self]
    refine (hgone o ho).imp id ?_
    rintro rfl
    exact hrcvd.2.1
  · rw [delivered_self]
    exact hrcvd.1
  · rw [delivered_self]
    rcases hrcvd.2.2 with heq | heq
    · exact Or.inl (by rw [heq])
    · exact Or.inr (by rw [heq]; exact hconfirmed)

end

lemma receive_result {replica : Replica σ} {result : Except ReplayError Unit} {before : Received σ}
    (happ : applyIncomingReplicationOp E now op before.replica = .ok (.ok (), replica))
    (h : receive E now op before = .ok (result, received)) : result = .ok () := by
  obtain ⟨p, hp, h⟩ := Go.bind_eq_ok.1 h
  cases happ.symm.trans hp
  cases h
  rfl

lemma Complete.send (h : st.Complete r slot) {reached : Bool} (hlossless : Lossless E r slot st (.send r' reached now))
    (hstep : st.step E (.send r' reached now) = .ok st') : st'.Complete r slot := by
  cases htake : st.peers.take r' with
  | none =>
    simp only [step, htake] at hstep
    cases hstep
    exact h
  | some taken =>
    obtain ⟨op, peers⟩ := taken
    obtain ⟨hqueue, hqueues⟩ := Peers.take_eq_some htake
    simp only [step, htake] at hstep
    by_cases hmine : r' = r ∧ op.slot = slot
    · -- an operation of the slot for `r`: its send succeeds
      obtain ⟨rfl, hslot⟩ := hmine
      obtain ⟨hreached, replica, happ⟩ := hlossless rfl op peers htake hslot
      rw [if_pos hreached] at hstep
      obtain ⟨⟨result, received⟩, hrcv, hstep⟩ := Go.bind_eq_ok.1 hstep
      cases receive_result happ hrcv
      cases hstep
      have hmem : op ∈ st.peers.queue r' := hqueue ▸ mem_cons_self
      have hlogged := h.queued op hmem hslot
      have hsorted := h.sorted
      rw [hqueue, pairwise_cons] at hsorted
      have hprev : ∀ o ∈ st.logged, o.slot = slot → o.lsn ≤ op.lsn → o ∈ (st.replicas r').applied ∨ o = op := by
        intro o ho hos hle
        refine (h.waiting o ho hos).imp id fun hwait => ?_
        rw [hqueue] at hwait
        rcases mem_cons.1 hwait with heq | hwait
        · exact heq
        · exact h.distinct o ho op hlogged hos hslot (UInt64.le_antisymm hle (hsorted.1 o hwait hslot hos))
      obtain ⟨hcmp, hconfirmed⟩ := h.receive_next hslot hlogged hprev hrcv
        (hqueue ▸ sublist_cons_self _ _) fun o ho => (mem_cons.1 (hqueue ▸ ho)).symm
      exact hcmp.onSent fun _ _ => hconfirmed
    · -- the others may get lost
      obtain ⟨hsub, hkept⟩ : (peers.queue r).Sublist (st.peers.queue r) ∧
          ∀ o ∈ st.peers.queue r, o.slot = slot → o ∈ peers.queue r := by
        by_cases hr : r' = r
        · subst hr
          rw [hqueue]
          refine ⟨sublist_cons_self _ _, fun o ho hos => (mem_cons.1 ho).resolve_left ?_⟩
          rintro rfl
          exact hmine ⟨rfl, hos⟩
        · rw [hqueues r (Ne.symm hr)]
          exact ⟨.refl _, fun o ho _ => ho⟩
      split at hstep
      · obtain ⟨⟨result, received⟩, hrcv, hstep⟩ := Go.bind_eq_ok.1 hstep
        have hcmp : (st.delivered peers r' received).Complete r slot := by
          by_cases hr : r' = r
          · subst hr
            exact h.receive_other (Or.inl fun hslot => hmine ⟨rfl, hslot⟩) hrcv hsub hkept
          · exact h.other hr (hqueues r (Ne.symm hr))
        cases result with cases hstep
        | error err => exact hcmp
        | ok u => exact hcmp.onSent fun hr hslot => absurd ⟨hr, hslot⟩ hmine
      · cases hstep
        exact h.advance rfl rfl rfl rfl hsub (fun o ho hos => Or.inl (hkept o ho hos)) (fun o ho => ho) (Or.inl rfl)

lemma Complete.push (h : st.Complete r slot) (hlossless : Lossless E r slot st (.push r' op now))
    (hstep : st.step E (.push r' op now) = .ok st') : st'.Complete r slot := by
  simp only [step] at hstep
  split at hstep
  · next hop =>
    obtain ⟨⟨result, received⟩, hrcv, hstep⟩ := Go.bind_eq_ok.1 hstep
    cases hstep
    by_cases hr : r' = r
    · subst hr
      cases result with
      | error err => exact h.receive_other (.inr ⟨err, rfl⟩) hrcv (.refl _) fun o ho _ => ho
      | ok u => ?_
      by_cases hslot : op.slot = slot
      swap
      · exact h.receive_other (.inl hslot) hrcv (.refl _) fun o ho _ => ho
      have hahead := hlossless rfl hslot
      -- what is not behind the record is applied, so only the operation itself is new
      have hprev : ∀ o ∈ st.logged, o.slot = slot → o.lsn ≤ op.lsn → o ∈ (st.replicas r').applied ∨ o = op := by
        intro o ho hos hle
        by_cases hrec : o.lsn ≤ ((st.replicas r').replica.applier.recorded slot).lsn
        · exact Or.inl (h.recorded.2 o ho hos hrec)
        · refine Or.inr (h.distinct o ho op hop hos hslot (UInt64.toNat_inj.1 ?_))
          rw [UInt64.le_iff_toNat_le] at hle hrec
          omega
      exact (h.receive_next hslot hop hprev hrcv (.refl _) fun o ho => Or.inl ho).1
    · exact h.other hr rfl
  · cases hstep
    exact h

lemma Complete.step (h : st.Complete r slot) {a : PrimaryStep} (hlossless : Lossless E r slot st a)
    (hstep : st.step E a = .ok st') : st'.Complete r slot := by
  cases a with
  | assign slot' nodeID =>
    cases hstep
    exact h.assign slot' nodeID
  | configure slot' primaryID replicaIDs epoch =>
    cases hstep
    exact h.configure slot' primaryID replicaIDs epoch
  | write req addrs => exact h.write hlossless hstep
  | send r' reached now => exact h.send hlossless hstep
  | push r' op now => exact h.push hlossless hstep

/-- **Acknowledgements are sound while nothing gets lost.** From a new primary, along every run in
which nothing of the slot is lost on its way to `r`, what the primary believes of `r` is true. -/
theorem acks_sound (E : Engine σ) (limit : Int) (hlimit : limit < 2 ^ 63)
    (stores : String → Store σ) (r : String) (slot : UInt16) (steps : List PrimaryStep)
    (hlossless : Along (step E) (Lossless E r slot) (start limit hlimit stores) steps) :
    ∀ st, run (step E) (start limit hlimit stores) steps = .ok st → st.Sound r slot := by
  intro st hrun
  have hcmp := hlossless.run_invariant (I := fun st => st.Complete r slot)
    (fun _ _ _ h hlossless hstep => h.step hlossless hstep)
    (complete_start limit hlimit stores) hrun
  exact hcmp.sound

def setRequest : WriteRequest where
  slot := 0
  opType := .set
  key := [107]
  payload := encodeReplicationPayload [[107], [118]]
  expireAtNs := 0

/-- A primary of slot 0 with the replica `b`, before its first write. -/
def configured : List PrimaryStep := [.assign 0 "a", .configure 0 "a" ["b"] 1]

def oneWrite : List PrimaryStep :=
  configured ++ [.write setRequest fun _ => some "b:6379", .send "b" true 5]

theorem acks_sound_one :
    Along (step plainLogical.engine) (Lossless plainLogical.engine "b" 0)
        (start 1024 (by decide) fun _ => Store.new ∅) oneWrite ∧
      ∀ st, run (step plainLogical.engine) (start 1024 (by decide) fun _ => Store.new ∅)
        oneWrite = .ok st → st.Sound "b" 0 := by
  have hlossless : Along (step plainLogical.engine) (Lossless plainLogical.engine "b" 0)
      (start 1024 (by decide) fun _ => Store.new ∅) oneWrite := by
    refine .cons trivial rfl (.cons trivial rfl (.cons ?_ rfl (.cons ?_ rfl trivial)))
    · refine ⟨fun addr _ peer hpeer => ?_, fun _ => ⟨by decide, ⟨_, rfl, by decide⟩, ?_, ?_, ?_⟩⟩
      · cases hpeer
      · exact mem_singleton.2 rfl
      · decide
      · decide
    · rintro - op peers htake -
      cases htake
      exact ⟨rfl, _, rfl⟩
  exact ⟨hlossless, acks_sound _ _ _ _ _ _ _ hlossless⟩

/-- **An acknowledgement for what never arrived.** The first send fails, the second goes through:
the replica is believed to hold both operations. -/
theorem ack_after_failed_send :
    ∃ st, run (step plainLogical.engine) (start 1024 (by decide) fun _ => Store.new ∅)
        (configured ++ [.write setRequest fun _ => some "b:6379",
          .write setRequest fun _ => some "b:6379", .send "b" false 5, .send "b" true 6]) = .ok st ∧
      st.acks.get 0 "b" = 2 ∧ ¬ st.Holds "b" 0 2 := by
  refine ⟨_, rfl, rfl, ?_⟩
  intro hholds
  have := hholds (setOp 1 1) (by decide) rfl (by decide)
  revert this
  decide

end Primary

end AutoCache.Protocol
