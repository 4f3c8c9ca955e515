import AutoCache.Lib.Runs
import AutoCache.Protocol.Replay
import AutoCache.Store.Ops

/-!
# Deliveries one after the other

A replica receives operations and keeps, for this development, the list of those it applied. Its
record of a slot is the mark of the last one. A delivered operation that leaves out numbers passes
`Begin` like the next one would, so whether a gap stays out is up to its replay.
-/

namespace AutoCache.Protocol

open Replication Runs List

/-! ## What was applied -/

def appliedIn (slot : UInt16) (epoch : UInt64) (applied : List Op) : List Op :=
  applied.filter fun op => op.slot = slot ∧ op.epoch = epoch

/-- The number of the last operation of a slot and epoch, `0` before the first. -/
def lastApplied (slot : UInt16) (epoch : UInt64) (applied : List Op) : UInt64 :=
  ((appliedIn slot epoch applied).getLast?.map Op.lsn).getD 0

/-- The numbers applied within one epoch follow each other. -/
def Consecutive (applied : List Op) : Prop :=
  ∀ slot epoch, (appliedIn slot epoch applied).IsChain fun op next =>
    next.lsn.toNat = op.lsn.toNat + 1

/-- The operation leaves out numbers behind the last one applied in its epoch. -/
def Gap (applied : List Op) (op : Op) : Prop :=
  ∃ last, (appliedIn op.slot op.epoch applied).getLast? = some last ∧
    last.lsn.toNat + 1 < op.lsn.toNat

variable {slot : UInt16} {epoch : UInt64} {applied : List Op} {op : Op}

lemma appliedIn_concat : appliedIn slot epoch (applied ++ [op]) =
      if op.slot = slot ∧ op.epoch = epoch then appliedIn slot epoch applied ++ [op]
      else appliedIn slot epoch applied := by
  simp only [appliedIn, filter_append, filter_cons, filter_nil]
  split <;> simp_all

lemma lastApplied_concat : lastApplied slot epoch (applied ++ [op]) =
      if op.slot = slot ∧ op.epoch = epoch then op.lsn else lastApplied slot epoch applied := by
  rw [lastApplied, appliedIn_concat]
  split
  · simp
  · rfl

lemma lastApplied_of_getLast {last : Op} (h : (appliedIn slot epoch applied).getLast? = some last) :
    lastApplied slot epoch applied = last.lsn := by
  simp [lastApplied, h]

/-! ## Deliveries -/

structure Delivery where
  op : Op
  now : Int

/-- A replica with what it has applied so far, oldest first. -/
structure Received (σ : Type) where
  replica : Replica σ
  applied : List Op

variable {σ : Type} {E : Engine σ} {st st' : Received σ} {d : Delivery}

def Received.start (store : Store σ) : Received σ := ⟨⟨store, .new⟩, []⟩

/-- One call of `applyIncomingReplicationOp`; the operation counts as applied when it got past
`Begin` and the call returned nil. -/
def receive (E : Engine σ) (now : Int) (op : Op) (st : Received σ) :
    Go (Except ReplayError Unit × Received σ) := do
  let (result, replica) ← applyIncomingReplicationOp E now op st.replica
  let done := st.replica.applier.Passes op ∧ result.isOk
  return (result, ⟨replica, if done then st.applied ++ [op] else st.applied⟩)

def deliver (E : Engine σ) (st : Received σ) (d : Delivery) : Go (Received σ) := do
  let (_, st) ← receive E d.now d.op st
  return st

lemma receive_cases {now : Int} {result : Except ReplayError Unit} (h : receive E now op st = .ok (result, st')) :
    (∃ err, result = .error err ∧ st'.applied = st.applied ∧ st'.replica.applier = st.replica.applier) ∨
      (result = .ok () ∧ st.replica.applier.begin op = .ok true ∧ st' = st) ∨
      (result = .ok () ∧ st.replica.applier.Passes op ∧ st'.applied = st.applied ++ [op] ∧
        st'.replica.applier = st.replica.applier.commit op ∧
        applyIncomingReplicationOp E now op st.replica = .ok (.ok (), st'.replica)) := by
  obtain ⟨⟨result, replica⟩, happ, h⟩ := Go.bind_eq_ok.1 h
  cases h
  rcases applyIncomingReplicationOp_cases happ with
    ⟨err, hbegin, rfl, rfl⟩ | ⟨hbegin, rfl, rfl⟩ | ⟨hpass, store, -, ⟨rfl, rfl⟩ | ⟨err, rfl, rfl⟩⟩
  · exact Or.inl ⟨_, rfl, by simp [Except.isOk, Except.toBool], rfl⟩
  · exact Or.inr (Or.inl ⟨rfl, hbegin, by simp [ReplicaApplier.Passes, hbegin]⟩)
  · have hpass : st.replica.applier.Passes op := hpass
    exact Or.inr (Or.inr ⟨rfl, hpass, by simp [hpass, Except.isOk, Except.toBool], rfl, happ⟩)
  · exact Or.inl ⟨_, rfl, by simp [Except.isOk, Except.toBool], rfl⟩

lemma deliver_cases (h : deliver E st d = .ok st') : (st'.applied = st.applied ∧ st'.replica.applier = st.replica.applier) ∨
      (st.replica.applier.Passes d.op ∧ st'.applied = st.applied ++ [d.op] ∧
        st'.replica.applier = st.replica.applier.commit d.op ∧
        applyIncomingReplicationOp E d.now d.op st.replica = .ok (.ok (), st'.replica)) := by
  obtain ⟨⟨result, received⟩, hrcv, h⟩ := Go.bind_eq_ok.1 h
  cases h
  rcases receive_cases hrcv with ⟨-, -, happ, hrec⟩ | ⟨-, -, rfl⟩ | ⟨-, h⟩
  · exact Or.inl ⟨happ, hrec⟩
  · exact Or.inl ⟨rfl, rfl⟩
  · exact Or.inr h

/-! ## The record and the list -/

/-- The record of a slot is that of its last operation, and no operation of a later epoch was
applied. -/
structure Tracks (st : Received σ) : Prop where
  pos : ∀ op ∈ st.applied, 0 < op.lsn
  last : ∀ slot epoch, (st.replica.applier.recorded slot).epoch ≤ epoch →
    lastApplied slot epoch st.applied =
      if epoch = (st.replica.applier.recorded slot).epoch then
        (st.replica.applier.recorded slot).lsn else 0

lemma tracks_start (store : Store σ) : Tracks (Received.start store) := by
  constructor
  · intro op hop
    cases hop
  · intro slot epoch _
    split <;> rfl

section

variable (hst : Tracks st)
include hst

lemma Tracks.deliver (h : deliver E st d = .ok st') : Tracks st' := by
  rcases deliver_cases h with ⟨happ, hrec⟩ | ⟨hpass, happ, hrec, -⟩
  · constructor
    · rw [happ]
      exact hst.pos
    · rw [happ, hrec]
      exact hst.last
  · constructor
    · intro op hop
      rw [happ, mem_append, mem_singleton] at hop
      rcases hop with hop | rfl
      · exact hst.pos op hop
      · exact hpass.lsn_pos
    · intro slot epoch hle
      rw [hrec, ReplicaApplier.recorded_commit] at hle ⊢
      rw [happ, lastApplied_concat]
      by_cases hslot : slot = d.op.slot
      · subst hslot
        rw [if_pos rfl] at hle
        simp only [if_true, true_and]
        by_cases hep : d.op.epoch = epoch
        · simp [hep, Op.mark]
        · -- a later epoch was out of reach before this delivery, too
          have hlt : d.op.epoch < epoch := UInt64.lt_of_le_of_ne hle hep
          have hold := UInt64.lt_of_le_of_lt hpass.epoch_le hlt
          have hne : epoch ≠ (st.replica.applier.recorded d.op.slot).epoch :=
            fun h => UInt64.lt_irrefl _ (h ▸ hold)
          rw [if_neg hep, hst.last _ _ (UInt64.le_of_lt hold), if_neg hne, if_neg fun h => hep h.symm]
      · have hslot' : ¬ (d.op.slot = slot ∧ d.op.epoch = epoch) := fun h => hslot h.1.symm
        rw [if_neg hslot] at hle ⊢
        rw [if_neg hslot']
        exact hst.last slot epoch hle

lemma Tracks.getLast {last : Op} (hle : (st.replica.applier.recorded slot).epoch ≤ epoch)
    (hlast : (appliedIn slot epoch st.applied).getLast? = some last) :
    (st.replica.applier.recorded slot).epoch = epoch ∧ (st.replica.applier.recorded slot).lsn = last.lsn := by
  have hmem : last ∈ st.applied :=
    (mem_filter.1 (mem_of_getLast? hlast)).1
  have heq := hst.last slot epoch hle
  rw [lastApplied_of_getLast hlast] at heq
  split at heq
  · next h => exact ⟨h.symm, heq.symm⟩
  · exact absurd (hst.pos last hmem) (by rw [heq]; exact UInt64.lt_irrefl 0)

lemma Tracks.skips_iff (hle : (st.replica.applier.recorded op.slot).epoch ≤ op.epoch) :
    st.replica.applier.Skips op ↔ Gap st.applied op := by
  constructor
  · rintro ⟨hep, hpos, hlt⟩
    have heq := hst.last op.slot op.epoch hle
    rw [if_pos hep.symm] at heq
    cases hlast : (appliedIn op.slot op.epoch st.applied).getLast? with
    | none =>
      rw [lastApplied, hlast] at heq
      exact absurd hpos (by rw [← heq]; exact UInt64.lt_irrefl 0)
    | some last =>
      rw [lastApplied_of_getLast hlast] at heq
      exact ⟨last, hlast, heq ▸ hlt⟩
  · rintro ⟨last, hlast, hlt⟩
    obtain ⟨hep, hlsn⟩ := hst.getLast hle hlast
    have hpos := hst.pos last (mem_filter.1 (mem_of_getLast? hlast)).1
    exact ⟨hep, hlsn ▸ hpos, hlsn ▸ hlt⟩

/-! ## Gaps -/

/-- A gap is refused with an error, and neither the engine nor the record changes. -/
def RefusesGap (E : Engine σ) (st : Received σ) (d : Delivery) : Prop :=
  Gap st.applied d.op →
    ∃ err, applyIncomingReplicationOp E d.now d.op st.replica = .ok (.error err, st.replica)

/-- The replay of the operation fails before it changes the engine. -/
def Unreplayable (E : Engine σ) (d : Delivery) (store : Store σ) : Prop :=
  ∃ err, replay E d.now d.op store = .ok (.error err, store)

/-- **A gap is refused exactly when its replay fails.** -/
lemma refusesGap_iff : RefusesGap E st d ↔ (st.replica.applier.Skips d.op → Unreplayable E d st.replica.store) := by
  constructor
  · intro h hskip
    have hpass := hskip.passes
    obtain ⟨err, happ⟩ := h ((hst.skips_iff hpass.epoch_le).1 hskip)
    rcases applyIncomingReplicationOp_cases happ with
      ⟨e, hbegin, -⟩ | ⟨hbegin, -⟩ | ⟨-, store, hreplay, ⟨hok, -⟩ | ⟨e, -, hrep⟩⟩
    · rw [hpass] at hbegin
      cases hbegin
    · rw [hpass] at hbegin
      cases hbegin
    · cases hok
    · have hsto : st.replica.store = store := congrArg Replica.store hrep
      exact ⟨err, by rw [hreplay, hsto]⟩
  · intro h hgap
    by_cases hstale : d.op.epoch < (st.replica.applier.recorded d.op.slot).epoch
    · refine ⟨.stale ⟨d.op.epoch, (st.replica.applier.recorded d.op.slot).epoch⟩, ?_⟩
      simp [applyIncomingReplicationOp, ReplicaApplier.begin, hstale]
    · have hskip := (hst.skips_iff (UInt64.not_lt.1 hstale)).2 hgap
      obtain ⟨err, hreplay⟩ := h hskip
      have hpass : st.replica.applier.begin d.op = .ok false := hskip.passes
      refine ⟨err, ?_⟩
      simp [applyIncomingReplicationOp, hpass, hreplay]

lemma Consecutive.deliver (hrefuse : RefusesGap E st d) (hcons : Consecutive st.applied) (h : deliver E st d = .ok st') :
    Consecutive st'.applied := by
  rcases deliver_cases h with ⟨happ, -⟩ | ⟨hpass, happ, -, hok⟩
  · rwa [happ]
  intro slot epoch
  rw [happ, appliedIn_concat]
  split
  · next hop =>
    obtain ⟨rfl, rfl⟩ := hop
    rw [isChain_append]
    refine ⟨hcons _ _, isChain_singleton _, ?_⟩
    intro last hlast next hnext
    cases hnext
    obtain ⟨hep, hlsn⟩ := hst.getLast hpass.epoch_le hlast
    have hlt : last.lsn.toNat < d.op.lsn.toNat := by
      rcases hpass.before with hlt | ⟨-, hlt⟩
      · exact absurd hlt (by rw [hep]; exact UInt64.lt_irrefl _)
      · rwa [hlsn, UInt64.lt_iff_toNat_lt] at hlt
    -- it was applied, so it was not a gap
    have hno : ¬ Gap st.applied d.op := by
      intro hgap
      obtain ⟨err, herr⟩ := hrefuse hgap
      rw [hok] at herr
      cases herr
    have hle : ¬ last.lsn.toNat + 1 < d.op.lsn.toNat := fun hgap => hno ⟨last, hlast, hgap⟩
    omega
  · exact hcons slot epoch

end

/-- **Gaps.** Whatever is delivered one after the other to a replica that starts with an empty
record: every gap is refused without a trace, and the numbers applied in an epoch follow each other,
exactly when each operation that leaves out numbers is one whose replay fails and changes nothing. -/
theorem gaps_refused_iff (E : Engine σ) (store : Store σ) (ds : List Delivery) :
    (Along (deliver E) (RefusesGap E) (.start store) ds ∧
      ∀ st, run (deliver E) (.start store) ds = .ok st → Consecutive st.applied) ↔
    Along (deliver E) (fun st d =>
      st.replica.applier.Skips d.op → Unreplayable E d st.replica.store) (.start store) ds := by
  constructor
  · rintro ⟨halong, -⟩
    exact halong.imp (fun st d st' hst _ h => hst.deliver h)
      (fun st d hst h => (refusesGap_iff hst).1 h) (tracks_start store)
  · intro halong
    have hrefuse : Along (deliver E) (RefusesGap E) (.start store) ds :=
      halong.imp (fun st d st' hst _ h => hst.deliver h)
        (fun st d hst h => (refusesGap_iff hst).2 h) (tracks_start store)
    refine ⟨hrefuse, fun st hrun => ?_⟩
    have hinv := hrefuse.run_invariant (I := fun st => Tracks st ∧ Consecutive st.applied)
      (fun st d st' hst hrefuse h => ⟨hst.1.deliver h, hst.2.deliver hst.1 hrefuse h⟩)
      ⟨tracks_start store, fun slot epoch => isChain_nil⟩ hrun
    exact hinv.2

/-- `SET k v` as it is logged. -/
def setOp (epoch lsn : UInt64) : Op :=
  { slot := 0, epoch := epoch, lsn := lsn, opType := .set, key := [107],
    payload := encodeReplicationPayload [[107], [118]], expireAtNs := 0 }

/-- **A gap that is applied.** Number 3 comes right after number 1 of the same epoch, and both are
applied. -/
theorem gap_applied :
    ¬ (Along (deliver plainLogical.engine) (RefusesGap plainLogical.engine)
        (.start (Store.new ∅)) [⟨setOp 1 1, 5⟩, ⟨setOp 1 3, 6⟩] ∧
      ∀ st, run (deliver plainLogical.engine) (.start (Store.new ∅))
        [⟨setOp 1 1, 5⟩, ⟨setOp 1 3, 6⟩] = .ok st → Consecutive st.applied) := by
  rintro ⟨-, hcons⟩
  have h := hcons _ rfl 0 1
  revert h
  decide

end AutoCache.Protocol
