import AutoCache.Replication.Log

/-!
# The applier of a replica (`internal/cluster/replication/applier.go`)

A replica remembers for each slot the epoch and the number of the last operation it applied.
`Begin` compares an operation with that record and `Commit` overwrites it. `Begin` also notices a
gap in the numbers, but what it then changes is its own copy of the record: the operation passes.
-/

namespace AutoCache.Replication

structure ApplyProgress where
  epoch : UInt64 := 0
  lsn : UInt64 := 0
  deriving DecidableEq, Repr

namespace ApplyProgress

/-- Earlier in the order of epochs and, within an epoch, of numbers. -/
def Before (p q : ApplyProgress) : Prop := p.epoch < q.epoch ∨ p.epoch = q.epoch ∧ p.lsn < q.lsn

instance (p q : ApplyProgress) : Decidable (p.Before q) := inferInstanceAs (Decidable (_ ∨ _))

lemma Before.trans {p q r : ApplyProgress} (h : p.Before q) (h' : q.Before r) : p.Before r := by
  rcases h with h | ⟨h, hl⟩ <;> rcases h' with h' | ⟨h', hl'⟩
  · exact Or.inl (UInt64.lt_trans h h')
  · exact Or.inl (h' ▸ h)
  · exact Or.inl (h ▸ h')
  · exact Or.inr ⟨h.trans h', UInt64.lt_trans hl hl'⟩

lemma Before.irrefl (p : ApplyProgress) : ¬ p.Before p := by
  rintro (h | ⟨-, h⟩)
  · exact UInt64.lt_irrefl _ h
  · exact UInt64.lt_irrefl _ h

end ApplyProgress

def Op.mark (op : Op) : ApplyProgress := ⟨op.epoch, op.lsn⟩

structure ReplicaApplier where
  progress : GoMap UInt16 ApplyProgress

/-- `stale replication epoch: got %d want >= %d`. -/
structure StaleEpoch where
  got : UInt64
  want : UInt64
  deriving DecidableEq, Repr

namespace ReplicaApplier

def new : ReplicaApplier := ⟨∅⟩

/-- The record of a slot; an absent one reads as zero. -/
def recorded (a : ReplicaApplier) (slot : UInt16) : ApplyProgress := (a.progress.lookup slot).getD {}

/-- `Begin`: whether to skip the operation. A gap only changes a local copy of the record. -/
def begin (a : ReplicaApplier) (op : Op) : Except StaleEpoch Bool :=
  let state := a.recorded op.slot
  if op.epoch < state.epoch then .error ⟨op.epoch, state.epoch⟩
  else
    let state := if op.epoch > state.epoch then ⟨op.epoch, 0⟩ else state
    .ok (op.lsn ≤ state.lsn)

/-- `Commit`: whatever was recorded is overwritten. -/
def commit (a : ReplicaApplier) (op : Op) : ReplicaApplier :=
  ⟨a.progress.insert op.slot op.mark⟩

variable {a : ReplicaApplier} {op : Op}

@[simp] lemma recorded_commit (slot : UInt16) :
    (a.commit op).recorded slot = if slot = op.slot then op.mark else a.recorded slot := by
  simp only [recorded, commit, GoMap.lookup_insert_eq]
  split <;> rfl

/-- An operation passes `Begin` exactly when it lies behind the record and, opening an epoch, is
not numbered zero. -/
lemma begin_eq_ok_false_iff : a.begin op = .ok false ↔ (a.recorded op.slot).epoch < op.epoch ∧ 0 < op.lsn ∨
        (a.recorded op.slot).epoch = op.epoch ∧ (a.recorded op.slot).lsn < op.lsn := by
  unfold begin
  by_cases hlt : op.epoch < (a.recorded op.slot).epoch
  · have hne : (a.recorded op.slot).epoch ≠ op.epoch := fun h => UInt64.lt_irrefl _ (h ▸ hlt)
    have hgt : ¬ (a.recorded op.slot).epoch < op.epoch := UInt64.lt_asymm hlt
    simp [hlt, hne, hgt]
  · by_cases hgt : (a.recorded op.slot).epoch < op.epoch
    · have hne : (a.recorded op.slot).epoch ≠ op.epoch := fun h => UInt64.lt_irrefl _ (h ▸ hgt)
      simp [hlt, hgt, hne, UInt64.pos_iff_ne_zero]
    · have heq : (a.recorded op.slot).epoch = op.epoch :=
        UInt64.le_antisymm (UInt64.not_lt.1 hlt) (UInt64.not_lt.1 hgt)
      simp [heq]

/-- What `Begin` skips, other than the number zero, is not behind the record. -/
lemma lsn_le_of_skip (hpos : 0 < op.lsn) (h : a.begin op = .ok true) : op.lsn ≤ (a.recorded op.slot).lsn := by
  unfold begin at h
  dsimp only at h
  split at h
  · cases h
  · split at h
    · have hle : op.lsn ≤ 0 := by simpa using h
      exact absurd hpos (UInt64.not_lt.2 hle)
    · simpa using h

/-- The operation gets past `Begin`. -/
def Passes (a : ReplicaApplier) (op : Op) : Prop := a.begin op = .ok false

instance (a : ReplicaApplier) (op : Op) : Decidable (a.Passes op) :=
  decidable_of_iff _ begin_eq_ok_false_iff.symm

/-- The operation leaves out numbers of the epoch under way. -/
def Skips (a : ReplicaApplier) (op : Op) : Prop :=
  (a.recorded op.slot).epoch = op.epoch ∧ 0 < (a.recorded op.slot).lsn ∧
    (a.recorded op.slot).lsn.toNat + 1 < op.lsn.toNat

instance (a : ReplicaApplier) (op : Op) : Decidable (a.Skips op) :=
  inferInstanceAs (Decidable (_ ∧ _))

/-- **Gaps pass.** -/
lemma Skips.passes (h : a.Skips op) : a.Passes op := by
  refine begin_eq_ok_false_iff.2 (Or.inr ⟨h.1, ?_⟩)
  have := h.2.2
  rw [UInt64.lt_iff_toNat_lt]
  omega

lemma Passes.epoch_le (h : a.Passes op) : (a.recorded op.slot).epoch ≤ op.epoch := by
  rcases begin_eq_ok_false_iff.1 h with ⟨h, -⟩ | ⟨h, -⟩
  · exact UInt64.le_of_lt h
  · exact h ▸ UInt64.le_refl _

lemma Passes.lsn_pos (h : a.Passes op) : 0 < op.lsn := by
  rcases begin_eq_ok_false_iff.1 h with ⟨-, h⟩ | ⟨-, h⟩
  · exact h
  · rw [UInt64.lt_iff_toNat_lt] at h ⊢
    exact lt_of_le_of_lt (Nat.zero_le _) h

lemma Passes.before (h : a.Passes op) : (a.recorded op.slot).Before op.mark := by
  rcases begin_eq_ok_false_iff.1 h with ⟨h, -⟩ | h
  · exact Or.inl h
  · exact Or.inr h

end ReplicaApplier

end AutoCache.Replication
