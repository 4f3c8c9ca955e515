import Mathlib.Data.List.DropRight
import AutoCache.Cluster.Slots

/-!
# The replication log and the write path
(`internal/cluster/replication/log.go`, `manager.go`)

Every slot has its own log. `Append` takes an operation only when its number follows the last one
of the slot, and keeps the newest `limit` operations. `ApplyWrite` runs the engine's write first,
then takes the next number from the slot manager and appends: three steps, each under its own
lock, whose agreement is the subject of the modules that follow.
-/

namespace AutoCache.Replication

open Cluster Function

/-- The operation types the protocol handlers log; anything else can only arrive from the wire. -/
inductive OpType where
  | set
  | mset
  | hset
  | del
  | rename
  | expire
  | pexpire
  | expireAt
  | persist
  | other (text : Bytes)
  deriving DecidableEq, Repr

structure Op where
  slot : UInt16
  epoch : UInt64
  lsn : UInt64
  opType : OpType
  key : Bytes
  payload : Bytes
  expireAtNs : Int
  deriving DecidableEq, Repr

/-! ## The log -/

/-- The log of every slot. `limit` is a positive Go `int`, and no slot's log is longer. -/
structure LogStore where
  limit : ℕ
  logs : GoMap UInt16 (List Op)
  first : GoMap UInt16 UInt64
  last : GoMap UInt16 UInt64
  limit_pos : 0 < limit
  limit_lt : limit < 2 ^ 63
  bounded : ∀ slot, ((logs.lookup slot).getD []).length ≤ limit

/-- `slot %d append out of order: got %d want %d`. -/
structure AppendError where
  slot : UInt16
  got : UInt64
  want : UInt64
  deriving DecidableEq, Repr

namespace LogStore

lemma default_lt : (1024 : Int) < 2 ^ 63 := by decide

/-- `NewLogStore(limit)` for a limit given as a Go `int`. -/
def new (limit : Int) (h : limit < 2 ^ 63) : LogStore where
  limit := if limit ≤ 0 then 1024 else limit.toNat
  logs := ∅
  first := ∅
  last := ∅
  limit_pos := by split <;> omega
  limit_lt := by split <;> omega
  bounded slot := by simp

/-- The operations held for a slot, oldest first. -/
def log (s : LogStore) (slot : UInt16) : List Op := (s.logs.lookup slot).getD []

/-- The number of the slot's last operation, `0` before the first. -/
def lastLSN (s : LogStore) (slot : UInt16) : UInt64 := (s.last.lookup slot).getD 0

lemma log_length_le (s : LogStore) (slot : UInt16) : (s.log slot).length ≤ s.limit :=
  s.bounded slot

def append (s : LogStore) (op : Op) : Except AppendError LogStore :=
  if op.lsn ≠ s.lastLSN op.slot + 1 then
    .error ⟨op.slot, op.lsn, s.lastLSN op.slot + 1⟩
  else
    let log := (s.log op.slot ++ [op]).rtake s.limit
    .ok
      { limit := s.limit
        logs := s.logs.insert op.slot log
        first :=
          match log with
          | [] => if (s.first.lookup op.slot).isSome then s.first else s.first.insert op.slot op.lsn
          | oldest :: _ => s.first.insert op.slot oldest.lsn
        last := s.last.insert op.slot op.lsn
        limit_pos := s.limit_pos
        limit_lt := s.limit_lt
        bounded := by
          intro slot
          rw [GoMap.lookup_insert_eq]
          split
          · simp [log, List.rtake]
            omega
          · exact s.bounded slot }

structure Appended (s : LogStore) (op : Op) (s' : LogStore) : Prop where
  limit : s'.limit = s.limit
  log : s'.log op.slot = (s.log op.slot ++ [op]).rtake s.limit
  last : s'.lastLSN op.slot = op.lsn
  log_other : ∀ slot, slot ≠ op.slot → s'.log slot = s.log slot
  last_other : ∀ slot, slot ≠ op.slot → s'.lastLSN slot = s.lastLSN slot

variable {s s' : LogStore} {op : Op}

lemma append_of_next (h : op.lsn = s.lastLSN op.slot + 1) : ∃ s', s.append op = .ok s' ∧ s.Appended op s' := by
  refine ⟨_, if_neg (not_not.2 h), ?_⟩
  constructor
  · rfl
  · simp [log]
  · simp [lastLSN]
  · intro slot hne
    simp [log, hne]
  · intro slot hne
    simp [lastLSN, hne]

lemma append_of_not_next (h : op.lsn ≠ s.lastLSN op.slot + 1) :
    s.append op = .error ⟨op.slot, op.lsn, s.lastLSN op.slot + 1⟩ := if_pos h

/-- **Order.** An operation is accepted exactly when its number follows the slot's last one. -/
lemma append_ok_iff : (∃ s', s.append op = .ok s') ↔ op.lsn = s.lastLSN op.slot + 1 := by
  constructor
  · rintro ⟨s', hs⟩
    by_contra hne
    rw [append_of_not_next hne] at hs
    cases hs
  · intro h
    obtain ⟨s', hs, -⟩ := append_of_next h
    exact ⟨s', hs⟩

lemma appended_of_append (h : s.append op = .ok s') : s.Appended op s' := by
  obtain ⟨t, ht, hat⟩ := append_of_next (append_ok_iff.1 ⟨s', h⟩)
  rw [h] at ht
  cases ht
  exact hat

end LogStore

/-! ## The write path -/

/-- A `WriteRequest` without its `Apply` callback. -/
structure WriteRequest where
  slot : UInt16
  opType : OpType
  key : Bytes
  payload : Bytes
  expireAtNs : Int
  deriving DecidableEq, Repr

def WriteRequest.op (req : WriteRequest) (epoch lsn : UInt64) : Op :=
  { slot := req.slot, epoch := epoch, lsn := lsn, opType := req.opType, key := req.key,
    payload := req.payload, expireAtNs := req.expireAtNs }

/-- How `ApplyWrite` fails: in the callback, in the allocator (`allocate lsn for slot %d: %w`) or
in the log (`append replication op: %w`). -/
inductive WriteError (ε : Type) where
  | apply (err : ε)
  | allocate (slot : UInt16) (err : SlotError)
  | append (err : AppendError)
  deriving Repr

/-- What a write goes through after the engine: the cluster's slot manager, which numbers the
writes, and the log. -/
structure Manager where
  slots : SlotManager
  logs : LogStore

namespace Manager

/-- `AllocateLSN` and `Append`, after the callback succeeded. An append that is refused leaves the
number allocated. `dispatch` only sends. -/
def logWrite {ε : Type} (m : Manager) (req : WriteRequest) : Except (WriteError ε) Op × Manager :=
  match m.slots.allocateLSN req.slot with
  | .error err => (.error (.allocate req.slot err), m)
  | .ok (slots, epoch, lsn) =>
    match m.logs.append (req.op epoch lsn) with
    | .error err => (.error (.append err), { m with slots := slots })
    | .ok logs => (.ok (req.op epoch lsn), { slots := slots, logs := logs })

/-- `ApplyWrite`, the callback being a call on an engine of states `σ`. -/
def applyWrite {σ ε : Type} (req : WriteRequest) (apply : σ → Go (Option ε × σ)) (m : Manager)
    (s : σ) : Go (Except (WriteError ε) Op × Manager × σ) := do
  let (failed, s) ← apply s
  match failed with
  | some err => return (.error (.apply err), m, s)
  | none =>
    let (result, m) := m.logWrite req
    return (result, m, s)

/-- The allocator of a slot agrees with its log: the number it gave last is the log's last. -/
def InStep (m : Manager) (slot : UInt16) : Prop :=
  (m.slots.slots slot).nextLSN = m.logs.lastLSN slot

variable {ε : Type} {m : Manager} {req : WriteRequest}

/-- **A write in step.** On an assigned slot whose counters agree, the write is logged under the
next number. -/
lemma logWrite_of_inStep (hslot : req.slot < slotCount)
    (hown : (m.slots.slots req.slot).nodeID ≠ "") (h : m.InStep req.slot) :
    ∃ slots logs, (m.logWrite req : Except (WriteError ε) Op × Manager) =
        (.ok (req.op (m.slots.slots req.slot).configEpoch (m.logs.lastLSN req.slot + 1)), ⟨slots, logs⟩) ∧
      slots = m.slots.modify req.slot (fun info =>
        { info with nextLSN := m.logs.lastLSN req.slot + 1 }) ∧
      m.logs.Appended (req.op (m.slots.slots req.slot).configEpoch (m.logs.lastLSN req.slot + 1)) logs := by
  have halloc := SlotManager.allocateLSN_of_assigned hslot hown
  rw [show (m.slots.slots req.slot).nextLSN = m.logs.lastLSN req.slot from h] at halloc
  obtain ⟨logs, hlogs, happ⟩ := @LogStore.append_of_next m.logs
    (req.op (m.slots.slots req.slot).configEpoch (m.logs.lastLSN req.slot + 1)) rfl
  refine ⟨_, logs, ?_, rfl, happ⟩
  simp only [logWrite, halloc, hlogs]

/-- What `logWrite` can do: nothing but use up a number, or log the operation under the number that
follows. Replicas and owners stay as they are. -/
lemma logWrite_cases (m : Manager) (req : WriteRequest) :
    ∃ result m', (m.logWrite req : Except (WriteError ε) Op × Manager) = (result, m') ∧
      (∀ slot, (m'.slots.slots slot).replicas = (m.slots.slots slot).replicas) ∧
      ((∃ err, result = .error err) ∧ m'.logs = m.logs ∨
        ∃ op, result = .ok op ∧ op.slot = req.slot ∧ op.lsn = m.logs.lastLSN req.slot + 1 ∧ m.logs.Appended op m'.logs) := by
  have hreps : ∀ lsn slot, ((m.slots.modify req.slot fun info =>
      { info with nextLSN := lsn }).slots slot).replicas = (m.slots.slots slot).replicas := by
    intro lsn slot
    rw [SlotManager.modify_slots]
    by_cases h : slot = req.slot
    · rw [h, update_self]
    · rw [update_of_ne h]
  rcases SlotManager.allocateLSN_cases m.slots req.slot with ⟨hslot, hown⟩ | ⟨err, herr⟩
  · have halloc := SlotManager.allocateLSN_of_assigned hslot hown
    cases hlog : m.logs.append (req.op (m.slots.slots req.slot).configEpoch ((m.slots.slots req.slot).nextLSN + 1)) with
    | error err =>
      have hwr : (m.logWrite req : Except (WriteError ε) Op × Manager) =
          (.error (.append err), { m with slots := m.slots.modify req.slot fun info =>
            { info with nextLSN := (m.slots.slots req.slot).nextLSN + 1 } }) := by
        simp only [logWrite, halloc, hlog]
      exact ⟨_, _, hwr, hreps _, Or.inl ⟨⟨_, rfl⟩, rfl⟩⟩
    | ok logs =>
      have hwr : (m.logWrite req : Except (WriteError ε) Op × Manager) =
          (.ok (req.op (m.slots.slots req.slot).configEpoch ((m.slots.slots req.slot).nextLSN + 1)),
            { slots := m.slots.modify req.slot fun info =>
                { info with nextLSN := (m.slots.slots req.slot).nextLSN + 1 }
              logs := logs }) := by
        simp only [logWrite, halloc, hlog]
      exact ⟨_, _, hwr, hreps _, Or.inr ⟨_, rfl, rfl, LogStore.append_ok_iff.1 ⟨logs, hlog⟩,
          LogStore.appended_of_append hlog⟩⟩
  · have hwr : (m.logWrite req : Except (WriteError ε) Op × Manager) = (.error (.allocate req.slot err), m) := by
      simp only [logWrite, herr]
    exact ⟨_, _, hwr, fun _ => rfl, Or.inl ⟨⟨_, rfl⟩, rfl⟩⟩

/-- After a callback that succeeds, the outcome of the call is that of the logging steps. -/
lemma applyWrite_of_applied {σ : Type} {apply : σ → Go (Option ε × σ)} {s s' : σ} {m' : Manager}
    {result : Except (WriteError ε) Op} (happ : apply s = .ok (none, s'))
    (hw : m.logWrite req = (result, m')) :
    m.applyWrite req apply s = .ok (result, m', s') := by
  simp only [applyWrite, happ, hw, Go.ok_bind, Go.pure_eq_ok]

instance (m : Manager) (slot : UInt16) : Decidable (m.InStep slot) :=
  inferInstanceAs (Decidable (_ = _))

end Manager

end AutoCache.Replication
