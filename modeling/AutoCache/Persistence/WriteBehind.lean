import AutoCache.Lib.Runs
import AutoCache.Tiered.Manager

/-!
# Write-behind (`internal/persistence/writebehind.go`)

Writes go into a channel. `flushLoop` takes them out one by one into a batch of its own, and flushes the
batch when it is full or the timer fires. `Stop` cancels the loop, waits for it and flushes what is left in
the channel. The loop returns as soon as it sees the cancellation, and its batch is gone.

Flushes always succeed here, and so does the encoding of an entry. The database is the warm tier's.
-/

namespace AutoCache.Persistence

open Tiered List Runs Function

inductive WriteOp where
  | set (key : Bytes) (entry : EngineEntry)
  | del (key : Bytes)

namespace WriteOp

def key : WriteOp → Bytes
  | set key _ => key
  | del key => key

def entry : WriteOp → Option EngineEntry
  | set _ entry => some entry
  | del _ => none

/-- One operation of a batch. An entry whose deadline has passed is written without a time to live. -/
def flush (now : Int) (db : Warm) : WriteOp → Warm
  | set key entry =>
    let expiresAt := entry.expireAt.bind fun t =>
      if Store.timeUntil t now > 0 then some (now + Store.timeUntil t now) else none
    db.insert key ⟨entry, expiresAt⟩
  | del key => db.erase key

end WriteOp

/-- `flush`: the batch is written in order. -/
def flush (now : Int) (batch : List WriteOp) (db : Warm) : Warm := batch.foldl (WriteOp.flush now) db

/-! ## What a database holds -/

abbrev Entries : Type := Bytes → Option EngineEntry

/-- The entries of a database; the deadlines of its items are not part of them. -/
def entries (db : Warm) : Entries := fun key => (db.lookup key).map Item.entry

def WriteOp.write (e : Entries) (op : WriteOp) : Entries := update e op.key op.entry

def written (ops : List WriteOp) (e : Entries) : Entries := ops.foldl WriteOp.write e

lemma written_append (ops ops' : List WriteOp) (e : Entries) :
    written (ops ++ ops') e = written ops' (written ops e) := foldl_append

lemma entries_flushOp (now : Int) (db : Warm) (op : WriteOp) : entries (op.flush now db) = op.write (entries db) := by
  funext key
  cases op with
  | set k entry | del k =>
    by_cases hk : key = k
    · subst hk
      simp [entries, WriteOp.flush, WriteOp.write, WriteOp.key, WriteOp.entry]
    · simp [entries, WriteOp.flush, WriteOp.write, WriteOp.key, hk]

lemma entries_flush (now : Int) (batch : List WriteOp) (db : Warm) :
    entries (flush now batch db) = written batch (entries db) := by
  unfold flush written
  induction batch generalizing db with
  | nil => rfl
  | cons op batch ih => rw [foldl_cons, foldl_cons, ih, entries_flushOp]

lemma written_of_mem {ops : List WriteOp} {key : Bytes} (h : ∃ op ∈ ops, op.key = key) (e e' : Entries) :
    written ops e key = written ops e' key := by
  induction ops using reverseRecOn with
  | nil => simp at h
  | append_singleton ops op ih =>
    rw [written_append, written_append]
    change WriteOp.write _ op key = WriteOp.write _ op key
    by_cases hk : key = op.key
    · simp [WriteOp.write, hk]
    obtain ⟨op', hmem, hkey⟩ := h
    have hops : ∃ op ∈ ops, op.key = key := by
      rcases mem_append.1 hmem with hmem | hmem
      · exact ⟨op', hmem, hkey⟩
      · rw [mem_singleton.1 hmem] at hkey
        exact absurd hkey.symm hk
    simp only [WriteOp.write, update_of_ne hk]
    exact ih hops

lemma written_of_not_mem {ops : List WriteOp} {key : Bytes} (h : ¬ ∃ op ∈ ops, op.key = key)
    (e : Entries) : written ops e key = e key := by
  induction ops generalizing e with
  | nil => rfl
  | cons op ops ih =>
    have hk : key ≠ op.key := fun hk => h ⟨op, mem_cons_self, hk.symm⟩
    change written ops (op.write e) key = _
    rw [ih (fun ⟨op', hmem, hkey⟩ => h ⟨op', mem_cons_of_mem _ hmem, hkey⟩)]
    exact update_of_ne hk _ _

/-! ## The loop -/

/-- What runs: `flushLoop`, then `drain`, and then `Stop` has returned. -/
inductive LoopPhase where
  | running
  | draining
  | stopped
  deriving DecidableEq

/-- The channel, the batch of the loop and the database. `accepted` are all operations that the channel
took, in order. -/
structure WriteBehind where
  now : Int
  ch : List WriteOp
  batch : List WriteOp
  db : Warm
  cancelled : Bool
  phase : LoopPhase
  accepted : List WriteOp

/-- What can happen next: an operation is appended; the loop receives one, its timer fires, or it sees the
cancellation; `Stop` is called; `drain` looks into the channel. -/
inductive LoopEvent where
  | wait (ns : ℕ)
  | append (op : WriteOp)
  | receive
  | timer
  | stop
  | exit
  | drain

namespace WriteBehind

inductive Disabled where
  | disabled

/-- `batchSize` is the configured one. With zero every operation is flushed at once; with a negative one
there is no loop, since its `make` panics. -/
def step (batchSize : ℕ) (s : WriteBehind) : LoopEvent → Except Disabled WriteBehind
  | .wait ns => .ok { s with now := s.now + ns }
  | .append op =>
    if s.cancelled then .error .disabled
    else .ok { s with ch := s.ch ++ [op], accepted := s.accepted ++ [op] }
  | .receive =>
    match s.phase, s.ch with
    | .running, op :: ch =>
      if (s.batch ++ [op]).length ≥ batchSize then
        .ok { s with ch := ch, batch := [], db := flush s.now (s.batch ++ [op]) s.db }
      else .ok { s with ch := ch, batch := s.batch ++ [op] }
    | _, _ => .error .disabled
  | .timer =>
    match s.phase with
    | .running => .ok { s with batch := [], db := flush s.now s.batch s.db }
    | _ => .error .disabled
  | .stop => if s.cancelled then .error .disabled else .ok { s with cancelled := true }
  | .exit =>
    match s.phase, s.cancelled with
    | .running, true => .ok { s with batch := [], phase := .draining }
    | _, _ => .error .disabled
  | .drain =>
    match s.phase, s.ch with
    | .draining, op :: ch => .ok { s with ch := ch, db := flush s.now [op] s.db }
    | .draining, [] => .ok { s with phase := .stopped }
    | _, _ => .error .disabled

/-- `NewWriteBehind` and `Start`. -/
def start (now : Int) (db : Warm) : WriteBehind := ⟨now, [], [], db, false, .running, []⟩

/-- **No queued write is lost**: the database, which was `db`, holds what the accepted operations leave,
in the order in which they were appended. -/
def LosesNothing (db : Warm) (s : WriteBehind) : Prop :=
  entries s.db = written s.accepted (entries db)

/-- When the loop returns, its batch does not matter: what it would leave under a key is there already, or
an operation still in the channel writes the key again. -/
def BatchDoneWith (s : WriteBehind) : LoopEvent → Prop
  | .exit => ∀ key, (∃ op ∈ s.ch, op.key = key) ∨ written s.batch (entries s.db) key = entries s.db key
  | _ => True

/-! ## Where the operations are -/

/-- Nothing is lost so far: the database, the batch and the channel together hold all operations. -/
def Complete (e : Entries) (s : WriteBehind) : Prop :=
  written (s.batch ++ s.ch) (entries s.db) = written s.accepted e

/-- After the loop there is no batch and nothing is appended; at the end the channel is empty. -/
structure Ended (s : WriteBehind) : Prop where
  not_running : s.phase ≠ .running
  cancelled : s.cancelled = true
  batch : s.batch = []
  ch : s.phase = .stopped → s.ch = []

variable {batchSize : ℕ} {e : Entries} {s s' : WriteBehind} {a : LoopEvent}

lemma complete_step (h : s.step batchSize a = .ok s') (ha : a ≠ .exit) (hph : s.phase = .running)
    (hs : s.Complete e) : s'.phase = .running ∧ s'.Complete e := by
  unfold Complete at hs ⊢
  cases a with simp only [step] at h
  | wait ns =>
    cases h
    exact ⟨hph, hs⟩
  | append op =>
    split at h
    · cases h
    · cases h
      refine ⟨hph, ?_⟩
      rw [← append_assoc, written_append _ [op], hs, written_append _ [op]]
  | receive =>
    rw [hph] at h
    cases hch : s.ch with
    | nil =>
      rw [hch] at h
      cases h
    | cons op ch =>
      rw [hch] at h hs
      dsimp only at h
      split at h
      · cases h
        refine ⟨rfl, ?_⟩
        rw [entries_flush, ← written_append, nil_append, append_assoc]
        exact hs
      · cases h
        refine ⟨rfl, ?_⟩
        rw [append_assoc]
        exact hs
  | timer =>
    rw [hph] at h
    cases h
    refine ⟨rfl, ?_⟩
    rw [entries_flush, ← written_append]
    exact hs
  | stop =>
    split at h
    · cases h
    · cases h
      exact ⟨hph, hs⟩
  | exit => exact absurd rfl ha
  | drain =>
    rw [hph] at h
    cases h

lemma complete_exit (h : s.step batchSize .exit = .ok s') (hs : s.Complete e) :
    s'.Ended ∧ (s'.Complete e ↔ s.BatchDoneWith .exit) := by
  simp only [step] at h
  split at h
  · next hph hcancelled =>
    cases h
    refine ⟨⟨LoopPhase.noConfusion, hcancelled, rfl, LoopPhase.noConfusion⟩, ?_⟩
    unfold Complete at hs ⊢
    rw [← hs]
    rw [nil_append, written_append]
    constructor
    · intro heq key
      by_cases hmem : ∃ op ∈ s.ch, op.key = key
      · exact .inl hmem
      · have hkey := congrFun heq key
        rw [written_of_not_mem hmem, written_of_not_mem hmem] at hkey
        exact .inr hkey.symm
    · intro hdone
      funext key
      by_cases hmem : ∃ op ∈ s.ch, op.key = key
      · exact written_of_mem hmem _ _
      · rw [written_of_not_mem hmem, written_of_not_mem hmem]
        exact ((hdone key).resolve_left hmem).symm
  · cases h

/-- A step after the loop has returned moves an operation from the channel to the database. -/
lemma ended_step (h : s.step batchSize a = .ok s') (hs : s.Ended) :
    s'.Ended ∧ (s'.Complete e ↔ s.Complete e) ∧ s.BatchDoneWith a := by
  obtain ⟨hph, hcancelled, hbatch, hch⟩ := hs
  cases a with
  | wait ns =>
    cases h
    exact ⟨⟨hph, hcancelled, hbatch, hch⟩, .rfl, trivial⟩
  | append op | stop =>
    simp only [step] at h
    rw [if_pos hcancelled] at h
    cases h
  | receive | exit =>
    simp only [step] at h
    split at h
    · next hrng _ => exact absurd hrng hph
    · cases h
  | timer =>
    unfold step at h
    dsimp only at h
    split at h
    · next hrng => exact absurd hrng hph
    · cases h
  | drain =>
    simp only [step] at h
    split at h
    · next hdraining hcons =>
      cases h
      refine ⟨⟨hph, hcancelled, hbatch, fun hstopped => ?_⟩, ?_, trivial⟩
      · rw [hdraining] at hstopped
        cases hstopped
      · unfold Complete
        rw [hbatch, hcons, entries_flush, ← written_append]
        rfl
    · next hdraining hnil =>
      cases h
      exact ⟨⟨LoopPhase.noConfusion, hcancelled, hbatch, fun _ => hnil⟩, .rfl, trivial⟩
    · cases h

lemma ended_run {program : List LoopEvent} (hs : s.Ended) (h : run (step batchSize) s program = .ok s') :
    s'.Ended ∧ (s'.Complete e ↔ s.Complete e) ∧ Along (step batchSize) BatchDoneWith s program := by
  induction program generalizing s with
  | nil =>
    cases h
    exact ⟨hs, .rfl, trivial⟩
  | cons a program ih =>
    obtain ⟨t, hstep, h⟩ := run_cons_eq_ok h
    obtain ⟨ht, hcmp, hdone⟩ := ended_step (e := e) hstep hs
    obtain ⟨hs', hcmp', halong⟩ := ih ht h
    exact ⟨hs', hcmp'.trans hcmp, .cons hdone hstep halong⟩

lemma complete_run {program : List LoopEvent} (hph : s.phase = .running) (hs : s.Complete e)
    (h : run (step batchSize) s program = .ok s') (hstopped : s'.phase = .stopped) :
    s'.Ended ∧ (s'.Complete e ↔ Along (step batchSize) BatchDoneWith s program) := by
  induction program generalizing s with
  | nil =>
    cases h
    rw [hph] at hstopped
    cases hstopped
  | cons a program ih =>
    obtain ⟨t, hstep, hrest⟩ := run_cons_eq_ok h
    by_cases ha : a = .exit
    · subst ha
      obtain ⟨ht, hcmp⟩ := complete_exit hstep hs
      obtain ⟨hs', hcmp', halong⟩ := ended_run (e := e) ht hrest
      exact ⟨hs', (hcmp'.trans hcmp).trans ⟨fun hdone => .cons hdone hstep halong, fun h => h.1⟩⟩
    · obtain ⟨ht, hcmp⟩ := complete_step hstep ha hph hs
      obtain ⟨hs', hiff⟩ := ih ht hcmp hrest
      have hdone : s.BatchDoneWith a := by cases a <;> trivial
      exact ⟨hs', hiff.trans ⟨fun halong => .cons hdone hstep halong, fun h => h.2 t hstep⟩⟩

/-- **A graceful stop loses nothing exactly when the loop has no batch that matters as it returns**, for
every batch size and every interleaving that ends with the return of `Stop`. -/
theorem losesNothing_iff (batchSize : ℕ) (now : Int) (db : Warm) (program : List LoopEvent) (s : WriteBehind)
    (hrun : run (step batchSize) (start now db) program = .ok s) (hstopped : s.phase = .stopped) :
    s.LosesNothing db ↔ Along (step batchSize) BatchDoneWith (start now db) program := by
  have hstart : (start now db).Complete (entries db) := rfl
  obtain ⟨hended, hiff⟩ := complete_run rfl hstart hrun hstopped
  rw [← hiff, Complete, hended.batch, hended.ch hstopped]
  rfl

/-- The timer fires before `Stop`. -/
theorem losesNothing_after_timer :
    ∃ s, run (step 2) (start 0 ∅) [.append (.del []), .receive, .timer, .stop, .exit, .drain] = .ok s ∧
      s.phase = .stopped ∧ s.LosesNothing ∅ := by
  refine ⟨_, rfl, rfl, (losesNothing_iff 2 0 ∅
    [.append (.del []), .receive, .timer, .stop, .exit, .drain] _ rfl rfl).2 ?_⟩
  refine .cons trivial rfl (.cons trivial rfl (.cons trivial rfl (.cons trivial rfl (.cons ?_ rfl
    (.cons trivial rfl trivial)))))
  exact fun key => .inr rfl

/-- `Stop` right after the loop has received a write, with room for one more in its batch: the write is in no
flush. -/
theorem stop_loses_batch :
    ∃ s, run (step 2) (start 0 ∅) [.append (.set [] ⟨.string [], none⟩), .receive, .stop, .exit, .drain] =
        .ok s ∧
      s.phase = .stopped ∧ ¬ s.LosesNothing ∅ := by
  refine ⟨_, rfl, rfl, fun h => ?_⟩
  cases congrFun h []

end WriteBehind

end AutoCache.Persistence
