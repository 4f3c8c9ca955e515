import AutoCache.Lib.Runs
import AutoCache.Protocol.Replay
import AutoCache.Tiered.View

/-!
# Full synchronisation of a slot (`internal/cluster/replication/fullsync.go`)

`FullSyncSlot` clears the slot on the target, copies the keys that the source lists, and then replays
what the source has logged since `snapshotLSN`. The source goes on serving clients: between any two
calls of `FullSyncSlot` it may accept a write, and time may pass.

The operations of the log carry the arguments of their commands. How these travel is not the subject
here: an operation is applied with the engine call its type stands for.
-/

namespace AutoCache

open List Store

/-- A live key as clients see it: value, type and deadline. -/
def KeyState.front (k : KeyState) : Option (Value × Int) :=
  match k.str with
  | some slot => some (.string slot.text, slot.deadline)
  | none => k.obj.map fun o => (.object o.value, o.expireAt)

/-- The slot is listed by `Keys`: a counter has no entry that could be. -/
def Slot.listed (now : Int) : Slot → Bool
  | .counter _ _ => false
  | .entry e => !decide (e.expired now)

namespace Protocol

open Replication

variable {σ : Type}

/-! ## Logged writes -/

/-- A client's write that is logged when it succeeds. -/
inductive LoggedWrite where
  | set (key value : Bytes) (opts : SetOptions)
  | mset (pairs : List Bytes)
  | hset (key : Bytes) (pairs : List Bytes)
  | del (keys : List Bytes)
  | rename (key newkey : Bytes)
  | expire (key : Bytes) (ttl : Int)
  | persist (key : Bytes)

inductive LoggedOp where
  | set (key value : Bytes) (expireAtNs : Int)
  | mset (pairs : List Bytes)
  | hset (key : Bytes) (pairs : List Bytes)
  | del (keys : List Bytes)
  | rename (key newkey : Bytes)
  | expire (key : Bytes) (expireAtNs : Int)
  | persist (key : Bytes)
  deriving DecidableEq

namespace LoggedWrite

/-- What a callback returns besides its error is for the client. -/
def callback {α : Type} (x : StoreM σ (Except ApplyError α)) : StoreM σ (Except ApplyError Unit) := do
  match ← x with
  | .error err => return .error err
  | .ok _ => return .ok ()

def run (E : Engine σ) (now : Int) : LoggedWrite → StoreM σ (Except ApplyError Unit)
  | set key value opts =>
    if opts.nx then conditional (setNX E key value opts.ttl now)
    else if opts.xx then conditional (setXX E key value opts.ttl now)
    else engineApply (Store.set E key value opts.ttl now)
  | mset pairs => engineApply (Store.mset E pairs now)
  | hset key pairs => callback (engineApply (Store.hset E key pairs now))
  | del keys => callback (sureApply (Store.del E keys))
  | rename key newkey => engineApply (Store.rename E key newkey now)
  | expire key ttl => callback (sureApply (Store.expire E key ttl now))
  | persist key => callback (sureApply (Store.persist E key now))

def op (now : Int) : LoggedWrite → LoggedOp
  | set key value opts => .set key value (setExpireAtNs now opts.ttl)
  | mset pairs => .mset pairs
  | hset key pairs => .hset key pairs
  | del keys => .del keys
  | rename key newkey => .rename key newkey
  | expire key ttl => .expire key (addNow now ttl)
  | persist key => .persist key

end LoggedWrite

namespace LoggedOp

/-- The engine call the operation stands for. -/
def apply (E : Engine σ) (now : Int) : LoggedOp → StoreM σ (Except ReplayError Unit)
  | set key value expireAtNs => replayCall (Store.set E key value (replayTTL expireAtNs now) now)
  | mset pairs => replayCall (Store.mset E pairs now)
  | hset key pairs => replayCall (Store.hset E key pairs now)
  | del keys => replaySure (Store.del E keys)
  | rename key newkey => replayCall (Store.rename E key newkey now)
  | expire key expireAtNs =>
    if expireAtNs ≤ 0 then return .error .invalidExpire
    else replaySure (expireAt E key expireAtNs now)
  | persist key => replaySure (Store.persist E key now)

end LoggedOp

/-- The log of the slot: the operations that are held, each with its number. Numbers follow one
another, and the last operation is always held. -/
structure SlotLog where
  limit : ℕ
  held : List (ℕ × LoggedOp)
  last : ℕ
  limit_pos : 0 < limit
  numbered : held.map Prod.fst = range' (last + 1 - held.length) held.length
  length_le : held.length ≤ last
  nonempty : 0 < last → held ≠ []

namespace SlotLog

variable (log : SlotLog)

lemma numbered_append (op : LoggedOp) : (log.held ++ [(log.last + 1, op)]).map Prod.fst =
      range' (log.last + 1 - log.held.length) (log.held.length + 1) := by
  have := log.length_le
  rw [map_append, log.numbered, range'_1_concat]
  simp only [map_cons, map_nil]
  congr 2
  omega

/-- `Append` of the next operation: the newest `limit` operations are kept. -/
def append (op : LoggedOp) : SlotLog where
  limit := log.limit
  held := (log.held ++ [(log.last + 1, op)]).rtake log.limit
  last := log.last + 1
  limit_pos := log.limit_pos
  numbered := by
    have := log.length_le
    rw [rtake, map_drop, numbered_append, drop_range']
    simp only [length_drop, length_append, length_singleton]
    congr 1
    omega
  length_le := by
    have := log.length_le
    simp only [rtake, length_drop, length_append, length_singleton]
    omega
  nonempty _ := by
    have := log.limit_pos
    refine ne_nil_of_length_pos ?_
    simp only [rtake, length_drop, length_append, length_singleton]
    omega

def listAfter (lsn : ℕ) : List LoggedOp := (log.held.filter (lsn < ·.1)).map Prod.snd

def first : ℕ := (log.held.head?.map Prod.fst).getD 0

/-- `CanReplayFromLSN`. -/
def CanReplayFrom (lsn : ℕ) : Prop :=
  if log.last = 0 then lsn = 0
  else if lsn > log.last then False
  else if lsn = log.last then True
  else lsn + 1 ≥ log.first

instance (lsn : ℕ) : Decidable (log.CanReplayFrom lsn) := by
  unfold CanReplayFrom
  infer_instance

variable {log}

/-- What `ListAfter` returns after an append is the end of what it returned, and the operation. -/
lemma listAfter_append {lsn : ℕ} {op : LoggedOp} (h : lsn ≤ log.last) :
    (log.append op).listAfter lsn <:+ log.listAfter lsn ++ [op] := by
  have hsuffix : (log.append op).held <:+ log.held ++ [(log.last + 1, op)] := drop_suffix _ _
  have hfilter := (hsuffix.filter (lsn < ·.1)).map Prod.snd
  have hlast : lsn < log.last + 1 := by omega
  simpa [listAfter, filter_append, hlast] using hfilter

lemma length_listAfter {lsn : ℕ} (h : log.CanReplayFrom lsn) : (log.listAfter lsn).length = log.last - lsn := by
  have hlen := log.length_le
  have hnumbers : (log.listAfter lsn).length =
      ((range' (log.last + 1 - log.held.length) log.held.length).filter (lsn < ·)).length := by
    rw [← log.numbered, filter_map, length_map, listAfter, length_map]
    rfl
  rw [hnumbers]
  by_cases hlsn : lsn < log.last
  · -- the oldest number held is not beyond the one that follows
    have hfirst : log.last + 1 - log.held.length ≤ lsn + 1 := by
      have hne := log.nonempty (by omega)
      have hle : lsn + 1 ≥ log.first := by
        unfold CanReplayFrom at h
        rwa [if_neg (by omega), if_neg (by omega), if_neg (by omega)] at h
      have hhead : log.first = log.last + 1 - log.held.length := by
        have hnum := congrArg head? log.numbered
        rw [head?_map, head?_range', if_neg fun h => hne (length_eq_zero_iff.1 h)] at hnum
        rw [first, hnum]
        rfl
      omega
    have hsplit : range' (log.last + 1 - log.held.length) log.held.length =
        range' (log.last + 1 - log.held.length) (lsn + 1 - (log.last + 1 - log.held.length)) ++
          range' (lsn + 1) (log.last - lsn) := by
      have happend := @range'_append_1 (log.last + 1 - log.held.length)
        (lsn + 1 - (log.last + 1 - log.held.length)) (log.last - lsn)
      rw [Nat.add_sub_of_le hfirst] at happend
      rw [happend]
      congr 1
      omega
    rw [hsplit, filter_append, filter_eq_nil_iff.2, filter_eq_self.2]
    · simp
    · intro n hn
      have := mem_range'_1.1 hn
      simp only [decide_eq_true_eq]
      omega
    · intro n hn
      have := mem_range'_1.1 hn
      simp only [decide_eq_true_eq]
      omega
  · rw [filter_eq_nil_iff.2]
    · simp only [length_nil]
      omega
    · intro n hn
      have := mem_range'_1.1 hn
      simp only [decide_eq_true_eq]
      omega

end SlotLog

/-! ## The machine -/

/-- `Keys("*")`: the entries that have not expired, under the names that the ring keeps, and the live
objects. -/
def listedKeys (s : Store Cache) (now : Int) : List Bytes :=
  let entries := s.shards.keys.filter fun key => (s.shards.lookup key).any (Slot.listed now)
  let objects := s.objects.keys.filter fun key => (s.live now key).obj.isSome
  (entries.image storedValue ∪ objects).sort (· ≤ ·)

/-- How far `FullSyncSlot` is: the call that comes next, and what it is made with. `reached` is the
source as it was when the log was read, that is, after the last operation that is replayed. -/
inductive SyncPhase where
  | listTarget
  | clear (keys : List Bytes)
  | count
  | list (count : ℕ)
  | read (keys : List Bytes)
  | restore (key : Bytes) (type : ValueType) (payload : Bytes) (ttl : Int) (keys : List Bytes)
  | replay (ops : List LoggedOp) (reached : Store Cache)
  | done (reached : Store Cache)
  | failed

/-- Source and target, and the log of the source. -/
structure SyncState where
  now : Int
  source : Store Cache
  target : Store Cache
  log : SlotLog
  phase : SyncPhase := .listTarget

inductive SyncEvent where
  | wait (ns : ℕ)
  | write (w : LoggedWrite)
  | sync

/-- A synchronisation; `marshal` is `json.Marshal`. -/
structure FullSync where
  sourceConfig : LogicalConfig
  targetConfig : LogicalConfig
  keySlot : Bytes → UInt16
  slot : UInt16
  snapshotLSN : ℕ
  marshal : TypedValue → Option Bytes

namespace FullSync

variable (y : FullSync)

/-- `SerializeEntryValue`, taken apart into its first byte and the rest. -/
def serialize : Value → Option (ValueType × Bytes)
  | .string text => some (.string, text)
  | .object value => (y.marshal value).map (value.type, ·)

def copyTTL (now : Int) : Option Int → Int
  | none => 0
  | some expireAt => max 0 (timeUntil expireAt now)

/-- The next step of `FullSyncSlot`. -/
def advance (s : SyncState) : Go SyncState :=
  match s.phase with
  | .listTarget =>
    return { s with phase := .clear ((listedKeys s.target s.now).filter (y.keySlot · = y.slot)) }
  | .clear keys => do
    let (_, target) ← del y.targetConfig.engine keys s.target
    return { s with target, phase := .count }
  | .count => do
    let (keys, source) ← keysInSlot y.sourceConfig.engine y.slot 0 s.now s.source
    return { s with source, phase := .list (max 1024 keys.length) }
  | .list count => do
    let (keys, source) ← keysInSlot y.sourceConfig.engine y.slot count s.now s.source
    return { s with source, phase := .read keys }
  | .read [] => return { s with phase := .replay (s.log.listAfter y.snapshotLSN) s.source }
  | .read (key :: keys) => do
    let (entry, source) ← engineEntry y.sourceConfig.engine key s.now s.source
    match entry with
    | none => return { s with source, phase := .read keys }
    | some entry =>
      match y.serialize entry.value with
      | none => return { s with source, phase := .failed }
      | some (type, payload) =>
        return { s with source, phase := .restore key type payload (copyTTL s.now entry.expireAt) keys }
  | .restore key type payload ttl keys => do
    let (result, target) ← restoreEntry y.targetConfig.engine key type payload ttl s.now s.target
    match result with
    | .error _ => return { s with target, phase := .failed }
    | .ok () => return { s with target, phase := .read keys }
  | .replay [] reached => return { s with phase := .done reached }
  | .replay (op :: ops) reached => do
    let (result, target) ← op.apply y.targetConfig.engine s.now s.target
    match result with
    | .error _ => return { s with target, phase := .failed }
    | .ok () => return { s with target, phase := .replay ops reached }
  | .done _ | .failed => return s

def step (s : SyncState) : SyncEvent → Go SyncState
  | .wait ns => return { s with now := s.now + ns }
  | .write w => do
    let (result, source) ← w.run y.sourceConfig.engine s.now s.source
    match result with
    | .error _ => return { s with source }
    | .ok () => return { s with source, log := s.log.append (w.op s.now) }
  | .sync => y.advance s

def SameSlot (t : Int) (s s' : Store Cache) : Prop :=
  ∀ key, y.keySlot key = y.slot → (s.live t key).front = (s'.live t key).front

/-- **Convergence** of an interleaving: if `FullSyncSlot` returns without an error, the target has the
slot as the source had it after the last operation that was replayed. -/
def Converges (s : SyncState) (program : List SyncEvent) : Prop :=
  ∀ s' reached, Runs.run y.step s program = .ok s' → s'.phase = .done reached →
    y.SameSlot s'.now s'.target reached

/-- The state in which `snapshotLSN` is taken. -/
structure Start (s : SyncState) : Prop where
  phase : s.phase = .listTarget
  snapshot : s.log.last = y.snapshotLSN
  now_nonneg : 0 ≤ s.now

end FullSync

end Protocol

end AutoCache
