import AutoCache.Protocol.Commands
import AutoCache.Replication.Applier

/-!
# Replay on a replica (`internal/protocol/handler.go`)

A replica applies what it receives: `Begin` decides whether the operation is new, the engine call
that its type stands for runs, and `Commit` records it. What fails is not recorded; what the engine
call had done by then stays.
-/

namespace AutoCache.Protocol

open Replication List Store

/-- `bytes.Split(payload, []byte{0})`; an empty payload has no parts. -/
def decodeReplicationPayload (payload : Bytes) : List Bytes :=
  if payload = [] then [] else payload.splitOn 0

/-- The errors of `applyIncomingReplicationOp`. -/
inductive ReplayError where
  | stale (err : StaleEpoch)
  | invalidPayload (command : String)
  | invalidExpire
  | unsupported (opType : Bytes)
  | store (err : StoreError)

def ReplayError.text : ReplayError → String
  | .stale err =>
    "stale replication epoch: got " ++ toString err.got.toNat ++ " want >= " ++
      toString err.want.toNat
  | .invalidPayload command => "invalid " ++ command ++ " payload"
  | .invalidExpire => "invalid expire timestamp"
  | .unsupported opType => "unsupported replication op type: " ++ Protocol.text opType
  | .store err => errorText err

variable {σ : Type}

/-- An engine call whose error is the error of the replay. -/
def replayCall {α : Type} (x : StoreM σ (Except StoreError α)) :
    StoreM σ (Except ReplayError Unit) := do
  match ← x with
  | .error err => return .error (.store err)
  | .ok _ => return .ok ()

/-- An engine call that has no error. -/
def replaySure {α : Type} (x : StoreM σ α) : StoreM σ (Except ReplayError Unit) := do
  let _ ← x
  return .ok ()

/-- The time to live a replayed `SET` gives its key: none, once the deadline has passed. -/
def replayTTL (expireAtNs now : Int) : Int :=
  if expireAtNs > 0 then max 0 (timeUntil expireAtNs now) else 0

/-- The engine call an operation stands for. -/
def replay (E : Engine σ) (now : Int) (op : Op) : StoreM σ (Except ReplayError Unit) :=
  let payload := decodeReplicationPayload op.payload
  match op.opType with
  | .set =>
    match payload with
    | [] => return .error (.invalidPayload "SET")
    | value :: rest =>
      replayCall (set E op.key (rest.headD value) (replayTTL op.expireAtNs now) now)
  | .mset =>
    if payload.length = 0 ∨ payload.length % 2 ≠ 0 then return .error (.invalidPayload "MSET")
    else replayCall (mset E payload now)
  | .hset =>
    if payload.length < 3 ∨ payload.length % 2 = 0 then return .error (.invalidPayload "HSET")
    else replayCall (hset E op.key payload.tail now)
  | .del =>
    if payload.length = 0 then return .error (.invalidPayload "DEL")
    else replaySure (del E payload)
  | .rename =>
    match payload with
    | [key, newkey] => replayCall (rename E key newkey now)
    | _ => return .error (.invalidPayload "RENAME")
  | .expire | .pexpire | .expireAt =>
    if op.expireAtNs ≤ 0 then return .error .invalidExpire
    else replaySure (expireAt E op.key op.expireAtNs now)
  | .persist => replaySure (persist E op.key now)
  | .other text => return .error (.unsupported text)

structure Replica (σ : Type) where
  store : Store σ
  applier : ReplicaApplier

def applyIncomingReplicationOp (E : Engine σ) (now : Int) (op : Op) :
    StateT (Replica σ) Go (Except ReplayError Unit) := fun r =>
  match r.applier.begin op with
  | .error err => return (.error (.stale err), r)
  | .ok true => return (.ok (), r)
  | .ok false => do
    match ← replay E now op r.store with
    | (.error err, store) => return (.error err, { r with store })
    | (.ok (), store) => return (.ok (), { store := store, applier := r.applier.commit op })

/-- **What a delivery can do.** It is refused or skipped by `Begin`, or its replay decides. -/
lemma applyIncomingReplicationOp_cases {E : Engine σ} {now : Int} {op : Op} {r r' : Replica σ}
    {result : Except ReplayError Unit}
    (h : applyIncomingReplicationOp E now op r = .ok (result, r')) :
    (∃ err, r.applier.begin op = .error err ∧ result = .error (.stale err) ∧ r' = r) ∨
      (r.applier.begin op = .ok true ∧ result = .ok () ∧ r' = r) ∨
      (r.applier.begin op = .ok false ∧ ∃ store, replay E now op r.store = .ok (result, store) ∧
        ((result = .ok () ∧ r' = ⟨store, r.applier.commit op⟩) ∨ ∃ err, result = .error err ∧ r' = ⟨store, r.applier⟩)) := by
  unfold applyIncomingReplicationOp at h
  split at h
  · next err hbegin =>
    cases h
    exact .inl ⟨err, hbegin, rfl, rfl⟩
  · next hbegin =>
    cases h
    exact .inr (.inl ⟨hbegin, rfl, rfl⟩)
  · next hbegin =>
    refine .inr (.inr ⟨hbegin, ?_⟩)
    obtain ⟨⟨outcome, store⟩, hreplay, h⟩ := Go.bind_eq_ok.1 h
    cases outcome with
    | error err =>
      cases h
      exact ⟨store, hreplay, .inr ⟨err, rfl, rfl⟩⟩
    | ok u =>
      cases h
      exact ⟨store, hreplay, .inl ⟨rfl, rfl⟩⟩

/-! ## Arguments in a payload -/

/-- The engine call that the arguments of a client's command stand for. -/
def commandCall (E : Engine σ) (now : Int) (op : Op) (args : List Bytes) :
    Option (StoreM σ (Except ReplayError Unit)) :=
  match op.opType, args with
  | .set, _ :: value :: _ =>
    some (replayCall (set E op.key value (replayTTL op.expireAtNs now) now))
  | .mset, _ :: _ => if args.length % 2 = 0 then some (replayCall (mset E args now)) else none
  | .hset, _ :: pairs =>
    if 2 ≤ pairs.length ∧ pairs.length % 2 = 0 then some (replayCall (hset E op.key pairs now))
    else none
  | .del, _ :: _ => some (replaySure (del E args))
  | .rename, [key, newkey] => some (replayCall (rename E key newkey now))
  | _, _ => none

/-- The arguments come back from their payload, and the replica applies the command with them. -/
def Carries (args : List Bytes) : Prop :=
  decodeReplicationPayload (encodeReplicationPayload args) = args ∧
    ∀ (σ : Type) (E : Engine σ) (now : Int) (op : Op) (call : StoreM σ (Except ReplayError Unit)),
      commandCall E now op args = some call →
        replay E now { op with payload := encodeReplicationPayload args } = call

lemma not_mem_of_mem_splitOn {payload part : Bytes} (h : part ∈ payload.splitOn 0) : 0 ∉ part := by
  induction payload generalizing part with
  | nil => simp_all
  | cons c payload ih =>
    rw [splitOn_cons_eq_if_modifyHead] at h
    obtain ⟨first, parts, hparts⟩ := exists_cons_of_ne_nil (splitOn_ne_nil (0 : UInt8) payload)
    rw [hparts] at h ih
    split at h
    · cases h with
      | head => exact not_mem_nil
      | tail _ h => exact ih h
    · next hc =>
      cases h with
      | head =>
        intro hmem
        cases hmem with
        | head => exact hc rfl
        | tail _ hmem => exact ih mem_cons_self hmem
      | tail _ h => exact ih (mem_cons_of_mem _ h)

lemma encodeReplicationPayload_eq_nil {args : List Bytes} : encodeReplicationPayload args = [] ↔ args = [] ∨ args = [[]] := by
  unfold encodeReplicationPayload
  match args with
  | [] => simp
  | [arg] => simp
  | arg :: arg' :: args => simp [intercalate]

/-- **The round trip of the arguments.** -/
lemma decode_encode_iff (args : List Bytes) : decodeReplicationPayload (encodeReplicationPayload args) = args ↔
      args = [] ∨ args ≠ [[]] ∧ ∀ arg ∈ args, 0 ∉ arg := by
  unfold decodeReplicationPayload
  constructor
  · intro h
    split at h
    · exact .inl h.symm
    · next hne =>
      refine .inr ⟨fun heq => hne (encodeReplicationPayload_eq_nil.2 (.inr heq)), fun arg harg => ?_⟩
      rw [← h] at harg
      exact not_mem_of_mem_splitOn harg
  · rintro (rfl | ⟨hne, hargs⟩)
    · rfl
    split
    · next heq =>
      rcases encodeReplicationPayload_eq_nil.1 heq with h | h
      · exact h.symm
      · exact absurd h hne
    · next hnil =>
      exact splitOn_intercalate 0 hargs fun h =>
        hnil (encodeReplicationPayload_eq_nil.2 (.inl h))

lemma replay_of_commandCall {E : Engine σ} {now : Int} {op : Op} {args : List Bytes}
    {call : StoreM σ (Except ReplayError Unit)} (hargs : decodeReplicationPayload op.payload = args)
    (h : commandCall E now op args = some call) : replay E now op = call := by
  subst hargs
  unfold replay
  unfold commandCall at h
  split at h
  · next hset hargs =>
    cases h
    simp only [hset, hargs, headD_cons]
  · next hmset hargs =>
    split at h
    · cases h
      simp only [hmset, hargs] at *
      rw [if_neg (by simp_all)]
    · cases h
  · next key pairs hhset hargs =>
    split at h
    · next hpairs =>
      cases h
      simp only [hhset, hargs, length_cons, tail_cons]
      rw [if_neg (by omega)]
    · cases h
  · next hdel hargs =>
    cases h
    simp only [hdel, hargs]
    rw [if_neg (by simp)]
  · next hrename hargs =>
    cases h
    simp only [hrename, hargs]
  · cases h

/-- **The payload carries the arguments** exactly if none of them has a zero byte and they are not a
single empty one. -/
theorem carries_iff (args : List Bytes) :
    Carries args ↔ args = [] ∨ args ≠ [[]] ∧ ∀ arg ∈ args, 0 ∉ arg := by
  rw [← decode_encode_iff]
  exact ⟨fun h => h.1, fun h => ⟨h, fun _ _ _ _ _ hcall => replay_of_commandCall h hcall⟩⟩

/-- `SET k a\0b` arrives as `SET k a`. -/
theorem value_is_cut : decodeReplicationPayload (encodeReplicationPayload [[107], [97, 0, 98]]) =
    [[107], [97], [98]] ∧ ¬Carries [[107], [97, 0, 98]] := by
  refine ⟨by decide, fun h => ?_⟩
  exact absurd h.1 (by decide)

end AutoCache.Protocol
