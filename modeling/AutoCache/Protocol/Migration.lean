import AutoCache.Cluster.Failover
import AutoCache.Cluster.Listed
import AutoCache.Protocol.Commands

/-!
# Moving a slot (`MigrateSlot` and `DrainSlots` of `internal/cluster/cluster.go`)

A slot is marked as leaving, its keys go to the target one by one, each sent with `RESTORE` and then
deleted here, and the slot is given to the target. An error on the way makes the slot stable again;
the keys that had gone by then are not fetched back.

What the network, the clock and other clients do on the way is an argument: for each key a `Visit`.

The target learns of its new slot from the message that `BroadcastSlotOwnership` sends. The entry for
the slot carries the epoch the slot had under its old owner, so nodes that have seen this epoch
refuse it.
-/

namespace AutoCache.Protocol

open Cluster

/-! ## One key -/

/-- What the steps of an exchange with the target yield: an error, or what was read. -/
structure Exchange where
  dial : Except String Unit := .ok ()
  writeAsking : Except String Unit := .ok ()
  readAsking : Except String String := .ok "+OK\r\n"
  writeRestore : Except String Unit := .ok ()
  readRestore : Except String String := .ok "+OK\r\n"

/-- The errors of `drainKey`. -/
inductive KeyError where
  /-- `get entry: key not found` -/
  | getEntry
  /-- `serialize: %w` -/
  | serialize
  /-- `connect: %w` -/
  | connect (err : String)
  /-- `write ASKING: %w` -/
  | writeAsking (err : String)
  /-- `read ASKING: %w` -/
  | readAsking (err : String)
  /-- `ASKING unexpected response: %s` -/
  | askingReply (resp : String)
  /-- `write RESTORE: %w` -/
  | writeRestore (err : String)
  /-- `read RESTORE: %w` -/
  | readRestore (err : String)
  /-- `RESTORE failed: %s` -/
  | restoreReply (resp : String)

/-- The two commands on one connection. -/
def Exchange.send (x : Exchange) : Except KeyError Unit := do
  x.dial.mapError .connect
  x.writeAsking.mapError .writeAsking
  let resp ← x.readAsking.mapError .readAsking
  if resp ≠ "+OK\r\n" then throw (.askingReply resp)
  x.writeRestore.mapError .writeRestore
  let resp ← x.readRestore.mapError .readRestore
  if resp ≠ "+OK\r\n" then throw (.restoreReply resp)

/-- What happens around the move of one key: what others do to the store before it, whether the
context is done, the time at which the key is read, the time at which its deadline is looked at, and
how the exchange goes. -/
structure Visit (σ : Type) where
  meanwhile : Store σ → Store σ := id
  cancelled : Bool := false
  now : Int := 0
  later : Int := 0
  exchange : Exchange := {}

variable {σ : Type} (cfg : NodeConfig σ)

/-- The part of `drainKey` between the read and the deletion: a key whose deadline has passed is not
sent, but goes all the same. -/
def Visit.settle (v : Visit σ) : Option (Value × Int) → Except KeyError Unit
  | none => .error .getEntry
  | some (value, expireAt) =>
    let ttlMs := if expireAt = 0 then 0 else (Store.timeUntil expireAt v.later).tdiv millisecond
    if ttlMs < 0 then .ok ()
    else if serializesValue cfg value then v.exchange.send
    else .error .serialize

def drainKey (v : Visit σ) (key : Bytes) : StoreM σ (Except KeyError Unit) := do
  let entry ← getEntry cfg v.now key
  match v.settle cfg entry with
  | .error err => return .error err
  | .ok () =>
    let _ ← Store.del cfg.engine [key]
    return .ok ()

/-! ## One slot -/

/-- The errors of `drainSlot`. -/
inductive DrainError where
  /-- `ctx.Err()` -/
  | cancelled
  /-- `key %s: %w` -/
  | key (key : Bytes) (err : KeyError)
  /-- `concurrent writes detected during slot drain: slot=%d, remaining=%d keys` -/
  | remaining (slot : UInt16) (count : ℕ)

/-- What happens around the move of a slot: the time at which its keys are listed, what happens to
them in turn, what others do to the store after that, and the time of the second look. -/
structure Drain (σ : Type) where
  start : Int := 0
  visits : ℕ → Visit σ := fun _ => {}
  meanwhile : Store σ → Store σ := id
  stop : Int := 0

def interlude (f : Store σ → Store σ) : StoreM σ Unit := fun s => return ((), f s)

/-- The loop of `drainSlot`; `n` keys have gone before. -/
def drainKeys (visits : ℕ → Visit σ) : ℕ → List Bytes → StoreM σ (Except DrainError Unit)
  | _, [] => return .ok ()
  | n, key :: keys => do
    interlude (visits n).meanwhile
    if (visits n).cancelled then return .error .cancelled
    else
      match ← drainKey cfg (visits n) key with
      | .error err => return .error (.key key err)
      | .ok () => drainKeys visits (n + 1) keys

def drainSlot (d : Drain σ) (slot : UInt16) : StoreM σ (Except DrainError Unit) := do
  let keys ← Store.keysInSlot cfg.engine slot 0 d.start
  if keys = [] then return .ok ()
  else
    match ← drainKeys cfg d.visits 0 keys with
    | .error err => return .error err
    | .ok () =>
      interlude d.meanwhile
      let remaining ← Store.keysInSlot cfg.engine slot 0 d.stop
      if remaining = [] then return .ok ()
      else return .error (.remaining slot remaining.length)

/-- A node: what it knows of the cluster, and its keys. -/
structure Member (σ : Type) where
  gossip : Gossip
  store : Store σ

/-- What `MigrateSlot` and `DrainSlots` do with a slot once its target is known. The result is the
message that went out. -/
def moveSlot (d : Drain σ) (slot : UInt16) (targetID : String) :
    StateT (Member σ) Go (Except DrainError (Option Message)) := fun n => do
  let slots ← n.gossip.slots.setExporting slot targetID
  let (result, store) ← drainSlot cfg d slot n.store
  match result with
  | .error err =>
    let slots ← slots.setStable slot
    return (.error err, { gossip := { n.gossip with slots }, store := store })
  | .ok () =>
    let (msg, gossip) ← { n.gossip with slots }.handOver cfg.view.selfID slot targetID
    return (.ok msg, { gossip := gossip, store := store })

/-- The errors of `MigrateSlot`. -/
inductive MigrateError where
  /-- `target node %s not found` -/
  | targetNotFound (nodeID : String)
  /-- `migrate keys for slot %d: %w` -/
  | drain (slot : UInt16) (err : DrainError)

/-- `MigrateSlot`. Every node that gossip knows has an address. -/
def migrateSlot (d : Drain σ) (slot : UInt16) (targetID : String) :
    StateT (Member σ) Go (Except MigrateError (Option Message)) := fun n =>
  if (n.gossip.nodes.lookup targetID).isNone then do
    let slots ← n.gossip.slots.setExporting slot targetID
    let slots ← slots.setStable slot
    return (.error (.targetNotFound targetID), { n with gossip := { n.gossip with slots } })
  else do
    let (result, n) ← moveSlot cfg d slot targetID n
    return (result.mapError (.drain slot), n)

/-! ## All slots -/

/-- The nodes that take slots at shutdown. `order` are the nodes in the order Go ranges over them,
`hasAddr` tells which of them have an address and a port. -/
def drainPeers (g : Gossip) (self : String) (order : List String) (hasAddr : String → Bool) :
    List String :=
  order.filter fun id =>
    let node := (g.nodes.lookup id).getD {}
    id ≠ self ∧ node.role = .master ∧ node.state = .connected ∧ hasAddr id

/-- The loop of `DrainSlots`: the slots go to the peers in turn, and one that fails is left. -/
def drainEach (peers : List String) (drains : ℕ → Drain σ) :
    ℕ → List UInt16 →
      StateT (Member σ) Go (List (UInt16 × Except DrainError (Option Message)))
  | _, [] => return []
  | i, slot :: slots => do
    let result ← moveSlot cfg (drains i) slot (peers.getD (i % peers.length) "")
    let results ← drainEach peers drains (i + 1) slots
    return (slot, result) :: results

/-- `DrainSlots` of a node with an engine. -/
def drainSlots (order : List String) (hasAddr : String → Bool) (drains : ℕ → Drain σ) :
    StateT (Member σ) Go (List (UInt16 × Except DrainError (Option Message))) := fun n =>
  let mySlots := n.gossip.slots.listedSlots cfg.view.selfID
  let peers := drainPeers n.gossip cfg.view.selfID order hasAddr
  if mySlots = [] ∨ peers = [] then return ([], n) else drainEach cfg peers drains 0 mySlots n

variable {cfg} {d : Drain σ} {slot : UInt16} {targetID : String} {n n' : Member σ}

/-- **What a move can end with.** -/
lemma moveSlot_cases {result : Except DrainError (Option Message)} (h : moveSlot cfg d slot targetID n = .ok (result, n')) :
    ∃ slots, n.gossip.slots.setExporting slot targetID = .ok slots ∧
      ((∃ err stable, result = .error err ∧ drainSlot cfg d slot n.store = .ok (.error err, n'.store) ∧
          slots.setStable slot = .ok stable ∧ n'.gossip = { n.gossip with slots := stable }) ∨
        ∃ msg, result = .ok msg ∧ drainSlot cfg d slot n.store = .ok (.ok (), n'.store) ∧
          { n.gossip with slots }.handOver cfg.view.selfID slot targetID = .ok (msg, n'.gossip)) := by
  unfold moveSlot at h
  obtain ⟨slots, hsl, h⟩ := Go.bind_eq_ok.1 h
  obtain ⟨⟨outcome, store⟩, hdrain, h⟩ := Go.bind_eq_ok.1 h
  refine ⟨slots, hsl, ?_⟩
  cases outcome with
  | error err =>
    obtain ⟨stable, hstable, h⟩ := Go.bind_eq_ok.1 h
    cases h
    exact .inl ⟨err, stable, rfl, hdrain, hstable, rfl⟩
  | ok u =>
    obtain ⟨⟨msg, gossip⟩, hover, h⟩ := Go.bind_eq_ok.1 h
    cases h
    exact .inr ⟨msg, rfl, hdrain, hover⟩

end AutoCache.Protocol
