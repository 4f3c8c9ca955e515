import AutoCache.Protocol.Dispatch
import AutoCache.Protocol.HandOver

/-!
# A client during a migration (`internal/protocol/{handler,connstate}.go`)

While a slot moves, its owner answers every request for it with `ASK`, whether or not it still holds
the key, and the target serves only connections that have sent `ASKING`. The flag of `ASKING` is
cleared at the end of every command, that of `ASKING` itself included, so the target never sees it:
it sends the client back to the owner.
-/

namespace AutoCache.Protocol

open Cluster Replication Function

variable {σ : Type}

/-! ## Connections -/

/-- A server and the flag of one connection to it. -/
structure Connection (σ : Type) where
  server : Server σ
  askingFlag : Bool := false

/-- The commands that reach the end of `ExecuteBytes`, which clears the flag. -/
def clearsAskingFlag (cfg : NodeConfig σ) (now : Int) (s : Server σ) (cmdBytes : Bytes) : Bool :=
  if s.manager.isNone ∧ (fastPath cfg now cmdBytes).isSome then false
  else if toUpper cmdBytes = ascii "CLUSTER" then false
  else (Command.ofName (toUpper cmdBytes)).isSome || (cfg.other (toUpper cmdBytes)).isSome

def cmdAsking : StateT (Connection σ) Go Reply := fun c => return (.ok, { c with askingFlag := true })

def clearAskingFlag : StateT (Connection σ) Go Unit := fun c =>
  return ((), { c with askingFlag := false })

/-- `ExecuteBytes` on a connection. -/
def execute (cfg : NodeConfig σ) (now : Int) (cmdBytes : Bytes) (args : List Bytes) :
    StateT (Connection σ) Go Reply :=
  if toUpper cmdBytes = ascii "ASKING" then do
    let reply ← cmdAsking
    clearAskingFlag
    return reply
  else fun c => do
    let (reply, server) ← executeBytes cfg now cmdBytes args c.askingFlag c.server
    if clearsAskingFlag cfg now c.server cmdBytes then return (reply, ⟨server, false⟩)
    else return (reply, ⟨server, c.askingFlag⟩)

/-! ## The client -/

inductive Side where
  | source
  | target
  deriving DecidableEq, Repr

/-- Where a reply sends the client, and whether it has to ask there. -/
def follow (addr : Side → String) (slot : UInt16) : Reply → Option (Side × Bool)
  | .error text =>
    if text = "MOVED " ++ toString slot.toNat ++ " " ++ addr .source then some (.source, false)
    else if text = "MOVED " ++ toString slot.toNat ++ " " ++ addr .target then some (.target, false)
    else if text = "ASK " ++ toString slot.toNat ++ " " ++ addr .target then some (.target, true)
    else if text = "ASK " ++ toString slot.toNat ++ " " ++ addr .source then some (.source, true)
    else none
  | _ => none

/-- `GET` on a new connection, after `ASKING` where that is due. -/
def requestGet (cfg : NodeConfig σ) (now : Int) (key : Bytes) (asking : Bool) :
    StateT (Connection σ) Go Reply := do
  if asking then
    let _ ← execute cfg now (ascii "ASKING") []
  execute cfg now (ascii "GET") [key]

/-- A client that obeys the replies, for at most `n` requests; `none` when the last one still sent it
elsewhere. -/
def clientGet (cfg : Side → NodeConfig σ) (addr : Side → String) (slot : UInt16) (now : Int)
    (key : Bytes) : ℕ → Side → Bool → StateT (Side → Server σ) Go (Option Reply)
  | 0, _, _ => return none
  | n + 1, side, asking => fun servers => do
    let (reply, c) ← requestGet (cfg side) now key asking ⟨servers side, false⟩
    let servers := update servers side c.server
    match follow addr slot reply with
    | some (side, asking) => clientGet cfg addr slot now key n side asking servers
    | none => return (some reply, servers)

/-! ## Between the two nodes -/

/-- The slot is on its way: the source owns it and exports it, the target imports it, and each knows
the address of the other. -/
structure Moving (cfg : Side → NodeConfig σ) (addr : Side → String) (slot : UInt16)
    (tables : Side → SlotManager) : Prop where
  source_ne : (cfg .source).view.selfID ≠ ""
  target_ne : (cfg .target).view.selfID ≠ ""
  differ : (cfg .source).view.selfID ≠ (cfg .target).view.selfID
  owner : ∀ side, ((tables side).slots slot).nodeID = (cfg .source).view.selfID
  exporting : ((tables .source).slots slot).state = .exporting ∧
    ((tables .source).slots slot).exporting = (cfg .target).view.selfID
  importing : ((tables .target).slots slot).state = .importing ∧
    ((tables .target).slots slot).importing = (cfg .source).view.selfID
  source_knows : (cfg .source).view.nodeAddr (cfg .target).view.selfID = some (addr .target)
  target_knows : (cfg .target).view.nodeAddr (cfg .source).view.selfID = some (addr .source)

variable {cfg : Side → NodeConfig σ} {addr : Side → String} {slot : UInt16}
  {tables : Side → SlotManager} {now : Int} {key : Bytes} {servers : Side → Server σ}

def sentAway (addr : Side → String) (slot : UInt16) : Side → Redirect
  | .source => .ask slot (addr .target)
  | .target => .moved slot (addr .source)

lemma Moving.routeSlot (h : Moving cfg addr slot tables) (side : Side) :
    (cfg side).view.routeSlot (tables side) slot false = .redirect (sentAway addr slot side) := by
  cases side with
  | source =>
    simp [View.routeSlot, sentAway, h.owner .source, h.source_ne, h.exporting.1, h.exporting.2, h.target_ne, h.source_knows]
  | target => exact View.routeSlot_moved (h.owner .target) h.source_ne h.differ h.target_knows

/-- A `GET` that the router sends elsewhere changes nothing. -/
lemma execute_get_of_redirect (now : Int) {cfg : NodeConfig σ} {m : Manager} {r : Redirect} {c : Connection σ}
    (hm : c.server.manager = some m) (hrt : cfg.view.route m.slots key c.askingFlag = .redirect r) :
    ∃ askingFlag, execute cfg now (ascii "GET") [key] c = .ok (redirectReply r, ⟨c.server, askingFlag⟩) := by
  have hname : Command.ofName (toUpper (ascii "GET")) = some .get := by decide
  have hrefusal : refusal cfg m .get [key] c.askingFlag = some (redirectReply r) := by
    have hkeys : Command.routedKeys .get [key] = [key] := rfl
    simp only [refusal, hkeys, routeKeys, hrt]
  have hexec : executeBytes cfg now (ascii "GET") [key] c.askingFlag c.server = .ok (redirectReply r, c.server) := by
    simp only [executeBytes, hm, Option.isNone_some, Bool.false_eq_true, if_false, hname, dispatch, hrefusal]
    rfl
  have hne : toUpper (ascii "GET") ≠ ascii "ASKING" := by decide
  unfold execute
  rw [if_neg hne]
  simp only [hexec, Go.ok_bind]
  split
  · exact ⟨_, rfl⟩
  · exact ⟨_, rfl⟩

/-- **One request.** Asked or not, the owner says `ASK` and the target says `MOVED`. -/
lemma requestGet_of_moving (h : Moving cfg addr slot tables) {side : Side} {m : Manager}
    (hm : (servers side).manager = some m) (htable : m.slots = tables side)
    (hslot : (cfg side).view.keySlot key = slot) (now : Int) (asking : Bool) :
    ∃ flag, requestGet (cfg side) now key asking ⟨servers side, false⟩ =
      .ok (redirectReply (sentAway addr slot side), ⟨servers side, flag⟩) := by
  have hrt : (cfg side).view.route m.slots key false = .redirect (sentAway addr slot side) := by
    rw [View.route, hslot, htable, h.routeSlot side]
  obtain ⟨flag, hget⟩ := execute_get_of_redirect now (c := ⟨servers side, false⟩) hm hrt
  refine ⟨flag, ?_⟩
  cases asking with
  | false => exact hget
  | true => exact hget

lemma follow_sentAway (side : Side) : follow addr slot (redirectReply (sentAway addr slot side)) = match side with
    | .source => some (.target, true)
    | .target => some (.source, false) := by
  have hne : ∀ x y : String, "ASK " ++ x ≠ "MOVED " ++ y := by
    intro x y heq
    have := congrArg (fun s => s.toList.head?) heq
    simp at this
  cases side with
  | source =>
    simp only [sentAway, redirectReply, follow, String.append_assoc]
    rw [if_neg (hne _ _), if_neg (hne _ _), if_pos trivial]
  | target => simp [sentAway, redirectReply, follow]

/-- **No number of requests is enough.** -/
lemma clientGet_of_moving (h : Moving cfg addr slot tables)
    (hservers : ∀ side, ∃ m, (servers side).manager = some m ∧ m.slots = tables side)
    (hslot : ∀ side, (cfg side).view.keySlot key = slot) (n : ℕ) (side : Side) (asking : Bool) :
    clientGet cfg addr slot now key n side asking servers = .ok (none, servers) := by
  induction n generalizing side asking with
  | zero => rfl
  | succ n ih =>
    obtain ⟨m, hm, htable⟩ := hservers side
    obtain ⟨flag, hrequest⟩ := requestGet_of_moving h hm htable (hslot side) now asking
    rw [clientGet]
    dsimp only
    rw [hrequest, Go.ok_bind]
    rw [update_eq_self, follow_sentAway]
    cases side with
    | source => exact ih .target true
    | target => exact ih .source false

def valueReply : Value → Reply
  | .string text => .bulk text
  | .object _ => .wrongType

/-- Every key of the slot that is live on one of the nodes is answered with its value, after at most
three requests. -/
def Reachable (cfg : Side → NodeConfig Cache) (addr : Side → String) (slot : UInt16) (now : Int)
    (servers : Side → Server Cache) : Prop :=
  ∀ key, (∀ side, (cfg side).view.keySlot key = slot) →
    ∀ v, (∃ side, (servers side).store.shows now key = some v) →
      ∀ side, ∃ servers', clientGet cfg addr slot now key 3 side false servers =
        .ok (some (valueReply v), servers')

/-- **Keys of a slot on its way are out of reach.** While the slot is exported and imported, clients
reach its live keys exactly if there are none. -/
theorem reachable_iff_no_keys (cfg : Side → NodeConfig Cache) (addr : Side → String) (slot : UInt16)
    (tables : Side → SlotManager) (h : Moving cfg addr slot tables) (servers : Side → Server Cache)
    (hservers : ∀ side, ∃ m, (servers side).manager = some m ∧ m.slots = tables side) (now : Int) :
    Reachable cfg addr slot now servers ↔
      ∀ key, (∀ side, (cfg side).view.keySlot key = slot) →
        ∀ side, (servers side).store.shows now key = none := by
  constructor
  · intro hreach key hslot side
    cases hshows : (servers side).store.shows now key with
    | none => rfl
    | some v =>
      obtain ⟨servers', hget⟩ := hreach key hslot v ⟨side, hshows⟩ side
      rw [clientGet_of_moving h hservers hslot] at hget
      cases hget
  · rintro hnone key hslot v ⟨side, hshows⟩
    rw [hnone key hslot side] at hshows
    cases hshows

/-- The tables of `s` and `t` while slot 0 moves. -/
def movingTable (side : Side) : SlotManager :=
  { slots := update (fun _ => {}) 0
      (match side with
        | .source => { nodeID := "s", primaryID := "s", state := .exporting, exporting := "t" }
        | .target => { nodeID := "s", primaryID := "s", state := .importing, importing := "s" })
    nodeSlots := (∅ : GoMap String (List UInt16)).insert "s" [0] }

def pairName : Side → String
  | .source => "s"
  | .target => "t"

lemma movingTable_moving : Moving (fun side => pairNode (pairName side)) pairName 0 movingTable where
  source_ne := by decide
  target_ne := by decide
  differ := by decide
  owner side := by cases side <;> rfl
  exporting := ⟨rfl, rfl⟩
  importing := ⟨rfl, rfl⟩
  source_knows := rfl
  target_knows := rfl

def movingManager (side : Side) : Manager := { slots := movingTable side, logs := .new 1 (by decide) }

/-- The key `a` is still on the source. -/
def movingServer (side : Side) : Server Cache :=
  { store := match side with
      | .source => { shards := (∅ : Cache).insert [97] (counterSlot 1), slotIndex := ∅, objects := ∅ }
      | .target => ⟨∅, ∅, ∅⟩
    manager := some (movingManager side) }

lemma movingServer_tables (side : Side) :
    ∃ m, (movingServer side).manager = some m ∧ m.slots = movingTable side := ⟨_, rfl, rfl⟩

theorem not_reachable_pair :
    ¬ Reachable (fun side => pairNode (pairName side)) pairName 0 0 movingServer := by
  rw [reachable_iff_no_keys _ _ _ _ movingTable_moving _ movingServer_tables]
  intro hnone
  have hshows := hnone [97] (fun _ => rfl) .source
  cases hshows

/-- The key is live on the source, and the client goes back and forth for ever. -/
theorem redirected_for_ever :
    (movingServer .source).store.shows 0 [97] = some (.string [49]) ∧
      ∀ n side, clientGet (fun side => pairNode (pairName side)) pairName 0 0 [97] n side false
        movingServer = .ok (none, movingServer) :=
  ⟨rfl, fun n side =>
    clientGet_of_moving movingTable_moving movingServer_tables (fun _ => rfl) n side false⟩

end AutoCache.Protocol
