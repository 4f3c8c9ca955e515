import AutoCache.Cluster.Slots

/-!
# Routing (`internal/cluster/router/router.go`, `CanAcceptWrite` of `internal/cluster/cluster.go`)

A request on a key is served here, sent elsewhere, or refused when its keys lie in several slots.
Whether a write is admitted is a second, independent look at the same slot table.
-/

namespace AutoCache.Cluster

/-- What a node knows besides the slot table: its own name, the addresses gossip has learnt, and
the slot of a key. -/
structure View where
  selfID : String
  nodeAddr : String → Option String
  keySlot : Bytes → UInt16
  keySlot_lt : ∀ key, keySlot key < slotCount

lemma slotCount_pos (_ : Bytes) : 0 < slotCount := by decide

inductive Redirect where
  | moved (slot : UInt16) (addr : String)
  | ask (slot : UInt16) (addr : String)
  deriving DecidableEq, Repr

inductive RouteResult where
  | here
  | redirect (r : Redirect)
  | crossSlot
  deriving DecidableEq, Repr

namespace View

variable (v : View) (sm : SlotManager)

/-- `Route` for a slot. A foreign slot whose owner gossip does not know is served here. -/
def routeSlot (slot : UInt16) (askingFlag : Bool) : RouteResult :=
  let info := sm.slots slot
  if info.nodeID = "" then .here
  else if info.nodeID = v.selfID then
    if info.state = .exporting ∧ info.exporting ≠ "" then
      .redirect (.ask slot ((v.nodeAddr info.exporting).getD ""))
    else .here
  else if info.state = .importing ∧ info.importing ≠ "" ∧ askingFlag then .here
  else
    match v.nodeAddr info.nodeID with
    | none => .here
    | some addr => .redirect (.moved slot addr)

def route (key : Bytes) (askingFlag : Bool) : RouteResult :=
  v.routeSlot sm (v.keySlot key) askingFlag

/-- The flag of the connection does not reach a request on several keys. -/
def routeMulti : List Bytes → RouteResult
  | [] => .here
  | key :: keys =>
    if keys.all fun k => v.keySlot k = v.keySlot key then v.route sm key false else .crossSlot

def canAcceptWrite (key : Bytes) : Bool :=
  let info := sm.slots (v.keySlot key)
  let primaryID := if info.primaryID = "" then info.nodeID else info.primaryID
  primaryID = "" || primaryID = v.selfID

variable {v sm} {key : Bytes}

lemma routeSlot_moved {slot : UInt16} {nodeID addr : String} (hnode : (sm.slots slot).nodeID = nodeID)
    (hempty : nodeID ≠ "") (hself : nodeID ≠ v.selfID) (haddr : v.nodeAddr nodeID = some addr) :
    v.routeSlot sm slot false = .redirect (.moved slot addr) := by
  simp [routeSlot, hnode, hempty, hself, haddr]

end View

end AutoCache.Cluster
