import AutoCache.Cluster.Failover
import AutoCache.Cluster.Listed
import AutoCache.Lib.Runs

/-!
# A cluster of gossiping nodes

The nodes send pings and pongs with what they know, count up their epochs, and hold others for
failed. A message that was sent can arrive anywhere but at its sender, at any later time, any number
of times or never.

What nodes believe about owners spreads by messages only: an owner that some node names has been
named before by a node or by a message, or has made itself one.
-/

namespace AutoCache.Cluster

open Gossip Function

def gossipCount : ℕ := 3

/-- Every node by its name, and the messages that were sent. -/
structure Network where
  nodes : String → Gossip
  sent : List Message

namespace Network

def act (net : Network) (id : String) (g : Gossip) (msgs : List Message) : Network :=
  { nodes := update net.nodes id g, sent := net.sent ++ msgs }

inductive GossipAct where
  /-- A ping or pong of the node, with `chosen` as the order of the shuffled nodes. -/
  | ping (id : String) (chosen : List String)
  | deliver (id : String) (msg : Message)
  | incrementEpoch (id : String)
  /-- The node changes its mind about the state of another. -/
  | mark (id other : String) (state : NodeState)

/-- The nodes `randomGossipNodes` picks from a shuffled list. -/
def randomGossipNodes (g : Gossip) (id : String) (chosen : List String) : List String :=
  (chosen.filter fun other => other ≠ id ∧ other ∈ g.nodes).take gossipCount

def setState (g : Gossip) (other : String) (state : NodeState) : Gossip :=
  { g with nodes := g.nodes.insert other { (g.nodes.lookup other).getD {} with state } }

def gossipStep (net : Network) : GossipAct → Network
  | .ping id chosen =>
    let g := net.nodes id
    net.act id g [g.ping id (randomGossipNodes g id chosen)]
  | .deliver id msg =>
    if msg ∈ net.sent ∧ msg.sender ≠ id then net.act id ((net.nodes id).handleMessage msg) []
    else net
  | .incrementEpoch id => net.act id (net.nodes id).incrementEpoch []
  | .mark id other state => net.act id (setState (net.nodes id) other state) []

variable {net : Network} {id : String} {g : Gossip} {msgs : List Message} {s : UInt16}

lemma act_nodes (n : String) : (net.act id g msgs).nodes n = if n = id then g else net.nodes n := by
  simp [act, update_apply]

/-! ## Names of owners -/

/-- A message names as owners only those that `C` allows, or nobody. -/
def Names (C : UInt16 → String → Prop) (msg : Message) : Prop :=
  ∀ info ∈ msg.entries, ∀ s ∈ info.slots, info.id = "" ∨ C s info.id

/-- So does a node. -/
def Views (C : UInt16 → String → Prop) (g : Gossip) : Prop :=
  g.slots.WellListed ∧ ∀ s, s < slotCount → (g.slots.slots s).nodeID = "" ∨ C s (g.slots.slots s).nodeID

/-- So do all nodes, and all messages that were sent. -/
structure Spread (C : UInt16 → String → Prop) (net : Network) : Prop where
  views : ∀ n, Views C (net.nodes n)
  sent : ∀ msg ∈ net.sent, Names C msg

variable {C C' : UInt16 → String → Prop}

lemma Names.mono (h : ∀ s x, C s x → C' s x) {msg : Message} (hmsg : Names C msg) : Names C' msg :=
  fun info hinfo s hs => (hmsg info hinfo s hs).imp_right (h s _)

lemma Views.mono (h : ∀ s x, C s x → C' s x) (hg : Views C g) : Views C' g :=
  ⟨hg.1, fun s hs => (hg.2 s hs).imp_right (h s _)⟩

lemma Views.listed (hg : Views C g) {owner : String} (hs : s ∈ g.slots.listedSlots owner) : owner = "" ∨ C s owner := by
  by_cases hempty : owner = ""
  · exact .inl hempty
  · obtain ⟨hlt, hnode⟩ := (hg.1.mem_iff owner hempty s).1 hs
    rw [← hnode]
    exact hg.2 s hlt

lemma Spread.act (h : Spread C net) (hmono : ∀ s x, C s x → C' s x) (hg : Views C' g)
    (hmsgs : ∀ msg ∈ msgs, Names C' msg) : Spread C' (net.act id g msgs) := by
  constructor
  · intro n
    rw [act_nodes]
    split
    · exact hg
    · exact (h.views n).mono hmono
  · intro msg hmsg
    rcases List.mem_append.1 hmsg with hmsg | hmsg
    · exact (h.sent msg hmsg).mono hmono
    · exact hmsgs msg hmsg

lemma names_ping (hg : Views C g) (id : String) (chosen : List String) : Names C (g.ping id chosen) := by
  intro info hinfo s hs
  rcases List.mem_cons.1 hinfo with rfl | hinfo
  · exact hg.listed (mem_selfNodeInfo_slots.1 hs).2
  · obtain ⟨other, -, rfl⟩ := List.mem_map.1 hinfo
    exact hg.listed (mem_gossipNodeInfo_slots.1 hs).2

lemma applySlot_slots (g : Gossip) (owner : String) (epoch : UInt64) (slot : UInt16) :
    (∀ s, ((g.applySlot owner epoch slot).slots.slots s).configEpoch = (g.slots.slots s).configEpoch) ∧
      (∀ s, ((g.applySlot owner epoch slot).slots.slots s).nodeID = (g.slots.slots s).nodeID ∨
        s = slot ∧ ((g.applySlot owner epoch slot).slots.slots s).nodeID = owner) := by
  unfold applySlot
  split
  · exact ⟨fun _ => rfl, fun _ => .inl rfl⟩
  split
  · split
    · exact ⟨fun _ => rfl, fun _ => .inl rfl⟩
    rename_i sm hsm
    obtain ⟨-, hsl⟩ := SlotManager.of_assignSlot_eq_ok _ _ hsm
    rw [recordSlotEpoch_slots]
    dsimp only
    rw [hsl]
    constructor
    · intro s
      by_cases hs : s = slot
      · rw [hs, update_self]
      · rw [update_of_ne hs]
    · intro s
      by_cases hs : s = slot
      · exact .inr ⟨hs, by rw [hs, update_self]⟩
      · exact .inl (by rw [update_of_ne hs])
  · rw [recordSlotEpoch_slots]
    exact ⟨fun _ => rfl, fun _ => .inl rfl⟩

/-- **A message does not touch configuration epochs.** -/
lemma configEpoch_handleMessage (g : Gossip) (msg : Message) (s : UInt16) :
    ((g.handleMessage msg).slots.slots s).configEpoch = (g.slots.slots s).configEpoch :=
  handleMessage_rule (P := fun g' => (g'.slots.slots s).configEpoch = (g.slots.slots s).configEpoch)
    (fun _ _ info direct hg => (registerReplica_slots _ info direct s).2.trans hg)
    (fun _ _ _ _ _ hg => ((applySlot_slots _ _ _ _).1 s).trans hg) rfl

/-- **A message spreads the names it carries.** -/
lemma views_handleMessage (hg : Views C g) {msg : Message} (hmsg : Names C msg) : Views C (g.handleMessage msg) := by
  refine ⟨wellListed_handleMessage msg hg.1, fun s hs => ?_⟩
  refine handleMessage_rule (P := fun g' => (g'.slots.slots s).nodeID = "" ∨ C s (g'.slots.slots s).nodeID) ?_ ?_ (hg.2 s hs)
  · intro g' nodes info direct h
    rw [(registerReplica_slots _ info direct s).1]
    exact h
  · intro g' info hinfo slot hslot h
    rcases (applySlot_slots g' info.id info.configEpoch slot).2 s with heq | ⟨rfl, heq⟩
    · rw [heq]
      exact h
    · rw [heq]
      exact hmsg info hinfo s hslot

/-- **Gossip brings up no new owners.** -/
lemma Spread.gossipStep (h : Spread C net) (a : GossipAct) : Spread C (net.gossipStep a) := by
  cases a with
  | ping id chosen =>
    refine h.act (fun _ _ hc => hc) (h.views id) fun msg hmsg => ?_
    rw [List.mem_singleton.1 hmsg]
    exact names_ping (h.views id) id _
  | deliver id msg =>
    unfold Network.gossipStep
    dsimp only
    split
    · next hsent =>
      refine h.act (fun _ _ hc => hc) (views_handleMessage (h.views id) (h.sent msg hsent.1)) ?_
      intro m hm
      cases hm
    · exact h
  | incrementEpoch id | mark id other state =>
    refine h.act (fun _ _ hc => hc) (h.views id) fun msg hmsg => ?_
    cases hmsg

lemma configEpoch_gossipStep (a : GossipAct) (n : String) (s : UInt16) :
    (((net.gossipStep a).nodes n).slots.slots s).configEpoch = ((net.nodes n).slots.slots s).configEpoch := by
  cases a with
  | ping id chosen =>
    simp only [gossipStep, act_nodes]
    split
    · next hn => rw [hn]
    · rfl
  | deliver id msg =>
    simp only [gossipStep]
    split
    · rw [act_nodes]
      split
      · next hn => rw [hn, configEpoch_handleMessage]
      · rfl
    · rfl
  | incrementEpoch id | mark id other state =>
    simp only [gossipStep, act_nodes]
    split
    · next hn =>
      rw [hn]
      rfl
    · rfl

end Network

end AutoCache.Cluster
