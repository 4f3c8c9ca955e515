import AutoCache.Lib.Hoare
import AutoCache.Protocol.Migration

/-!
# Who believes a hand-over

The message of a hand-over comes from the old owner. Its own entry no longer lists the slot; the
second entry gives the slot to the target, under the epoch the slot had. It is second-hand news, so
it counts only for nodes that take the target for a master and have not seen that epoch.
-/

namespace AutoCache.Cluster

namespace SlotManager

variable {sm sm' : SlotManager} {slot : UInt16} {nodeID : String}

lemma finishMigration_ok (h : sm.finishMigration slot nodeID = .ok sm') :
    slot < slotCount ∧ (sm'.slots slot).nodeID = nodeID ∧ (sm'.slots slot).configEpoch = (sm.slots slot).configEpoch := by
  unfold finishMigration at h
  split at h
  · cases h
  · next hslot =>
    cases h
    refine ⟨UInt16.not_le.1 hslot, ?_, ?_⟩ <;>
    simp only [modify_slots, setOwnerLocked_slots, Function.update_self]

lemma setExporting_ok (h : sm.setExporting slot nodeID = .ok sm') : slot < slotCount ∧
      sm' = sm.modify slot fun info => { info with state := .exporting, exporting := nodeID } := by
  unfold setExporting at h
  split at h
  · cases h
  · next hslot =>
    cases h
    exact ⟨UInt16.not_le.1 hslot, rfl⟩

lemma setStable_ok (h : sm.setStable slot = .ok sm') :
    slot < slotCount ∧ (sm'.slots slot).nodeID = (sm.slots slot).nodeID ∧ (sm'.slots slot).state = .normal := by
  unfold setStable at h
  split at h
  · cases h
  · next hslot =>
    cases h
    refine ⟨UInt16.not_le.1 hslot, ?_, ?_⟩ <;>
    simp only [modify_slots, Function.update_self]

end SlotManager

namespace Gossip

variable {g g' p : Gossip} {self targetID : String} {slot : UInt16} {msg : Message}

/-- The role a node takes another for; one it does not know would be a master. -/
def roleOf (g : Gossip) (id : String) : NodeRole := ((g.nodes.lookup id).getD {}).role

/-- A hand-over as its receivers see it. -/
structure HandsOver (msg : Message) (sourceID : String) (slot : UInt16) (targetID : String)
    (epoch : UInt64) : Prop where
  sender : msg.nodeInfo.id = sourceID
  given_up : slot ∉ msg.nodeInfo.slots
  entry : ∃ info, msg.gossipNodes = [info] ∧ info.id = targetID ∧ info.configEpoch = epoch ∧
    slot ∈ info.slots

/-- **The message of a hand-over.** -/
lemma handOver_message (hself : self ≠ "") (hne : targetID ≠ self) (hlisted : g.slots.WellListed)
    (h : g.handOver self slot targetID = .ok (some msg, g')) :
    slot < slotCount ∧ g'.slots.getSlotNode slot = targetID ∧ HandsOver msg self slot targetID (g.slotEpoch slot).1 := by
  obtain ⟨sm, hsm, h⟩ := Go.bind_eq_ok.1 h
  obtain ⟨hslot, hown, hcfg⟩ := SlotManager.finishMigration_ok hsm
  have hlisted' := hlisted.finishMigration hsm
  have hep : (({ g with slots := sm } : Gossip).slotEpoch slot).1 = (g.slotEpoch slot).1 := by
    rw [slotEpoch_fst, slotEpoch_fst, SlotManager.getSlotConfigEpoch_of_lt hslot,
      SlotManager.getSlotConfigEpoch_of_lt hslot, hcfg]
  have hsame := @slots_slotEpoch { g with slots := sm } slot
  unfold broadcastSlotOwnership at h
  split at h
  · cases h
  generalize ({ g with slots := sm } : Gossip).slotEpoch slot = q at h hep hsame
  obtain ⟨epoch, g₁⟩ := q
  dsimp only at h hep hsame
  split at h
  · cases h
    refine ⟨hslot, ?_, rfl, ?_, _, rfl, rfl, hep, ?_⟩
    · rw [hsame, SlotManager.getSlotNode_of_lt hslot, hown]
    · simp only [selfNodeInfo, mem_bitmap, hsame]
      rintro ⟨-, hmem⟩
      exact hne (hown.symm.trans ((hlisted'.mem_iff self hself slot).1 hmem).2)
    · simp only [ownerInfo, mem_bitmap]
      exact ⟨hslot, List.mem_cons_self⟩
  · cases h

/-- **What a receiver makes of it**: one claim, if it takes the target for a master. -/
lemma register_handsOver {epoch : UInt64} (hslot : slot < slotCount) (hne : targetID ≠ self)
    (h : HandsOver msg self slot targetID epoch) :
    (p.handleMessage msg).register slot =
      if p.roleOf targetID = .master then (p.register slot).claim ⟨targetID, epoch.toNat⟩
      else p.register slot := by
  obtain ⟨info, hinfos, hid, hep, hmem⟩ := h.entry
  have hlearn : (p.processNodeInfo msg.nodeInfo true).learn info false = (p.nodes.lookup targetID).getD {} := by
    unfold learn
    rw [hid, nodes_processNodeInfo, GoMap.lookup_insert_eq, h.sender, if_neg hne]
    rfl
  have hfirst : (p.processNodeInfo msg.nodeInfo true).register slot = p.register slot := by
    rw [register_processNodeInfo hslot, if_neg fun hc => h.given_up hc.2]
  unfold handleMessage
  rw [hinfos, List.foldl_cons, List.foldl_nil, register_processNodeInfo hslot, hlearn, hid, hep, hfirst]
  by_cases hrole : p.roleOf targetID = .master
  · rw [if_pos hrole, if_pos ⟨hrole, hmem⟩]
  · rw [if_neg hrole, if_neg fun hc => hrole hc.1]

end Gossip

end AutoCache.Cluster

namespace AutoCache.Protocol

open Cluster

variable {σ : Type} {cfg : NodeConfig σ} {d : Drain σ} {slot : UInt16} {targetID : String}
  {n n' : Member σ} {msg : Message}

open SlotManager

open Gossip

/-- **The message of a move that went through.** -/
lemma moveSlot_message (hself : cfg.view.selfID ≠ "") (hne : targetID ≠ cfg.view.selfID)
    (hlisted : n.gossip.slots.WellListed)
    (h : moveSlot cfg d slot targetID n = .ok (.ok (some msg), n')) :
    slot < slotCount ∧ n'.gossip.slots.getSlotNode slot = targetID ∧
      HandsOver msg cfg.view.selfID slot targetID (n.gossip.slotEpoch slot).1 := by
  obtain ⟨slots, hexport, hcases⟩ := moveSlot_cases h
  obtain ⟨hslot, rfl⟩ := setExporting_ok hexport
  rcases hcases with ⟨err, stable, hres, -⟩ | ⟨msg', hres, -, hover⟩
  · cases hres
  cases hres
  have hlisted' : (n.gossip.slots.modify slot fun info =>
      { info with state := .exporting, exporting := targetID }).WellListed :=
    hlisted.modify fun _ => rfl
  obtain ⟨-, hown, hmsg⟩ := handOver_message hself hne hlisted' hover
  refine ⟨hslot, hown, ?_⟩
  have hep : (({ n.gossip with slots := n.gossip.slots.modify slot fun info =>
      { info with state := .exporting, exporting := targetID } } : Gossip).slotEpoch slot).1 =
        (n.gossip.slotEpoch slot).1 := by
    rw [slotEpoch_fst, slotEpoch_fst, getSlotConfigEpoch_of_lt hslot,
      getSlotConfigEpoch_of_lt hslot, modify_slots, Function.update_self]
  exact hep ▸ hmsg

/-- **A slot changes hands.** The node moved the slot to `targetID` and all others, which had it as
the owner, have processed the message it sent. Then all have `targetID` as the owner exactly if each
of the others takes `targetID` for a master and has not seen the epoch of the slot. -/
theorem handOver_takes_effect_iff {σ : Type} (cfg : NodeConfig σ) (d : Drain σ) (n n' : Member σ)
    (slot : UInt16) (targetID : String) (msg : Message) (hself : cfg.view.selfID ≠ "")
    (hne : targetID ≠ cfg.view.selfID) (hlisted : n.gossip.slots.WellListed)
    (hmoved : moveSlot cfg d slot targetID n = .ok (.ok (some msg), n'))
    {ι : Type} (others : ι → Gossip)
    (hagree : ∀ i, (others i).slots.getSlotNode slot = cfg.view.selfID) :
    (n'.gossip.slots.getSlotNode slot = targetID ∧
      ∀ i, ((others i).handleMessage msg).slots.getSlotNode slot = targetID) ↔
    ∀ i, (others i).roleOf targetID = .master ∧
      ((others i).register slot).Accepts (n.gossip.slotEpoch slot).1.toNat := by
  obtain ⟨hslot, hown, hmsg⟩ := moveSlot_message hself hne hlisted hmoved
  rw [and_iff_right hown]
  refine forall_congr' fun i => ?_
  rw [← register_owner, register_handsOver hslot hne hmsg]
  by_cases hrole : (others i).roleOf targetID = .master
  · rw [if_pos hrole, Register.owner_claim_eq_iff, and_iff_right hrole]
    refine or_iff_left fun heq => hne ?_
    rw [← hagree i, ← register_owner, heq]
  · rw [if_neg hrole, register_owner, hagree i]
    exact iff_of_false hne.symm fun hc => hrole hc.1

/-! ## All slots of a node -/

/-- **What a move does to the slot table**, whether it goes through or fails. -/
lemma moveSlot_slots {result : Except DrainError (Option Message)} (h : moveSlot cfg d slot targetID n = .ok (result, n')) :
    ∃ info, n'.gossip.slots.slots = Function.update n.gossip.slots.slots slot info ∧ info.state = .normal ∧
      (info.nodeID = (n.gossip.slots.slots slot).nodeID ∨ info.nodeID = targetID) := by
  obtain ⟨table, hexport, hend⟩ := moveSlot_cases h
  obtain ⟨hslot, rfl⟩ := setExporting_ok hexport
  rcases hend with ⟨-, stable, -, -, hstable, hg⟩ | ⟨msg, -, -, hover⟩
  · rw [setStable, if_neg (UInt16.not_le.2 hslot)] at hstable
    cases hstable
    exact ⟨_, by rw [hg, modify_slots, modify_slots, Function.update_idem], rfl, .inl (by simp)⟩
  · obtain ⟨table, htable, hslots⟩ := finishMigration_of_lt _ _ hslot
    cases htable.symm.trans (slots_handOver hover)
    exact ⟨_, by rw [hslots, modify_slots, Function.update_idem], rfl, .inr rfl⟩

/-- What `DrainSlots` should leave of a slot table: a slot it went through is in its normal state, with its old owner
or one of the peers; the others are as they were. -/
def Drained (sm : SlotManager) (peers : List String) (slots : List UInt16) (sm' : SlotManager) : Prop :=
  ∀ s, if s ∈ slots then (sm'.slots s).state = .normal ∧ (sm'.slots s).nodeID ∈ (sm.slots s).nodeID :: peers
    else sm'.slots s = sm.slots s

lemma drainEach_drained {sm : SlotManager} {peers : List String} {drains : ℕ → Drain σ} (hpeers : 0 < peers.length)
    (todo slots : List UInt16) (i : ℕ) :
    Hoare.Triple (fun n => Drained sm peers slots n.gossip.slots) (drainEach cfg peers drains i todo)
      fun results n => results.map Prod.fst = todo ∧ Drained sm peers (slots ++ todo) n.gossip.slots := by
  induction todo generalizing i slots with
  | nil => exact .pure fun n h => ⟨rfl, by rwa [List.append_nil]⟩
  | cons slot todo ih =>
    have hmem : peers.getD (i % peers.length) "" ∈ peers := by
      rw [List.getD_eq_getElem _ _ (Nat.mod_lt i hpeers)]
      exact List.getElem_mem _
    refine .bind (Q := fun _ n => Drained sm peers (slots ++ [slot]) n.gossip.slots) (fun n _ n' h hrun s => ?_)
      fun result => .bind (ih _ (i + 1)) fun results => .pure fun n h => ?_
    · obtain ⟨info, hslots, hnormal, howner⟩ := moveSlot_slots hrun
      have hs := h s
      rw [hslots, Function.update_apply]
      grind
    · rw [List.append_cons]
      exact ⟨congrArg (slot :: ·) h.1, h.2⟩

/-- **`DrainSlots` leaves no slot half moved**, whatever happens to the keys, and touches no other slot. -/
theorem drainSlots_drained (cfg : NodeConfig σ) (order : List String) (hasAddr : String → Bool)
    (drains : ℕ → Drain σ) (n : Member σ) :
    Hoare.Triple (· = n) (drainSlots cfg order hasAddr drains) fun results n' => Drained n.gossip.slots
      (drainPeers n.gossip cfg.view.selfID order hasAddr) (results.map Prod.fst) n'.gossip.slots := by
  rintro n results n' rfl hrun
  have hstart peers : Drained n.gossip.slots peers [] n.gossip.slots := fun s => by simp
  unfold drainSlots at hrun
  dsimp only at hrun
  split at hrun
  · cases hrun
    exact hstart _
  · next hnone =>
    have hpeers := List.length_pos_of_ne_nil (not_or.1 hnone).2
    obtain ⟨hslots, h⟩ := drainEach_drained hpeers _ [] 0 n results n' (hstart _) hrun
    rw [hslots]
    exact h

/-! ## A slot without keys -/

lemma drainSlot_of_empty {s : Store σ} (h : s.slotIndex.lookup slot = none) : drainSlot cfg d slot s = .ok (.ok (), s) := by
  have hkeys : Store.keysInSlot cfg.engine slot 0 d.start s = .ok ([], s) := by
    unfold Store.keysInSlot
    rw [h, Option.getD_none, Finset.sort_empty]
    rfl
  change (Store.keysInSlot cfg.engine slot 0 d.start s >>= _) = _
  rw [hkeys]
  rfl

lemma moveSlot_of_empty (hslot : slot < slotCount) (hempty : n.store.slotIndex.lookup slot = none)
    (hkn : (n.gossip.nodes.lookup targetID).isSome)
    (hpeers : n.gossip.HasPeers cfg.view.selfID) :
    ∃ msg n', moveSlot cfg d slot targetID n = .ok (.ok (some msg), n') := by
  obtain ⟨slots, hexport⟩ : ∃ slots, n.gossip.slots.setExporting slot targetID = .ok slots :=
    ⟨_, if_neg (UInt16.not_le.2 hslot)⟩
  obtain ⟨msg, g', hover⟩ := handOver_of_known (g := { n.gossip with slots }) hslot hkn hpeers
  refine ⟨msg, ⟨g', n.store⟩, ?_⟩
  simp only [moveSlot, hexport, drainSlot_of_empty hempty, Go.ok_bind, hover]
  rfl

/-- A node of a cluster of two, `s` and `t`, that keeps all keys in one slot. -/
def pairNode (selfID : String) : NodeConfig Cache :=
  { plainNode with view := { plainNode.view with selfID := selfID, nodeAddr := some } }

/-- What one of the two knows when `s` owns slot 0: the other, and the epochs `seen` and `current`. -/
def pairGossip (other : String) (seen current : UInt64) : Gossip :=
  { nodes := (∅ : GoMap String GossipNode).insert other {}
    slots :=
      { slots := Function.update (fun _ => {}) 0 { nodeID := "s", primaryID := "s" }
        nodeSlots := (∅ : GoMap String (List UInt16)).insert "s" [0] }
    slotEpochs := fun _ => seen
    currentEpoch := current }

def pairSource : Member Cache := ⟨pairGossip "t" 0 1, ⟨∅, ∅, ∅⟩⟩

lemma pairSource_wellListed : pairSource.gossip.slots.WellListed :=
  wellListed_new.assignSlot (show new.assignSlot 0 "s" = .ok pairSource.gossip.slots from rfl)

lemma pairSource_moves : ∃ msg n', moveSlot (pairNode "s") {} 0 "t" pairSource = .ok (.ok (some msg), n') :=
  moveSlot_of_empty (by decide) rfl (by simp [pairSource, pairGossip])
    ⟨"t", by simp [pairSource, pairGossip, Finmap.mem_keys], by decide, by simp [pairSource, pairGossip]⟩

/-- The target has not seen epoch 1. -/
theorem handOver_takes_effect_pair : ∃ msg n',
    moveSlot (pairNode "s") {} 0 "t" pairSource = .ok (.ok (some msg), n') ∧
      n'.gossip.slots.getSlotNode 0 = "t" ∧
      ((pairGossip "s" 0 1).handleMessage msg).slots.getSlotNode 0 = "t" := by
  obtain ⟨msg, n', hmoved⟩ := pairSource_moves
  obtain ⟨hself, hoth⟩ := (handOver_takes_effect_iff (pairNode "s") {} pairSource n' 0 "t" msg
    (by decide) (by decide) pairSource_wellListed hmoved (fun _ : Unit => pairGossip "s" 0 1)
    fun _ => rfl).2 fun _ => ⟨rfl, by decide⟩
  exact ⟨msg, n', hmoved, hself, hoth ()⟩

/-- The target has seen epoch 1: it had processed a ping of the source. It refuses the slot, and the
two nodes send clients to each other. -/
theorem handOver_refused : ∃ msg n',
    moveSlot (pairNode "s") {} 0 "t" pairSource = .ok (.ok (some msg), n') ∧
      ((pairGossip "s" 1 1).handleMessage msg).slots.getSlotNode 0 = "s" ∧
      (pairNode "s").view.routeSlot n'.gossip.slots 0 false = .redirect (.moved 0 "t") ∧
      (pairNode "t").view.routeSlot ((pairGossip "s" 1 1).handleMessage msg).slots 0 false =
        .redirect (.moved 0 "s") := by
  obtain ⟨msg, n', hmoved⟩ := pairSource_moves
  obtain ⟨hslot, hown, hmsg⟩ :=
    moveSlot_message (by decide) (by decide) pairSource_wellListed hmoved
  have hkept : ((pairGossip "s" 1 1).handleMessage msg).slots.getSlotNode 0 = "s" := by
    rw [← register_owner, register_handsOver hslot (by decide) hmsg]
    decide
  refine ⟨msg, n', hmoved, hkept, ?_, ?_⟩
  · rw [getSlotNode_of_lt hslot] at hown
    exact View.routeSlot_moved hown (by decide) (by decide) rfl
  · rw [getSlotNode_of_lt hslot] at hkept
    exact View.routeSlot_moved hkept (by decide) (by decide) rfl

end AutoCache.Protocol
