import AutoCache.Cluster.Network

/-!
# Second-hand news

A node passes on what it knows of others under its own epoch, not under the epoch it heard it with.
So an old view, passed on by a node whose epoch is large, looks newer than what the owner itself
says.

Two histories are kept beside the cluster: what nodes announced of themselves or handed over
(`announced`), and which owners a node accepted from their own announcements (`accepted`). Entries of
messages are heard one by one, since messages of different connections are handled side by side.

As long as nobody passes on more than it has seen, every entry and every view is *backed* by an
announcement whose epoch is not smaller, and an owner gives way only to a newer announcement.
-/

namespace AutoCache.Cluster

open Runs Network Gossip SlotManager Register List Function UInt64

/-- A cluster with its histories. -/
structure Rumours where
  nodes : String → Gossip
  sent : List Message := []
  /-- The owner, the slot and the epoch of announcements and hand-overs. -/
  announced : String → UInt16 → UInt64 → Prop := fun _ _ _ => False
  /-- The node, the slot, the owner it accepted from its own announcement, and the epoch. A node
  accepts itself when it announces a slot. -/
  accepted : String → UInt16 → String → UInt64 → Prop := fun _ _ _ _ => False

namespace Rumours

inductive Act where
  /-- A ping or pong, with `chosen` as the order of the shuffled nodes. -/
  | ping (id : String) (chosen : List String)
  | hear (id : String) (msg : Message) (entry : ℕ)
  | incrementEpoch (id : String)
  | handOver (id : String) (slot : UInt16) (targetID : String)

/-- The cluster after a message of `id` went out; its first entry is its own announcement. -/
def send (st : Rumours) (id : String) (g : Gossip) (msg : Message)
    (handed : String → UInt16 → UInt64 → Prop) : Rumours :=
  { nodes := update st.nodes id g
    sent := st.sent ++ [msg]
    announced := fun owner s epoch => st.announced owner s epoch ∨ handed owner s epoch ∨
      owner = id ∧ s ∈ msg.nodeInfo.slots ∧ epoch = msg.nodeInfo.configEpoch
    accepted := fun n s owner epoch => st.accepted n s owner epoch ∨
      n = id ∧ owner = id ∧ s ∈ msg.nodeInfo.slots ∧ epoch = msg.nodeInfo.configEpoch }

/-- A node hears an entry; only the first of a message is its sender's own. -/
def listen (st : Rumours) (id : String) (info : NodeInfo) (direct : Bool) : Rumours :=
  let g := st.nodes id
  { st with
    nodes := update st.nodes id (g.processNodeInfo info direct)
    accepted := fun n s owner epoch => st.accepted n s owner epoch ∨
      n = id ∧ direct ∧ owner = info.id ∧ epoch = info.configEpoch ∧ s ∈ info.slots ∧
        (g.learn info direct).role = .master ∧ g.canApplySlotOwnership s info.configEpoch }

def step (st : Rumours) : Act → Go Rumours
  | .ping id chosen =>
    let g := st.nodes id
    return st.send id g (g.ping id (randomGossipNodes g id chosen)) fun _ _ _ => False
  | .hear id msg entry =>
    match msg.entries[entry]? with
    | none => return st
    | some info =>
      if msg ∈ st.sent ∧ msg.sender ≠ id then return st.listen id info (entry = 0) else return st
  | .incrementEpoch id =>
    return { st with nodes := update st.nodes id (st.nodes id).incrementEpoch }
  | .handOver id slot targetID => do
    let (msg, g) ← (st.nodes id).handOver id slot targetID
    match msg with
    | none => return { st with nodes := update st.nodes id g }
    | some msg =>
      return st.send id g msg fun owner s epoch =>
        owner = targetID ∧ s = slot ∧ epoch = ((st.nodes id).slotEpoch slot).1

/-- An entry that is heard replaces an owner only by one that was announced with an epoch larger than
what the node has seen for the slot, and larger than any with which it accepted the owner from its
own announcement. -/
def NoRollback (st : Rumours) (a : Act) : Prop :=
  ∀ id msg entry, a = .hear id msg entry → ∀ st', st.step a = .ok st' → ∀ s, s < slotCount →
    ∀ owner owner', (st.nodes id).slots.getSlotNode s = owner →
      (st'.nodes id).slots.getSlotNode s = owner' → owner ≠ "" → owner' ≠ "" → owner' ≠ owner →
      ∃ epoch', st.announced owner' s epoch' ∧ (st.nodes id).seenEpoch s < epoch' ∧
        ∀ epoch, st.accepted id s owner epoch → epoch < epoch'

/-- Nobody passes on more than it has seen, and nobody gives up an owner for less than it knows. -/
def Cautious (st : Rumours) : Act → Prop
  | .ping id chosen =>
    -- what is passed on was seen with an epoch as large
    ∀ other ∈ randomGossipNodes (st.nodes id) id chosen,
      ∀ s ∈ (st.nodes id).slots.listedSlots other,
        (st.nodes id).currentEpoch ≤ (st.nodes id).seenEpoch s
  | .hear id msg entry =>
    -- an owner gives way to positive epochs only, and the node itself to larger ones than its own
    ∀ info, msg.entries[entry]? = some info → ∀ s ∈ info.slots,
      (st.nodes id).slots.getSlotNode s ≠ "" → (st.nodes id).slots.getSlotNode s ≠ info.id →
      (st.nodes id).canApplySlotOwnership s info.configEpoch →
      0 < info.configEpoch ∧
        ((st.nodes id).slots.getSlotNode s = id → (st.nodes id).currentEpoch < info.configEpoch)
  | .incrementEpoch id => (st.nodes id).currentEpoch < (st.nodes id).currentEpoch + 1
  | .handOver id slot targetID =>
    let g := st.nodes id
    targetID ≠ id ∧ (g.nodes.lookup targetID).isSome ∧ g.HasPeers id ∧
      -- the epoch of the hand-over is the largest seen for the slot, and not more than was seen for
      -- the other slots of the target
      g.seenEpoch slot ≤ (g.slotEpoch slot).1 ∧
      ∀ s ∈ g.slots.listedSlots targetID, s ≠ slot → (g.slotEpoch slot).1 ≤ g.seenEpoch s

/-- The start: nobody has said anything, and a node knows its own slots only. -/
structure Start (st : Rumours) : Prop where
  listed : ∀ n, (st.nodes n).slots.WellListed
  own : ∀ n s, s < slotCount → ((st.nodes n).slots.slots s).nodeID = "" ∨
    ((st.nodes n).slots.slots s).nodeID = n
  sent : st.sent = []
  accepted : ∀ n s owner epoch, ¬ st.accepted n s owner epoch

end Rumours

/-! ## What steps do to a node -/

namespace Gossip

variable {g g' : Gossip} {self targetID : String} {slot : UInt16} {msg : Option Message}

lemma wellListed_processNodeInfo (h : g.slots.WellListed) (info : NodeInfo) (direct : Bool) :
    (g.processNodeInfo info direct).slots.WellListed :=
  processNodeInfo_rule (P := fun g => g.slots.WellListed)
    (fun _ _ hg => wellListed_registerReplica hg) (fun _ _ _ hg => wellListed_applySlot hg) h

lemma currentEpoch_processNodeInfo (g : Gossip) (info : NodeInfo) (direct : Bool) :
    (g.processNodeInfo info direct).currentEpoch = g.currentEpoch := by
  refine processNodeInfo_rule (P := fun g' => g'.currentEpoch = g.currentEpoch) ?_ ?_ rfl
  · intro g' nodes hg
    rw [← hg]
    unfold registerReplica
    split <;> rfl
  · intro g' slot _ hg
    rw [← hg]
    unfold applySlot
    repeat' split
    all_goals first | rfl | (unfold recordSlotEpoch; split <;> rfl)

lemma register_slotEpoch (g : Gossip) (slot s : UInt16) : (g.slotEpoch slot).2.register s = g.register s := by
  obtain ⟨-, hsl, -, hothers⟩ := slotEpoch_frame g slot
  by_cases hs : s = slot
  · subst hs
    ext1
    · rw [register_owner, register_owner, hsl]
    change ((g.slotEpoch s).2.seenEpoch s).toNat = (g.seenEpoch s).toNat
    rw [seenEpoch_toNat, seenEpoch_toNat, hsl]
    unfold slotEpoch
    dsimp only
    split
    · rw [recordSlotEpoch_toNat]
      omega
    · rfl
  · refine register_congr (hothers s hs) ?_ ?_ <;> rw [hsl]

lemma broadcastSlotOwnership_spec {ownerID : String} (h : g.broadcastSlotOwnership self slot ownerID = (msg, g')) :
    g'.currentEpoch = g.currentEpoch ∧ (∀ s, g'.register s = g.register s) ∧ ∀ m ∈ msg, m =
        ⟨self, g'.selfNodeInfo self, [g'.ownerInfo slot ownerID (g.slotEpoch slot).1]⟩ := by
  unfold broadcastSlotOwnership at h
  split at h
  · cases h
    exact ⟨rfl, fun _ => rfl, fun _ hm => by cases hm⟩
  · cases h
    refine ⟨(slotEpoch_frame g slot).2.2.1, register_slotEpoch g slot, fun m hm => ?_⟩
    split at hm
    · exact (Option.some.inj hm).symm
    · cases hm

/-- **What a hand-over does to the node that makes it**, and what it says. -/
lemma handOver_spec (h : g.handOver self slot targetID = .ok (msg, g')) :
    slot < slotCount ∧ g'.currentEpoch = g.currentEpoch ∧ (∀ s, s < slotCount → g'.register s =
        if s = slot then ⟨targetID, (g.register s).epoch⟩ else g.register s) ∧
      ∀ m ∈ msg, m = ⟨self, g'.selfNodeInfo self, [g'.ownerInfo slot targetID (g.slotEpoch slot).1]⟩ := by
  unfold handOver finishMigration at h
  by_cases hge : slotCount ≤ slot
  · rw [if_pos hge] at h
    cases h
  rw [if_neg hge] at h
  have hlt := UInt16.not_le.1 hge
  set sm := (g.slots.setOwnerLocked slot targetID).modify slot fun info =>
    { info with state := .normal, primaryID := targetID, importing := "", exporting := "" } with hsm
  have hsl : ∀ s, (sm.slots s).nodeID = (if s = slot then targetID else (g.slots.slots s).nodeID) ∧
      (sm.slots s).configEpoch = (g.slots.slots s).configEpoch := by
    intro s
    rw [hsm, modify_slots, setOwnerLocked_slots]
    by_cases hs : s = slot <;> simp [hs]
  have heq : ({ g with slots := sm } : Gossip).broadcastSlotOwnership self slot targetID = (msg, g') :=
    Except.ok.inj h
  obtain ⟨hcur, hregister, hmsg⟩ := broadcastSlotOwnership_spec heq
  have hep : (({ g with slots := sm } : Gossip).slotEpoch slot).1 = (g.slotEpoch slot).1 := by
    rw [slotEpoch_fst, slotEpoch_fst, getSlotConfigEpoch_of_lt hlt, getSlotConfigEpoch_of_lt hlt, (hsl slot).2]
  refine ⟨hlt, hcur, fun s hs => ?_, hep ▸ hmsg⟩
  rw [hregister]
  have hseen : (({ g with slots := sm } : Gossip).register s).epoch = (g.register s).epoch := by
    unfold register seenEpoch getSlotConfigEpoch
    rw [(hsl s).2]
  ext1
  · rw [register_owner, getSlotNode_of_lt hs, (hsl s).1]
    split
    · rfl
    · rw [register_owner, getSlotNode_of_lt hs]
  · rw [hseen]
    split <;> rfl

end Gossip

namespace Rumours

variable {st st' : Rumours} {id : String} {g : Gossip} {msg : Message} {info : NodeInfo}

/-! ## Backing -/

/-- There is an announcement whose epoch is not smaller. -/
def Backed (st : Rumours) (owner : String) (s : UInt16) (epoch : ℕ) : Prop :=
  ∃ epoch', st.announced owner s epoch' ∧ epoch ≤ epoch'.toNat

/-- What the node `n` thinks of others is backed. -/
def BackedView (st : Rumours) (n : String) (g : Gossip) : Prop :=
  ∀ s, s < slotCount → (g.register s).owner ≠ "" → (g.register s).owner ≠ n →
    st.Backed (g.register s).owner s (g.register s).epoch

def BackedEntry (st : Rumours) (info : NodeInfo) : Prop :=
  ∀ s ∈ info.slots, s < slotCount ∧ (info.id ≠ "" → st.Backed info.id s info.configEpoch.toNat)

/-- What holds throughout a cautious run. -/
structure Inv (st : Rumours) : Prop where
  listed : ∀ n, (st.nodes n).slots.WellListed
  views : ∀ n, st.BackedView n (st.nodes n)
  entries : ∀ msg ∈ st.sent, ∀ info ∈ msg.entries, st.BackedEntry info
  /-- What was accepted was seen, or announced by the node itself. -/
  seen : ∀ n s owner epoch, st.accepted n s owner epoch → s < slotCount ∧
    (epoch.toNat ≤ ((st.nodes n).register s).epoch ∨
      owner = n ∧ epoch.toNat ≤ (st.nodes n).currentEpoch.toNat)

lemma Start.inv (h : st.Start) : st.Inv where
  listed := h.listed
  views n s hs hempty hne := by
    rw [register_owner, getSlotNode_of_lt hs] at hempty hne
    rcases h.own n s hs with hown | hown
    · exact absurd hown hempty
    · exact absurd hown hne
  entries msg hmsg := by
    rw [h.sent] at hmsg
    cases hmsg
  seen n s owner epoch hacc := absurd hacc (h.accepted n s owner epoch)

section Mono

variable (hmono : ∀ owner s epoch, st.announced owner s epoch → st'.announced owner s epoch)

include hmono

lemma Backed.mono {owner : String} {s : UInt16} {epoch : ℕ} (h : st.Backed owner s epoch) : st'.Backed owner s epoch :=
  h.imp fun _ ⟨hann, hle⟩ => ⟨hmono _ _ _ hann, hle⟩

lemma BackedView.mono {n : String} (h : st.BackedView n g) : st'.BackedView n g :=
  fun s hs hempty hne => (h s hs hempty hne).mono hmono

lemma BackedEntry.mono (h : st.BackedEntry info) : st'.BackedEntry info :=
  fun s hs => (h s hs).imp_right fun hback hid => (hback hid).mono hmono

end Mono

lemma BackedView.listed {n other : String} {s : UInt16} (h : st.BackedView n g)
    (hlst : g.slots.WellListed) (hs : s ∈ g.slots.listedSlots other) (hempty : other ≠ "")
    (hne : other ≠ n) {epoch : UInt64} (hle : epoch ≤ g.seenEpoch s) :
    st.Backed other s epoch.toNat := by
  obtain ⟨hlt, hnode⟩ := (hlst.mem_iff other hempty s).1 hs
  have howner : (g.register s).owner = other := by
    rw [register_owner, getSlotNode_of_lt hlt, hnode]
  have hback := h s hlt (howner ▸ hempty) (howner ▸ hne)
  rw [howner] at hback
  exact hback.imp fun _ ⟨hann, hseen⟩ => ⟨hann, (le_iff_toNat_le.1 hle).trans hseen⟩

/-! ## The steps -/

lemma Inv.update (h : st.Inv) (hnds : st'.nodes = update st.nodes id g)
    (hmono : ∀ owner s epoch, st.announced owner s epoch → st'.announced owner s epoch)
    (hlst : g.slots.WellListed) (hviews : st'.BackedView id g)
    (hsent : ∀ msg ∈ st'.sent, msg ∈ st.sent ∨ ∀ info ∈ msg.entries, st'.BackedEntry info)
    (hregister : ∀ s, s < slotCount → ((st.nodes id).register s).epoch ≤ (g.register s).epoch)
    (hcur : (st.nodes id).currentEpoch.toNat ≤ g.currentEpoch.toNat)
    (haccepted : ∀ n s owner epoch, st'.accepted n s owner epoch → st.accepted n s owner epoch ∨ n = id ∧ s < slotCount ∧
        (epoch.toNat ≤ (g.register s).epoch ∨ owner = id ∧ epoch.toNat ≤ g.currentEpoch.toNat)) :
    st'.Inv := by
  have hself : st'.nodes id = g := by rw [hnds, update_self]
  constructor
  · rw [hnds]
    exact (forall_update_iff _ fun _ (g : Gossip) => g.slots.WellListed).2 ⟨hlst, fun n _ => h.listed n⟩
  · rw [hnds]
    exact (forall_update_iff _ st'.BackedView).2 ⟨hviews, fun n _ => (h.views n).mono hmono⟩
  · intro msg hmsg
    rcases hsent msg hmsg with hold | hnew
    · exact fun info hinfo => (h.entries msg hold info hinfo).mono hmono
    · exact hnew
  · intro n s owner epoch hacc
    rcases haccepted n s owner epoch hacc with hold | ⟨rfl, hlt, hseen⟩
    · obtain ⟨hlt, hseen⟩ := h.seen n s owner epoch hold
      refine ⟨hlt, ?_⟩
      by_cases hn : n = id
      · subst hn
        rw [hself]
        exact hseen.imp (fun hle => hle.trans (hregister s hlt)) fun ⟨howner, hle⟩ => ⟨howner, hle.trans hcur⟩
      · rw [hnds, update_of_ne hn]
        exact hseen
    · rw [hself]
      exact ⟨hlt, hseen⟩

variable {handed : String → UInt16 → UInt64 → Prop} {direct : Bool}

lemma backedEntry_self (h : msg.nodeInfo = g.selfNodeInfo id) : (st.send id g msg handed).BackedEntry msg.nodeInfo := by
  intro s hs
  have hid : msg.nodeInfo.id = id := by
    rw [h]
    rfl
  refine ⟨?_, fun _ => ⟨msg.nodeInfo.configEpoch, .inr (.inr ⟨hid, hs, rfl⟩), le_rfl⟩⟩
  rw [h] at hs
  exact (mem_selfNodeInfo_slots.1 hs).1

lemma Inv.send (h : st.Inv) (hlst : g.slots.WellListed) (hself : msg.nodeInfo = g.selfNodeInfo id)
    (hcur : g.currentEpoch = (st.nodes id).currentEpoch)
    (hregister : ∀ s, s < slotCount → ((st.nodes id).register s).epoch ≤ (g.register s).epoch)
    (hviews : (st.send id g msg handed).BackedView id g)
    (hentries : ∀ info ∈ msg.gossipNodes, (st.send id g msg handed).BackedEntry info) :
    (st.send id g msg handed).Inv := by
  refine h.update rfl (fun _ _ _ => Or.inl) hlst hviews ?_ hregister (by rw [hcur]) ?_
  · intro m hm
    refine (mem_append.1 hm).imp_right fun hm info hinfo => ?_
    rw [mem_singleton.1 hm] at hinfo
    rcases mem_cons.1 hinfo with rfl | hinfo
    · exact backedEntry_self hself
    · exact hentries info hinfo
  · rintro n s owner epoch (hacc | ⟨rfl, rfl, hs, rfl⟩)
    · exact .inl hacc
    · rw [hself] at hs ⊢
      exact .inr ⟨rfl, (mem_selfNodeInfo_slots.1 hs).1, .inr ⟨rfl, le_rfl⟩⟩

/-- **A node hears an entry**, which is one claim on each of its slots. -/
lemma Inv.listen (h : st.Inv) (hinfo : st.BackedEntry info) : (st.listen id info direct).Inv := by
  refine h.update rfl (fun _ _ _ hann => hann) (wellListed_processNodeInfo (h.listed id) info direct) ?_ (fun _ => Or.inl) ?_
    (by rw [currentEpoch_processNodeInfo]) ?_
  · intro s hs
    rw [register_processNodeInfo hs]
    split
    · next hclaim =>
      by_cases hacc : ((st.nodes id).register s).Accepts info.configEpoch.toNat
      · rw [claim_of_accepts hacc]
        exact fun hempty _ => (hinfo s hclaim.2).2 hempty
      · rw [claim_of_not_accepts hacc]
        exact h.views id s hs
    · exact h.views id s hs
  · intro s hs
    rw [register_processNodeInfo hs]
    split
    · rw [epoch_claim]
      exact le_max_left _ _
    · exact le_rfl
  · rintro n s owner epoch (hacc | ⟨rfl, -, rfl, rfl, hmem, hrole, -⟩)
    · exact .inl hacc
    · have hlt := (hinfo s hmem).1
      refine .inr ⟨rfl, hlt, .inl ?_⟩
      rw [register_processNodeInfo hlt, if_pos ⟨hrole, hmem⟩, epoch_claim]
      exact le_max_right _ _

lemma Inv.handOver {slot : UInt16} {targetID : String} (h : st.Inv) (hcautious : st.Cautious (.handOver id slot targetID))
    (hover : (st.nodes id).handOver id slot targetID = .ok (some msg, g)) :
    (st.send id g msg fun owner s epoch =>
      owner = targetID ∧ s = slot ∧ epoch = ((st.nodes id).slotEpoch slot).1).Inv := by
  obtain ⟨hne, -, -, hslot, hothers⟩ := hcautious
  obtain ⟨-, hcur, hregister, hmsg⟩ := handOver_spec hover
  have hmsg := hmsg msg rfl
  have hlst := wellListed_handOver (h.listed id) hover
  refine h.send hlst (by rw [hmsg]) hcur (fun s hs => ?_) (fun s hs => ?_) ?_
  · rw [hregister s hs]
    split <;> exact le_rfl
  · rw [hregister s hs]
    split
    · next heq =>
      subst heq
      exact fun _ _ => ⟨_, .inr (.inl ⟨rfl, rfl, rfl⟩), le_iff_toNat_le.1 hslot⟩
    · exact fun hempty hself => (h.views id s hs hempty hself).mono fun _ _ _ => Or.inl
  · intro info hinfo s hs
    rw [hmsg, mem_singleton] at hinfo
    subst hinfo
    obtain ⟨hs, hmem⟩ := mem_ownerInfo_slots.1 hs
    refine ⟨hs, fun hempty => ?_⟩
    by_cases heq : s = slot
    · exact ⟨_, .inr (.inl ⟨rfl, heq, rfl⟩), le_rfl⟩
    -- the slot was the target's before
    have hnode := ((hlst.mem_iff targetID hempty s).1 (hmem.resolve_left heq)).2
    have hold : s ∈ (st.nodes id).slots.listedSlots targetID := by
      refine ((h.listed id).mem_iff targetID hempty s).2 ⟨hs, ?_⟩
      have hreg := congrArg owner (hregister s hs)
      rw [if_neg heq, register_owner, register_owner, getSlotNode_of_lt hs, getSlotNode_of_lt hs] at hreg
      exact hreg.symm.trans hnode
    exact ((h.views id).listed (h.listed id) hold hempty hne (hothers s hold heq)).mono fun _ _ _ => Or.inl

lemma step_hear {entry : ℕ} (h : st.step (.hear id msg entry) = .ok st') :
    st' = st ∨ ∃ info, msg.entries[entry]? = some info ∧ msg ∈ st.sent ∧ st' = st.listen id info (entry = 0) := by
  simp only [step] at h
  split at h
  · cases h
    exact .inl rfl
  · next info hinfo =>
    split at h
    · next hsent =>
      cases h
      exact .inr ⟨info, hinfo, hsent.1, rfl⟩
    · cases h
      exact .inl rfl

/-- **Step lemma.** -/
lemma Inv.step {a : Act} (h : st.Inv) (hcautious : st.Cautious a) (hstep : st.step a = .ok st') : st'.Inv := by
  cases a with
  | ping id chosen =>
    cases hstep
    refine h.send (h.listed id) rfl rfl (fun _ _ => le_rfl) ((h.views id).mono fun _ _ _ => Or.inl) ?_
    intro info hinfo s hs
    obtain ⟨other, hoth, rfl⟩ := mem_map.1 hinfo
    obtain ⟨hlt, hmem⟩ := mem_gossipNodeInfo_slots.1 hs
    have hne : other ≠ id := by
      have := mem_filter.1 (mem_of_mem_take hoth)
      exact (of_decide_eq_true this.2).1
    refine ⟨hlt, fun hempty => ?_⟩
    exact ((h.views id).listed (h.listed id) hmem hempty hne (hcautious other hoth s hmem)).mono fun _ _ _ => Or.inl
  | hear id msg entry =>
    rcases step_hear hstep with rfl | ⟨info, hinfo, hsent, rfl⟩
    · exact h
    · exact h.listen (h.entries msg hsent info (mem_of_getElem? hinfo))
  | incrementEpoch id =>
    cases hstep
    exact h.update rfl (fun _ _ _ hann => hann) (h.listed id) (h.views id) (fun _ => Or.inl)
      (fun _ _ => le_rfl) (lt_iff_toNat_lt.1 hcautious).le fun _ _ _ _ => Or.inl
  | handOver id slot targetID =>
    obtain ⟨⟨msg, g⟩, hover, hstep⟩ := Go.bind_eq_ok.1 hstep
    cases msg with
    | none =>
      -- the target is known and somebody listens, so there is a message
      obtain ⟨-, hkn, hpeers, -⟩ := hcautious
      obtain ⟨m, g', hsome⟩ := handOver_of_known (handOver_spec hover).1 hkn hpeers
      cases hsome.symm.trans hover
    | some m =>
      cases hstep
      exact h.handOver hcautious hover

/-- **What a cautious node hears rolls nothing back.** -/
lemma Inv.noRollback {a : Act} (h : st.Inv) (hcautious : st.Cautious a) : st.NoRollback a := by
  rintro id msg entry rfl st' hstep s hs owner owner' rfl howner' hempty hempty' hne
  rcases step_hear hstep with rfl | ⟨info, hinfo, hsent, rfl⟩
  · exact absurd howner'.symm hne
  have hnew : (((st.nodes id).processNodeInfo info (entry = 0)).register s).owner = owner' := by
    rw [← howner', Rumours.listen]
    dsimp only
    rw [update_self, register_owner]
  rw [register_processNodeInfo hs] at hnew
  split at hnew
  · next hclaim =>
    have hacc : ((st.nodes id).register s).Accepts info.configEpoch.toNat := by
      by_contra hnot
      rw [claim_of_not_accepts hnot] at hnew
      exact hne hnew.symm
    rw [claim_of_accepts hacc] at hnew
    subst hnew
    have hent := h.entries msg hsent info (mem_of_getElem? hinfo)
    obtain ⟨epoch', hann, hle⟩ := (hent s hclaim.2).2 hempty'
    obtain ⟨hpos, hown⟩ := hcautious info hinfo s hclaim.2 hempty (Ne.symm hne) (canApply_iff.2 hacc)
    have hseen : ((st.nodes id).register s).epoch < info.configEpoch.toNat := by
      have hpos := lt_iff_toNat_lt.1 hpos
      rcases hacc with ⟨hzero, -⟩ | hlt
      · rw [hzero] at hpos
        cases hpos
      · exact hlt
    refine ⟨epoch', hann, lt_iff_toNat_lt.2 (hseen.trans_le hle), fun epoch hep => ?_⟩
    rw [lt_iff_toNat_lt]
    rcases (h.seen id s _ epoch hep).2 with hbefore | ⟨hself, hbefore⟩
    · omega
    · have := lt_iff_toNat_lt.1 (hown hself)
      omega
  · exact absurd hnew.symm hne

/-- **No rollback.** In every run from the start in which nobody passes on more than it has seen,
counters do not wrap, hand-overs carry the largest epoch seen for the slot, and owners give way to
positive epochs only, and a node in its own slots to epochs larger than its own: whatever is heard,
of the owner itself or second-hand, replaces an owner only by one that announced the slot, or was
handed it, with an epoch larger than all with which the node accepted the old owner. -/
theorem no_rollback (st : Rumours) (hstart : st.Start) (acts : List Act)
    (hcautious : Along step Cautious st acts) : Along step NoRollback st acts :=
  hcautious.imp (fun _ _ _ hinv hc hstep => hinv.step hc hstep)
    (fun _ _ hinv hc => hinv.noRollback hc) hstart.inv

/-! ## Three nodes -/

/-- A node that nobody told anything, and that owns slot 0 or nothing. -/
def loner (owner : String) (epoch : UInt64) : Gossip :=
  { nodes := ∅
    slots :=
      { slots := update (fun _ => {}) 0 { nodeID := owner, primaryID := owner }
        nodeSlots := (∅ : GoMap String (List UInt16)).insert owner [0] }
    slotEpochs := fun _ => 0
    currentEpoch := epoch }

/-- Both `a` and `b` consider themselves the owner of slot 0, as after `b` took it over while `a` was
cut off; `b` has the larger epoch, and `f` has counted further than both. -/
def divided : Rumours where
  nodes n :=
    if n = "a" then loner "a" 1
    else if n = "b" then loner "b" 2
    else loner "" (if n = "f" then 5 else 0)

lemma loner_listed (owner : String) (epoch : UInt64) : (loner owner epoch).slots.WellListed :=
  wellListed_new.assignSlot (show new.assignSlot 0 owner = .ok (loner owner epoch).slots from rfl)

lemma loner_register (owner : String) (epoch : UInt64) : (loner owner epoch).register 0 = ⟨owner, 0⟩ := by
  rfl

lemma divided_start : divided.Start where
  listed n := by
    unfold divided
    dsimp only
    split_ifs <;> exact loner_listed _ _
  own n s _ := by
    have hloner : ∀ owner epoch, ((loner owner epoch).slots.slots s).nodeID = "" ∨
        ((loner owner epoch).slots.slots s).nodeID = owner := by
      intro owner epoch
      by_cases hs : s = 0 <;> simp [loner, hs]
    unfold divided
    dsimp only
    split_ifs with ha hb
    · exact ha ▸ hloner "a" 1
    · exact hb ▸ hloner "b" 2
    all_goals exact .inl ((hloner "" _).elim id id)
  sent := rfl
  accepted _ _ _ _ h := h

def announce (owner : String) (epoch : UInt64) : Message := (loner owner epoch).ping owner []

lemma mem_announce {owner : String} {epoch : UInt64} {s : UInt16} : s ∈ (announce owner epoch).nodeInfo.slots ↔ s = 0 := by
  refine mem_selfNodeInfo_slots.trans ⟨fun ⟨_, hs⟩ => ?_, ?_⟩
  · simpa [loner, listedSlots] using hs
  · rintro rfl
    exact ⟨by decide, by simp [loner, listedSlots]⟩

lemma register_announce (g : Gossip) (owner : String) (epoch : UInt64) :
    (g.processNodeInfo (announce owner epoch).nodeInfo true).register 0 = (g.register 0).claim ⟨owner, epoch.toNat⟩ := by
  have hrole : (g.learn (announce owner epoch).nodeInfo true).role = .master := rfl
  rw [register_processNodeInfo (by decide), if_pos ⟨hrole, mem_announce.2 rfl⟩]
  rfl

/-- The pings of `a` and `b` are on their way. -/
def told : Rumours :=
  (divided.send "a" (loner "a" 1) (announce "a" 1) fun _ _ _ => False).send "b" (loner "b" 2)
    (announce "b" 2) fun _ _ _ => False

lemma step_told : divided.step (.ping "a" []) = .ok (divided.send "a" (loner "a" 1) (announce "a" 1) fun _ _ _ => False) ∧
    (divided.send "a" (loner "a" 1) (announce "a" 1) fun _ _ _ => False).step (.ping "b" []) = .ok told := ⟨rfl, rfl⟩

lemma told_nodes : told.nodes "x" = loner "" 0 ∧ told.nodes "f" = loner "" 5 := ⟨rfl, rfl⟩

lemma step_hear_of_sent {entry : ℕ} (hinfo : msg.entries[entry]? = some info) (hsent : msg ∈ st.sent)
    (hne : msg.sender ≠ id) : st.step (.hear id msg entry) = .ok (st.listen id info (entry = 0)) := by
  simp only [step, hinfo]
  rw [if_pos ⟨hsent, hne⟩]
  rfl

lemma listen_nodes : (st.listen id info direct).nodes id = (st.nodes id).processNodeInfo info direct :=
  update_self _ _ _

lemma listen_nodes_of_ne {n : String} (h : n ≠ id) : (st.listen id info direct).nodes n = st.nodes n :=
  update_of_ne h _ _

/-- The node `x` hears `a` and then `b`, whose epoch is larger. -/
theorem no_rollback_announced : ∃ st', run step divided [.ping "a" [], .ping "b" [],
      .hear "x" (announce "a" 1) 0, .hear "x" (announce "b" 2) 0] = .ok st' ∧
    (st'.nodes "x").slots.getSlotNode 0 = "b" ∧
    Along step NoRollback divided [.ping "a" [], .ping "b" [], .hear "x" (announce "a" 1) 0,
      .hear "x" (announce "b" 2) 0] := by
  have hstep₁ : told.step (.hear "x" (announce "a" 1) 0) =
      .ok (told.listen "x" (announce "a" 1).nodeInfo true) :=
    step_hear_of_sent rfl mem_cons_self (by decide)
  have hsent : announce "b" 2 ∈ told.sent := mem_cons_of_mem _ mem_cons_self
  have hx₁ : ((told.listen "x" (announce "a" 1).nodeInfo true).nodes "x").register 0 = ⟨"a", 1⟩ := by
    rw [listen_nodes, register_announce, told_nodes.1, loner_register]
    exact claim_of_accepts (by decide)
  have hsent₁ : announce "b" 2 ∈ (told.listen "x" (announce "a" 1).nodeInfo true).sent := hsent
  generalize told.listen "x" (announce "a" 1).nodeInfo true = st₁ at hstep₁ hx₁ hsent₁
  have hstep₂ : st₁.step (.hear "x" (announce "b" 2) 0) =
      .ok (st₁.listen "x" (announce "b" 2).nodeInfo true) :=
    step_hear_of_sent rfl hsent₁ (by decide)
  have hcautious : Along step Cautious divided [.ping "a" [], .ping "b" [],
      .hear "x" (announce "a" 1) 0, .hear "x" (announce "b" 2) 0] := by
    refine ⟨fun other hoth => absurd hoth not_mem_nil, fun st hst => ?_⟩
    cases step_told.1.symm.trans hst
    refine ⟨fun other hoth => absurd hoth not_mem_nil, fun st hst => ?_⟩
    cases step_told.2.symm.trans hst
    refine ⟨fun info hinfo s hs hempty => ?_, fun st hst => ?_⟩
    · cases hinfo
      rw [mem_announce.1 hs, told_nodes.1] at hempty
      exact absurd rfl hempty
    · cases hstep₁.symm.trans hst
      refine ⟨fun info hinfo s hs _ _ _ => ?_, fun _ _ => trivial⟩
      cases hinfo
      refine ⟨by decide, fun hself => ?_⟩
      rw [mem_announce.1 hs, ← register_owner, hx₁] at hself
      exact absurd hself (by decide)
  refine ⟨st₁.listen "x" (announce "b" 2).nodeInfo true, ?_, ?_,
    no_rollback divided divided_start _ hcautious⟩
  · rw [run_cons_ok step_told.1, run_cons_ok step_told.2, run_cons_ok hstep₁, run_cons_ok hstep₂]
    rfl
  · rw [← register_owner, listen_nodes, register_announce, hx₁]
    decide

/-- What `f` knows once it has heard `a`, and what it tells then. -/
def forwarder : Gossip := (loner "" 5).processNodeInfo (announce "a" 1).nodeInfo true

def rumour : Message := forwarder.ping "f" ["a"]

lemma forwarder_lists : (0 : UInt16) ∈ forwarder.slots.listedSlots "a" := by
  have hreg : forwarder.register 0 = ⟨"a", 1⟩ := by
    rw [forwarder, register_announce, loner_register]
    exact claim_of_accepts (by decide)
  have howner := congrArg owner hreg
  rw [register_owner, getSlotNode_of_lt (by decide)] at howner
  have hlst : forwarder.slots.WellListed := by
    rw [forwarder]
    exact wellListed_processNodeInfo (loner_listed "" 5) _ _
  exact (hlst.mem_iff "a" (by decide) 0).2 ⟨by decide, howner⟩

lemma forwarder_chooses : randomGossipNodes forwarder "f" ["a"] = ["a"] := by
  have hid : (announce "a" 1).nodeInfo.id = "a" := rfl
  simp [randomGossipNodes, gossipCount, forwarder, nodes_processNodeInfo, hid]

/-- Its rumour gives slot 0 to `a`, with the epoch of `f`. -/
lemma register_rumour (g : Gossip) (h : g.nodes.lookup "a" = none) :
    (g.processNodeInfo (forwarder.gossipNodeInfo "a") false).register 0 = (g.register 0).claim ⟨"a", 5⟩ := by
  have hep : (forwarder.gossipNodeInfo "a").configEpoch = 5 := by
    rw [gossipNodeInfo, forwarder, currentEpoch_processNodeInfo]
    rfl
  have hid : (forwarder.gossipNodeInfo "a").id = "a" := by rw [gossipNodeInfo]
  have hrole : (g.learn (forwarder.gossipNodeInfo "a") false).role = .master := by
    rw [learn, hid, h]
    rfl
  rw [register_processNodeInfo (by decide), if_pos ⟨hrole, mem_gossipNodeInfo_slots.2 ⟨by decide, forwarder_lists⟩⟩, hep, hid]
  rfl

/-- The node `x` has accepted `b` from its own announcement with epoch 2. Then `f`, which has heard
`a` only, passes on what it knows with its own epoch 5, and `x` goes back to `a`, who announced the
slot with epoch 1. -/
theorem rolled_back : ∃ st st', divided.Start ∧
    run step divided [.ping "a" [], .ping "b" [], .hear "f" (announce "a" 1) 0,
      .hear "x" (announce "b" 2) 0, .ping "f" ["a"]] = .ok st ∧
    st.step (.hear "x" rumour 1) = .ok st' ∧
    (st.nodes "x").slots.getSlotNode 0 = "b" ∧ st.accepted "x" 0 "b" 2 ∧
    (st'.nodes "x").slots.getSlotNode 0 = "a" ∧ ∀ epoch, st.announced "a" 0 epoch → epoch ≤ 1 := by
  have hstep₁ : told.step (.hear "f" (announce "a" 1) 0) =
      .ok (told.listen "f" (announce "a" 1).nodeInfo true) :=
    step_hear_of_sent rfl mem_cons_self (by decide)
  set st₁ := told.listen "f" (announce "a" 1).nodeInfo true with hst₁
  have hstep₂ : st₁.step (.hear "x" (announce "b" 2) 0) =
      .ok (st₁.listen "x" (announce "b" 2).nodeInfo true) :=
    step_hear_of_sent rfl (mem_cons_of_mem _ mem_cons_self) (by decide)
  have hx₁ : st₁.nodes "x" = loner "" 0 := by
    rw [hst₁, listen_nodes_of_ne (by decide), told_nodes.1]
  set st₂ := st₁.listen "x" (announce "b" 2).nodeInfo true with hst₂
  have hf : st₂.nodes "f" = forwarder := by
    rw [hst₂, listen_nodes_of_ne (by decide), hst₁, listen_nodes, told_nodes.2, forwarder]
  have hx : st₂.nodes "x" = (loner "" 0).processNodeInfo (announce "b" 2).nodeInfo true := by
    rw [hst₂, listen_nodes, hx₁]
  have hreg : (st₂.nodes "x").register 0 = ⟨"b", 2⟩ := by
    rw [hx, register_announce, loner_register]
    exact claim_of_accepts (by decide)
  have hunknown : (st₂.nodes "x").nodes.lookup "a" = none := by
    rw [hx, nodes_processNodeInfo, GoMap.lookup_insert_eq]
    rfl
  have haccepted : st₂.accepted "x" 0 "b" 2 := by
    refine .inr ⟨rfl, rfl, rfl, rfl, mem_announce.2 rfl, rfl, ?_⟩
    rw [hx₁]
    decide
  have hannounced : ∀ epoch, st₂.announced "a" 0 epoch → epoch ≤ 1 := by
    rintro epoch ((hf | hf | ⟨-, -, rfl⟩) | hf | ⟨hab, -⟩)
    · cases hf
    · cases hf
    · decide
    · cases hf
    · exact absurd hab (by decide)
  have hstep₃ : st₂.step (.ping "f" ["a"]) = .ok (st₂.send "f" forwarder rumour fun _ _ _ => False) := by
    rw [step, hf, forwarder_chooses]
    rfl
  set st₃ := st₂.send "f" forwarder rumour fun _ _ _ => False with hst₃
  have hx₃ : st₃.nodes "x" = st₂.nodes "x" := by simp [hst₃, send]
  have hsent : rumour ∈ st₃.sent := mem_append_right st₂.sent (mem_singleton_self rumour)
  refine ⟨st₃, st₃.listen "x" (forwarder.gossipNodeInfo "a") false, divided_start, ?_, ?_, ?_,
    .inl haccepted, ?_, ?_⟩
  · rw [run_cons_ok step_told.1, run_cons_ok step_told.2, run_cons_ok hstep₁, run_cons_ok hstep₂,
      run_cons_ok hstep₃]
    rfl
  · exact step_hear_of_sent rfl hsent (by decide)
  · rw [hx₃, ← register_owner, hreg]
  · rw [listen_nodes, hx₃, ← register_owner, register_rumour _ hunknown, hreg]
    decide
  · rintro epoch (hann | hf | ⟨haf, -⟩)
    · exact hannounced epoch hann
    · cases hf
    · exact absurd haf (by decide)

end Rumours

end AutoCache.Cluster
