import AutoCache.Cluster.Network

/-!
# Elections

A replica that holds its master for failed promotes itself: nobody is asked, and the epoch it takes
is the next one of its own counter. Two replicas of one master count alike, so they can take the
same slot with the same epoch.

The proof follows the *claimants* of a slot, its first owner and whoever took it over since. Only
they are ever named as its owner, and only they can end up as owners in their own view. So it is
enough that the configuration epochs of the claimants differ, which a takeover keeps if its epoch is
new to the slot.
-/

namespace AutoCache.Cluster

open Gossip SlotManager Function

namespace Network

open Runs

inductive ElectionAct where
  | gossip (a : GossipAct)
  | replicateTo (id masterID : String)
  | failoverToMaster (id masterID : String)

/-- A node replicates another one, and promotes itself only when it holds that one for failed. -/
def electionStep (net : Network) : ElectionAct → Go Network
  | .gossip a => return net.gossipStep a
  | .replicateTo id masterID => return net.act id ((net.nodes id).replicateTo id masterID) []
  | .failoverToMaster id masterID =>
    if id ≠ masterID ∧ (net.nodes id).masterIsFailed masterID then
      let (msgs, g) := (net.nodes id).failoverToMaster id masterID
      return net.act id g msgs
    else return net

/-- A node considers itself the owner of a slot, with that configuration epoch. -/
def OwnsItself (net : Network) (n : String) (s : UInt16) (epoch : UInt64) : Prop :=
  (net.nodes n).slots.getSlotNode s = n ∧ (net.nodes n).slots.getSlotConfigEpoch s = epoch

/-- At most one node considers itself the owner of a slot with an epoch. -/
def OneOwnerPerEpoch (net : Network) : Prop :=
  ∀ s epoch n n', n ≠ "" → n' ≠ "" → net.OwnsItself n s epoch → net.OwnsItself n' s epoch → n = n'

/-- The epoch that a node gives to the slots of its master is not one another node has for them. -/
def EpochIsNew (net : Network) : ElectionAct → Prop
  | .gossip _ => True
  | .replicateTo id masterID | .failoverToMaster id masterID =>
    ∀ s, s < slotCount → ((net.nodes id).slots.slots s).nodeID = masterID →
      ∀ n, n ≠ id → ((net.nodes n).slots.slots s).configEpoch ≠ (net.nodes id).currentEpoch + 1

variable {net net' : Network} {C : UInt16 → String → Prop} {g : Gossip} {self masterID : String}
  {slot : UInt16}

/-! ## What a takeover names -/

lemma Views.congr {g' : Gossip} (hg : Views C g) (h : g'.slots = g.slots) : Views C g' := by
  unfold Views at hg ⊢
  rw [h]
  exact hg

lemma names_broadcastSlotOwnership (hg : Views C g) {ownerID : String} (hown : ownerID = "" ∨ C slot ownerID) :
    ∀ msg ∈ (g.broadcastSlotOwnership self slot ownerID).1, Names C msg := by
  intro msg hmsg
  have hg' : Views C (g.slotEpoch slot).2 := hg.congr slots_slotEpoch
  unfold broadcastSlotOwnership at hmsg
  split at hmsg
  · cases hmsg
  dsimp only at hmsg
  split at hmsg
  · cases hmsg
    intro info hinfo s hs
    rcases List.mem_cons.1 hinfo with rfl | hinfo
    · exact hg'.listed (mem_selfNodeInfo_slots.1 hs).2
    · rw [List.mem_singleton.1 hinfo] at hs ⊢
      rcases (mem_ownerInfo_slots.1 hs).2 with rfl | hs
      · exact hown
      · exact hg'.listed hs
  · cases hmsg

lemma spread_takeOver (hg : Views C g) (hself : slot < slotCount → (g.slots.slots slot).nodeID = masterID → C slot self) :
    Views C (g.takeOver self masterID slot).2 ∧ (∀ msg ∈ (g.takeOver self masterID slot).1, Names C msg) ∧
      ∀ s, ((g.takeOver self masterID slot).2.slots.slots s).nodeID = (g.slots.slots s).nodeID ∨ s = slot ∧ C s self := by
  by_cases htake : slot < slotCount ∧ (g.slots.slots slot).nodeID = masterID
  · have hclaim := hself htake.1 htake.2
    have hlst : (g.takeOver self masterID slot).2.slots.WellListed := wellListed_takeOver hg.1
    obtain ⟨sm, heq, hsl, -⟩ := takeOver_of self htake.1 htake.2
    rw [heq, slots_broadcastSlotOwnership] at hlst
    have hnode : ∀ s, (sm.slots s).nodeID = if s = slot then self else (g.slots.slots s).nodeID := by
      intro s
      rw [hsl]
      by_cases hs : s = slot
      · rw [hs, update_self, if_pos rfl]
      · rw [update_of_ne hs, if_neg hs]
    have hviews : Views C ({ g with slots := sm } : Gossip) := by
      refine ⟨hlst, fun s hs => ?_⟩
      rw [hnode]
      split
      · next hslot => exact .inr (hslot ▸ hclaim)
      · exact hg.2 s hs
    rw [heq]
    refine ⟨hviews.congr slots_broadcastSlotOwnership, names_broadcastSlotOwnership hviews (.inr hclaim), fun s => ?_⟩
    rw [slots_broadcastSlotOwnership]
    rw [hnode]
    split
    · next hslot => exact .inr ⟨hslot, hslot ▸ hclaim⟩
    · exact .inl rfl
  · rw [takeOver_of_not self htake]
    exact ⟨hg, fun _ hmsg => (by cases hmsg), fun _ => .inl rfl⟩

lemma spread_takeOverAll (self masterID : String) (slots : List UInt16) (hg : Views C g)
    (hself : ∀ s ∈ slots, s < slotCount → (g.slots.slots s).nodeID = masterID → C s self) :
    Views C (Gossip.takeOverAll self masterID g slots).2 ∧
      ∀ msg ∈ (Gossip.takeOverAll self masterID g slots).1, Names C msg := by
  induction slots generalizing g with
  | nil => exact ⟨hg, fun _ hmsg => (by cases hmsg)⟩
  | cons slot slots ih =>
    obtain ⟨hviews, hmsg, hnode⟩ := spread_takeOver hg (hself slot List.mem_cons_self)
    have hself' : ∀ s ∈ slots, s < slotCount →
        ((g.takeOver self masterID slot).2.slots.slots s).nodeID = masterID → C s self := by
      intro s hs hlt hown
      rcases hnode s with heq | ⟨-, hclaim⟩
      · exact hself s (List.mem_cons_of_mem _ hs) hlt (heq ▸ hown)
      · exact hclaim
    obtain ⟨hviews', hmsgs⟩ := ih hviews hself'
    refine ⟨hviews', fun msg hmem => ?_⟩
    rcases List.mem_append.1 hmem with hmem | hmem
    · exact hmsg msg (Option.mem_toList.1 hmem)
    · exact hmsgs msg hmem

/-! ## Claimants -/

/-- Only claimants are named as owners, and their configuration epochs differ. -/
structure Claimed (C : UInt16 → String → Prop) (net : Network) : Prop where
  spread : Spread C net
  distinct : ∀ s, s < slotCount → ∀ x y, C s x → C s y → x ≠ y →
    ((net.nodes x).slots.slots s).configEpoch ≠ ((net.nodes y).slots.slots s).configEpoch

lemma Claimed.oneOwnerPerEpoch (h : Claimed C net) : net.OneOwnerPerEpoch := by
  rintro s epoch n n' hn hn' ⟨hown, hep⟩ ⟨hown', hep'⟩
  by_contra hne
  have hlt : s < slotCount := by
    by_contra hge
    rw [getSlotNode, if_pos (UInt16.not_lt.1 hge)] at hown
    exact hn hown.symm
  have hclaim : ∀ m, m ≠ "" → (net.nodes m).slots.getSlotNode s = m → C s m := by
    intro m hm hown
    rw [getSlotNode_of_lt hlt] at hown
    have := (h.spread.views m).2 s hlt
    rw [hown] at this
    exact this.resolve_left hm
  rw [getSlotConfigEpoch_of_lt hlt] at hep hep'
  exact h.distinct s hlt n n' (hclaim n hn hown) (hclaim n' hn' hown') hne (hep.trans hep'.symm)

lemma Claimed.act {C' : UInt16 → String → Prop} {id : String} {msgs : List Message}
    (h : Claimed C net) (epoch : UInt64) (hspread : Spread C' (net.act id g msgs))
    (hcfg : ∀ s, s < slotCount → (g.slots.slots s).configEpoch =
        ((net.nodes id).slots.slots s).configEpoch ∧ (∀ x, C' s x → C s x) ∨
      (g.slots.slots s).configEpoch = epoch ∧ (∀ x, C' s x → x = id ∨ C s x) ∧
        ∀ n, n ≠ id → ((net.nodes n).slots.slots s).configEpoch ≠ epoch) :
    Claimed C' (net.act id g msgs) := by
  refine ⟨hspread, fun s hs x y hx hy hne => ?_⟩
  simp only [act_nodes]
  rcases hcfg s hs with ⟨hsame, hold⟩ | ⟨hnew, hold, hoth⟩
  · have hep : ∀ z, ((if z = id then g else net.nodes z).slots.slots s).configEpoch =
        ((net.nodes z).slots.slots s).configEpoch := by
      intro z
      split
      · next hz => rw [hz, hsame]
      · rfl
    rw [hep, hep]
    exact h.distinct s hs x y (hold x hx) (hold y hy) hne
  · by_cases hxid : x = id
    · subst hxid
      rw [if_pos rfl, if_neg (Ne.symm hne), hnew]
      exact (hoth y (Ne.symm hne)).symm
    · rw [if_neg hxid]
      by_cases hyid : y = id
      · subst hyid
        rw [if_pos rfl, hnew]
        exact hoth x hxid
      · rw [if_neg hyid]
        exact h.distinct s hs x y ((hold x hx).resolve_left hxid) ((hold y hy).resolve_left hyid) hne

lemma replicateTo_slots (g : Gossip) (self masterID : String) :
    (∀ s, ((g.replicateTo self masterID).slots.slots s).nodeID = (g.slots.slots s).nodeID) ∧
      ∀ s, ((g.replicateTo self masterID).slots.slots s).configEpoch = (g.slots.slots s).configEpoch ∨
        (g.slots.slots s).nodeID = masterID ∧
          ((g.replicateTo self masterID).slots.slots s).configEpoch = g.currentEpoch + 1 := by
  unfold replicateTo
  split
  · exact ⟨fun _ => rfl, fun _ => .inl rfl⟩
  split
  · exact ⟨fun _ => rfl, fun _ => .inl rfl⟩
  unfold addReplicaToMaster
  split
  · exact ⟨fun _ => rfl, fun _ => .inl rfl⟩
  constructor
  · intro s
    dsimp only [Option.getD_some]
    split <;> rfl
  · intro s
    dsimp only [Option.getD_some]
    split
    · next hmaster => exact .inr ⟨hmaster.2, rfl⟩
    · exact .inl rfl

/-- **Step lemma.** -/
lemma Claimed.step {a : ElectionAct} (h : Claimed C net) (hnew : net.EpochIsNew a)
    (hstep : net.electionStep a = .ok net') : ∃ C', Claimed C' net' := by
  cases a with
  | gossip a =>
    cases hstep
    refine ⟨C, h.spread.gossipStep a, fun s hs x y hx hy hne => ?_⟩
    rw [configEpoch_gossipStep, configEpoch_gossipStep]
    exact h.distinct s hs x y hx hy hne
  | replicateTo id masterID =>
    cases hstep
    obtain ⟨hnode, hcfg⟩ := replicateTo_slots (net.nodes id) id masterID
    have hviews : Views C ((net.nodes id).replicateTo id masterID) := by
      refine ⟨wellListed_replicateTo (h.spread.views id).1, fun s hs => ?_⟩
      rw [hnode]
      exact (h.spread.views id).2 s hs
    refine ⟨C, h.act ((net.nodes id).currentEpoch + 1)
      (h.spread.act (fun _ _ hc => hc) hviews fun _ hmsg => (by cases hmsg)) fun s hs => ?_⟩
    rcases hcfg s with hsame | ⟨hmaster, hep⟩
    · exact .inl ⟨hsame, fun _ hx => hx⟩
    · exact .inr ⟨hep, fun _ hx => .inr hx, hnew s hs hmaster⟩
  | failoverToMaster id masterID =>
    unfold electionStep at hstep
    dsimp only at hstep
    split at hstep
    · next hguard =>
      obtain ⟨msgs, g', hfail, -, htaken, huntouched, -⟩ :=
        failoverToMaster_spec (g := net.nodes id) hguard.1
      -- the node becomes a claimant of the slots it takes
      let C' : UInt16 → String → Prop := fun s x =>
        C s x ∨ x = id ∧ (net.nodes id).Takes masterID s
      have hmono : ∀ s x, C s x → C' s x := fun _ _ hc => .inl hc
      have hviews : Views C' ((net.nodes id).setSelfRole id .master "").incrementEpoch :=
        (h.spread.views id).mono hmono
      have hspread := spread_takeOverAll id masterID ((net.nodes id).slots.listedSlots masterID)
        hviews fun s hs hlt hown => .inr ⟨rfl, hs, hlt, hown⟩
      change Views C' ((net.nodes id).failoverToMaster id masterID).2 ∧
        ∀ msg ∈ ((net.nodes id).failoverToMaster id masterID).1, Names C' msg at hspread
      rw [hfail] at hstep hspread
      cases hstep
      refine ⟨C', h.act ((net.nodes id).currentEpoch + 1) (h.spread.act hmono hspread.1 hspread.2) fun s hs => ?_⟩
      by_cases htakes : (net.nodes id).Takes masterID s
      · exact .inr ⟨(htaken s htakes).1.config, fun x hx => hx.symm.imp_left And.left, hnew s hs htakes.2.2⟩
      · refine .inl ⟨?_, fun x hx => hx.resolve_right fun hc => htakes hc.2⟩
        rw [(huntouched s htakes).slots]
    · cases hstep
      exact ⟨C, h⟩

/-- **Election safety.** From a cluster that agrees on the owners, in every run in which a node gives
the slots of its master only epochs that no other node has for them, at most one node considers
itself the owner of a slot with an epoch. -/
theorem one_owner_per_epoch (owner : UInt16 → String) (net net' : Network)
    (hinit : Spread (fun s x => x = owner s) net) (acts : List ElectionAct)
    (hnew : Along electionStep EpochIsNew net acts) (hrun : run electionStep net acts = .ok net') :
    net'.OneOwnerPerEpoch := by
  have hclaimed : ∃ C, Claimed C net := by
    refine ⟨_, hinit, fun s _ x y hx hy hne => absurd (hx.trans hy.symm) hne⟩
  obtain ⟨C, h⟩ := hnew.run_invariant (I := fun net => ∃ C, Claimed C net)
    (fun _ _ _ ⟨_, h⟩ hc hs => h.step hc hs) hclaimed hrun
  exact h.oneOwnerPerEpoch

/-- Every node knows `p`, and `m` as the owner of slot 0 that has failed. -/
def masterFailed : Network :=
  { nodes := fun _ =>
      { Gossip.knowsMaster with nodes := Gossip.knowsMaster.nodes.insert "m" { state := .fail } }
    sent := [] }

lemma masterFailed_spread : Spread (fun _ x => x = "m") masterFailed := by
  constructor
  · intro n
    have hlst : (masterFailed.nodes n).slots.WellListed :=
      wellListed_new.assignSlot (show new.assignSlot 0 "m" = .ok knowsMaster.slots from rfl)
    refine ⟨hlst, fun s _ => ?_⟩
    change (knowsMaster.slots.slots s).nodeID = "" ∨ (knowsMaster.slots.slots s).nodeID = "m"
    rw [knowsMaster_slots]
    split
    · exact .inr rfl
    · exact .inl rfl
  · intro msg hmsg
    cases hmsg

lemma failover_from_masterFailed (net : Network) (id : String) (hne : id ≠ "m") (hid : net.nodes id = masterFailed.nodes id) :
    ∃ g msgs, net.electionStep (.failoverToMaster id "m") = .ok (net.act id g msgs) ∧
      (net.act id g msgs).OwnsItself id 0 1 := by
  have hguard : id ≠ "m" ∧ (net.nodes id).masterIsFailed "m" = true := by
    rw [hid]
    exact ⟨hne, by simp [masterIsFailed, masterFailed]⟩
  obtain ⟨msgs, g', hfail, -, htaken, -⟩ := failoverToMaster_spec (g := net.nodes id) hne
  have htakes : (net.nodes id).Takes "m" 0 := by
    rw [hid]
    exact knowsMaster_takes
  have ht := (htaken 0 htakes).1
  refine ⟨g', msgs, ?_, ?_⟩
  · rw [electionStep, if_pos hguard, hfail]
    rfl
  · unfold OwnsItself
    rw [act_nodes, if_pos rfl, getSlotNode_of_lt (by decide), getSlotConfigEpoch_of_lt (by decide), ht.owner, ht.config, hid]
    exact ⟨rfl, rfl⟩

theorem one_owner_per_epoch_single : ∃ net',
    run electionStep masterFailed [.failoverToMaster "r" "m"] = .ok net' ∧
      net'.OwnsItself "r" 0 1 ∧ net'.OneOwnerPerEpoch := by
  obtain ⟨g, msgs, hstep, howns⟩ := failover_from_masterFailed masterFailed "r" (by decide) rfl
  have hrun : run electionStep masterFailed [.failoverToMaster "r" "m"] =
      .ok (masterFailed.act "r" g msgs) := by
    rw [run_cons_ok hstep]
    rfl
  have hnew : Along electionStep EpochIsNew masterFailed [.failoverToMaster "r" "m"] := by
    refine ⟨fun s _ _ n _ => ?_, fun _ _ => trivial⟩
    change (knowsMaster.slots.slots s).configEpoch ≠ 1
    rw [knowsMaster_slots]
    split <;> decide
  exact ⟨_, hrun, howns, one_owner_per_epoch (fun _ => "m") masterFailed _ masterFailed_spread _ hnew hrun⟩

/-- Both replicas take slot 0 with epoch 1. -/
theorem two_owners_in_one_epoch : ∃ net',
    run electionStep masterFailed [.failoverToMaster "r₁" "m", .failoverToMaster "r₂" "m"] = .ok net' ∧
      net'.OwnsItself "r₁" 0 1 ∧ net'.OwnsItself "r₂" 0 1 := by
  obtain ⟨g, msgs, hstep, howns⟩ := failover_from_masterFailed masterFailed "r₁" (by decide) rfl
  obtain ⟨g', msgs', hstep', howns'⟩ := failover_from_masterFailed
    (masterFailed.act "r₁" g msgs) "r₂" (by decide) rfl
  refine ⟨(masterFailed.act "r₁" g msgs).act "r₂" g' msgs', ?_, ?_, howns'⟩
  · rw [run_cons_ok hstep, run_cons_ok hstep']
    rfl
  · unfold OwnsItself at howns ⊢
    rw [act_nodes, if_neg (by decide)]
    exact howns

end Network

end AutoCache.Cluster
