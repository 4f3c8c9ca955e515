import AutoCache.Cluster.Gossip

/-!
# A replica takes over (`FailoverToMaster`)

The replica gives each slot of its master to itself, under an epoch of its own making: one more than
it had. It announces the slots under that epoch. Whether others believe it depends on what they
have seen for the slot, which the replica never learnt.
-/

namespace AutoCache.Cluster.Gossip

open Function SlotManager List Register

variable {g p : Gossip} {self masterID : String} {slot s : UInt16}

/-! ## Announcements -/

/-- Every entry of the message claims slots for `id` under `epoch`, and it comes from `id`. -/
structure Announces (id : String) (epoch : UInt64) (msg : Message) : Prop where
  id_eq : msg.nodeInfo.id = id
  role_eq : msg.nodeInfo.role = some .master
  epoch_eq : msg.nodeInfo.configEpoch = epoch
  others : ∀ info ∈ msg.gossipNodes, info.id = id ∧ info.configEpoch = epoch

def Mentions (msg : Message) (s : UInt16) : Prop :=
  s ∈ msg.nodeInfo.slots ∨ ∃ info ∈ msg.gossipNodes, s ∈ info.slots

instance (msg : Message) (s : UInt16) : Decidable (Mentions msg s) :=
  inferInstanceAs (Decidable (_ ∨ _))

variable {id : String} {epoch : UInt64} {g₁ g₂ : Gossip}

lemma nodes_applySlot : (g.applySlot id epoch slot).nodes = g.nodes := by
  unfold applySlot recordSlotEpoch
  repeat' split
  all_goals rfl

/-- After an entry its node is known as it was learnt; what is known of others stays. -/
lemma nodes_processNodeInfo {info : NodeInfo} {direct : Bool} :
    (g.processNodeInfo info direct).nodes = g.nodes.insert info.id (g.learn info direct) := by
  have hslots : ∀ (slots : List UInt16) (g' : Gossip),
      (slots.foldl (fun g slot => g.applySlot info.id info.configEpoch slot) g').nodes = g'.nodes := by
    intro slots
    induction slots with
    | nil => exact fun _ => rfl
    | cons slot slots ih =>
      intro g'
      rw [foldl_cons, ih, nodes_applySlot]
  have hbase : (({ g with nodes := g.nodes.insert info.id (g.learn info direct) } :
      Gossip).registerReplica info direct).nodes = g.nodes.insert info.id (g.learn info direct) := by
    unfold registerReplica
    split <;> rfl
  unfold processNodeInfo
  dsimp only
  split
  · rw [hslots, hbase]
  · exact hbase

lemma lookup_processNodeInfo {info : NodeInfo} {direct : Bool} :
    (g.processNodeInfo info direct).nodes.lookup info.id = some (g.learn info direct) := by
  rw [nodes_processNodeInfo, GoMap.lookup_insert_eq, if_pos rfl]

lemma register_gossipNodes (hs : s < slotCount) (infos : List NodeInfo)
    (hinfos : ∀ info ∈ infos, info.id = id ∧ info.configEpoch = epoch)
    (hmaster : ∃ node, p.nodes.lookup id = some node ∧ node.role = .master) :
    (infos.foldl (fun g info => g.processNodeInfo info false) p).register s =
      if ∃ info ∈ infos, s ∈ info.slots then (p.register s).claim ⟨id, epoch.toNat⟩
      else p.register s := by
  induction infos generalizing p with
  | nil => simp
  | cons info infos ih =>
    obtain ⟨hid, hep⟩ := hinfos info mem_cons_self
    obtain ⟨node, hnode, hrole⟩ := hmaster
    have hlearn : p.learn info false = node := by
      unfold learn
      rw [hid, hnode]
      rfl
    have hmaster' : ∃ node, (p.processNodeInfo info false).nodes.lookup id = some node ∧ node.role = .master := by
      refine ⟨node, ?_, hrole⟩
      rw [← hid, lookup_processNodeInfo, hlearn]
    rw [foldl_cons, ih (fun i hi => hinfos i (mem_cons_of_mem _ hi)) hmaster', register_processNodeInfo hs, hlearn, hid, hep]
    by_cases hmem : s ∈ info.slots
    · simp [hrole, hmem]
    · simp [hmem]

/-- **An announcement is one claim** on each slot it is about. -/
lemma register_handleMessage {msg : Message} (hs : s < slotCount) (h : Announces id epoch msg) :
    (p.handleMessage msg).register s = if Mentions msg s then (p.register s).claim ⟨id, epoch.toNat⟩ else p.register s := by
  have hlearn : (p.learn msg.nodeInfo true).role = .master := by simp [learn, h.role_eq]
  have hmaster : ∃ node, (p.processNodeInfo msg.nodeInfo true).nodes.lookup id = some node ∧ node.role = .master := by
    refine ⟨_, ?_, hlearn⟩
    rw [← h.id_eq, lookup_processNodeInfo]
  unfold handleMessage
  rw [register_gossipNodes hs msg.gossipNodes h.others hmaster, register_processNodeInfo hs, h.id_eq, h.epoch_eq]
  by_cases hself : s ∈ msg.nodeInfo.slots
  · simp [Mentions, hself, hlearn]
  · simp [Mentions, hself]

lemma register_handleMessages (hs : s < slotCount) (msgs : List Message) (h : ∀ msg ∈ msgs, Announces id epoch msg) :
    (msgs.foldl handleMessage p).register s = if ∃ msg ∈ msgs, Mentions msg s then (p.register s).claim ⟨id, epoch.toNat⟩
      else p.register s := by
  induction msgs generalizing p with
  | nil => simp
  | cons msg msgs ih =>
    rw [foldl_cons, ih fun m hm => h m (mem_cons_of_mem _ hm), register_handleMessage hs (h msg mem_cons_self)]
    by_cases hm : Mentions msg s
    · simp [hm]
    · simp [hm]

/-! ## Taking over -/

/-- The slots `FailoverToMaster` takes: those listed for the master that it also owns. -/
def Takes (g : Gossip) (masterID : String) (s : UInt16) : Prop :=
  s ∈ g.slots.listedSlots masterID ∧ s < slotCount ∧ (g.slots.slots s).nodeID = masterID

instance (g : Gossip) (masterID : String) (s : UInt16) : Decidable (g.Takes masterID s) :=
  inferInstanceAs (Decidable (_ ∧ _))

/-- The state of a slot after it was taken over under `epoch`. -/
structure Taken (g : Gossip) (id : String) (epoch : UInt64) (s : UInt16) (g' : Gossip) : Prop where
  owner : (g'.slots.slots s).nodeID = id
  config : (g'.slots.slots s).configEpoch = epoch
  epochs : (g'.slotEpochs s).toNat = max (g.slotEpochs s).toNat epoch.toNat

structure Untouched (g : Gossip) (s : UInt16) (g' : Gossip) : Prop where
  slots : g'.slots.slots s = g.slots.slots s
  epochs : g'.slotEpochs s = g.slotEpochs s

lemma recordSlotEpoch_toNat : ((g.recordSlotEpoch slot epoch).slotEpochs slot).toNat =
      max (g.slotEpochs slot).toNat epoch.toNat := by
  unfold recordSlotEpoch
  split
  · next h =>
    rw [ge_iff_le, UInt64.le_iff_toNat_le] at h
    simp only [update_self]
    omega
  · next h =>
    rw [ge_iff_le, UInt64.le_iff_toNat_le] at h
    omega

lemma recordSlotEpoch_of_ne (h : s ≠ slot) : (g.recordSlotEpoch slot epoch).slotEpochs s = g.slotEpochs s := by
  unfold recordSlotEpoch
  split
  · exact update_of_ne h _ _
  · rfl

/-- `slotEpoch` changes at most the record of its slot. -/
lemma slotEpoch_frame (g : Gossip) (slot : UInt16) :
    (g.slotEpoch slot).2.nodes = g.nodes ∧ (g.slotEpoch slot).2.slots = g.slots ∧
      (g.slotEpoch slot).2.currentEpoch = g.currentEpoch ∧
      ∀ s, s ≠ slot → (g.slotEpoch slot).2.slotEpochs s = g.slotEpochs s := by
  unfold slotEpoch
  dsimp only
  split
  · refine ⟨?_, recordSlotEpoch_slots, ?_, fun s hs => recordSlotEpoch_of_ne hs⟩ <;>
    · unfold recordSlotEpoch
      split <;> rfl
  · exact ⟨rfl, rfl, rfl, fun _ _ => rfl⟩

/-- The epoch of a broadcast is that of the slot or, when that is zero, that of the node. -/
lemma slotEpoch_fst (g : Gossip) (slot : UInt16) : (g.slotEpoch slot).1 =
      if g.slots.getSlotConfigEpoch slot > 0 then g.slots.getSlotConfigEpoch slot
      else g.currentEpoch := by
  unfold slotEpoch
  dsimp only
  split <;> rfl

lemma handOver_of_known {targetID : String} (hslot : slot < slotCount) (hkn : (g.nodes.lookup targetID).isSome)
    (hpeers : g.HasPeers self) : ∃ msg g', g.handOver self slot targetID = .ok (some msg, g') := by
  unfold handOver finishMigration
  rw [if_neg (UInt16.not_le.2 hslot)]
  generalize (g.slots.setOwnerLocked slot targetID).modify slot _ = sm
  have hpeers' : (({ g with slots := sm } : Gossip).slotEpoch slot).2.HasPeers self := by
    unfold HasPeers at hpeers ⊢
    rw [(slotEpoch_frame _ slot).1]
    exact hpeers
  have hbroadcast : ∃ msg g', ({ g with slots := sm } : Gossip).broadcastSlotOwnership self slot
      targetID = (some msg, g') := by
    rw [broadcastSlotOwnership, if_neg (by simpa using Option.isSome_iff_ne_none.1 hkn)]
    dsimp only
    rw [if_pos hpeers']
    exact ⟨_, _, rfl⟩
  obtain ⟨msg, g', h⟩ := hbroadcast
  exact ⟨msg, g', congrArg Except.ok h⟩

lemma slotEpoch_eq (h : g.slots.getSlotConfigEpoch slot = g.currentEpoch) :
    (g.slotEpoch slot).1 = g.currentEpoch ∧ ((g.slotEpoch slot).2.slotEpochs slot).toNat =
        max (g.slotEpochs slot).toNat g.currentEpoch.toNat := by
  unfold slotEpoch
  dsimp only
  split
  · exact ⟨h, by rw [recordSlotEpoch_toNat, h]⟩
  · next hpos =>
    have hzero : g.currentEpoch.toNat = 0 := by
      rw [h, gt_iff_lt, UInt64.lt_iff_toNat_lt, show (0 : UInt64).toNat = 0 from rfl] at hpos
      omega
    refine ⟨rfl, ?_⟩
    dsimp only
    omega

lemma takeOver_of_not (self : String) (h : ¬ (slot < slotCount ∧ (g.slots.slots slot).nodeID = masterID)) :
    g.takeOver self masterID slot = (none, g) := by
  have hskip : slotCount ≤ slot ∨ (g.slots.slots slot).nodeID ≠ masterID := by
    by_cases hlt : slot < slotCount
    · exact Or.inr fun hnode => h ⟨hlt, hnode⟩
    · exact Or.inl (UInt16.not_lt.1 hlt)
  rw [takeOver, if_pos hskip]

lemma takeOver_of (self : String) (hlt : slot < slotCount) (hnode : (g.slots.slots slot).nodeID = masterID) :
    ∃ sm : SlotManager, g.takeOver self masterID slot =
        ({ g with slots := sm } : Gossip).broadcastSlotOwnership self slot self ∧
      sm.slots = update g.slots.slots slot
        { g.slots.slots slot with nodeID := self, primaryID := self, replicas := [],
                                  state := .normal, configEpoch := g.currentEpoch } ∧
      slot ∈ sm.listedSlots self := by
  obtain ⟨sm, hsm, hslots⟩ := g.slots.assignSlot_of_lt self hlt
  have hlst := mem_listedSlots_assignSlot hsm
  have hset : sm.setSlotConfigEpoch slot g.currentEpoch =
      sm.modify slot fun info => { info with configEpoch := g.currentEpoch } :=
    if_neg (UInt16.not_le.2 hlt)
  refine ⟨sm.setSlotConfigEpoch slot g.currentEpoch, ?_, ?_, ?_⟩
  · rw [takeOver, if_neg (by simp [hnode, UInt16.not_le.2 hlt]), hsm]
  · rw [hset, modify_slots, hslots, update_idem, update_self]
  · rw [hset]
    exact hlst

/-- **One slot is taken over.** -/
lemma takeOver_spec (hkn : (g.nodes.lookup self).isSome)
    (hmaster : ∀ node, g.nodes.lookup self = some node → node.role = .master)
    (hlt : slot < slotCount) (hnode : (g.slots.slots slot).nodeID = masterID) :
    ∃ msg g', g.takeOver self masterID slot = (msg, g') ∧ g'.nodes = g.nodes ∧
      g'.currentEpoch = g.currentEpoch ∧ g.Taken self g.currentEpoch slot g' ∧
      (∀ s, s ≠ slot → g.Untouched s g') ∧
      (∀ m ∈ msg, Announces self g.currentEpoch m ∧ Mentions m slot) ∧
      (g.HasPeers self → msg.isSome) := by
  obtain ⟨sm, htake, hslots, hlst⟩ := takeOver_of self hlt hnode
  generalize hg₁ : ({ g with slots := sm } : Gossip) = g₁ at htake
  have hnds₁ : g₁.nodes = g.nodes := by rw [← hg₁]
  have hepochs₁ : g₁.slotEpochs = g.slotEpochs := by rw [← hg₁]
  have hcur₁ : g₁.currentEpoch = g.currentEpoch := by rw [← hg₁]
  have hslots₁ : g₁.slots.slots = update g.slots.slots slot
      { g.slots.slots slot with nodeID := self, primaryID := self, replicas := [], state := .normal,
                                configEpoch := g.currentEpoch } := by
    rw [← hg₁, hslots]
  have hlst₁ : slot ∈ g₁.slots.listedSlots self := by
    rw [← hg₁]
    exact hlst
  have hcfg : g₁.slots.getSlotConfigEpoch slot = g₁.currentEpoch := by
    rw [getSlotConfigEpoch_of_lt hlt, hslots₁, update_self, hcur₁]
  obtain ⟨hep, hrecorded⟩ := slotEpoch_eq hcfg
  obtain ⟨hnds, hsl, hcur, hothers⟩ := slotEpoch_frame g₁ slot
  have hbroadcast : g₁.broadcastSlotOwnership self slot self = (if (g₁.slotEpoch slot).2.HasPeers self then
          some { sender := self, nodeInfo := (g₁.slotEpoch slot).2.selfNodeInfo self,
                 gossipNodes := [(g₁.slotEpoch slot).2.ownerInfo slot self (g₁.slotEpoch slot).1] }
        else none, (g₁.slotEpoch slot).2) := by
    rw [broadcastSlotOwnership, if_neg]
    rw [hnds₁, Option.isNone_iff_eq_none]
    intro hnone
    rw [hnone] at hkn
    cases hkn
  refine ⟨_, _, htake.trans hbroadcast, hnds.trans hnds₁, hcur.trans hcur₁, ?_, ?_, ?_, ?_⟩
  · constructor
    · rw [hsl, hslots₁, update_self]
    · rw [hsl, hslots₁, update_self]
    · rw [hrecorded, hepochs₁, hcur₁]
  · intro s hs
    constructor
    · rw [hsl, hslots₁, update_of_ne hs]
    · rw [hothers s hs, hepochs₁]
  · intro m hm
    split at hm
    · cases hm
      constructor
      · constructor
        · rfl
        · obtain ⟨node, hself⟩ := Option.isSome_iff_exists.1 hkn
          simp [selfNodeInfo, hnds, hnds₁, hself, hmaster node hself]
        · simp [selfNodeInfo, hcur, hcur₁]
        · intro info hinfo
          rw [mem_singleton] at hinfo
          subst hinfo
          exact ⟨rfl, hep.trans hcur₁⟩
      · left
        simp only [selfNodeInfo, mem_bitmap, hsl]
        exact ⟨hlt, hlst₁⟩
    · cases hm
  · intro hpeers
    have : (g₁.slotEpoch slot).2.HasPeers self := by
      unfold HasPeers at hpeers ⊢
      rw [hnds, hnds₁]
      exact hpeers
    rw [if_pos this]
    rfl

lemma Taken.untouched (h : g.Taken self epoch s g₁) (h' : g₁.Untouched s g₂) : g.Taken self epoch s g₂ := by
  constructor
  · rw [h'.slots, h.owner]
  · rw [h'.slots, h.config]
  · rw [h'.epochs, h.epochs]

lemma Untouched.taken (h : g.Untouched s g₁) (h' : g₁.Taken self epoch s g₂) : g.Taken self epoch s g₂ := by
  constructor
  · exact h'.owner
  · exact h'.config
  · rw [h'.epochs, h.epochs]

lemma Untouched.trans (h : g.Untouched s g₁) (h' : g₁.Untouched s g₂) :
    g.Untouched s g₂ := ⟨h'.slots.trans h.slots, h'.epochs.trans h.epochs⟩

/-- **The loop of `FailoverToMaster`.** A slot is taken once: afterwards it is no longer the
master's. -/
lemma takeOverAll_spec (hne : self ≠ masterID) (hkn : (g.nodes.lookup self).isSome)
    (hmaster : ∀ node, g.nodes.lookup self = some node → node.role = .master)
    (slots : List UInt16) :
    ∃ msgs g', takeOverAll self masterID g slots = (msgs, g') ∧ g'.nodes = g.nodes ∧ g'.currentEpoch = g.currentEpoch ∧
      (∀ s, s ∈ slots → s < slotCount → (g.slots.slots s).nodeID = masterID →
        g.Taken self g.currentEpoch s g' ∧ (g.HasPeers self → ∃ m ∈ msgs, Mentions m s)) ∧
      (∀ s, ¬ (s ∈ slots ∧ s < slotCount ∧ (g.slots.slots s).nodeID = masterID) → g.Untouched s g') ∧
      ∀ m ∈ msgs, Announces self g.currentEpoch m := by
  induction slots generalizing g with
  | nil =>
    refine ⟨[], g, rfl, rfl, rfl, ?_, fun s _ => ⟨rfl, rfl⟩, ?_⟩
    · intro s hs
      cases hs
    · intro m hm
      cases hm
  | cons slot slots ih =>
    by_cases htake : slot < slotCount ∧ (g.slots.slots slot).nodeID = masterID
    · obtain ⟨msg, g₁, hstep, hnds, hcur, htaken, hothers, hmsg, hsome⟩ :=
        takeOver_spec hkn hmaster htake.1 htake.2
      obtain ⟨msgs, g₂, hrest, hnds', hcur', htaken', hothers', hmsgs⟩ :=
        ih (g := g₁) (by rw [hnds]; exact hkn) (by rw [hnds]; exact hmaster)
      have hgone : (g₁.slots.slots slot).nodeID ≠ masterID := by
        rw [htaken.owner]
        exact hne
      refine ⟨msg.toList ++ msgs, g₂, ?_, hnds'.trans hnds, hcur'.trans hcur, ?_, ?_, ?_⟩
      · simp only [takeOverAll, hstep, hrest]
      · intro s hs hlt hnode
        by_cases hslot : s = slot
        · subst hslot
          refine ⟨htaken.untouched (hothers' s fun h => hgone h.2.2), fun hpeers => ?_⟩
          obtain ⟨m, hm⟩ := Option.isSome_iff_exists.1 (hsome hpeers)
          exact ⟨m, by simp [hm], (hmsg m hm).2⟩
        · have hsame := hothers s hslot
          have hs' : s ∈ slots := (mem_cons.1 hs).resolve_left hslot
          have hnode' : (g₁.slots.slots s).nodeID = masterID := by rw [hsame.slots, hnode]
          obtain ⟨ht, hm⟩ := htaken' s hs' hlt hnode'
          rw [hcur] at ht
          refine ⟨hsame.taken ht, fun hpeers => ?_⟩
          have hpeers' : g₁.HasPeers self := by
            unfold HasPeers at hpeers ⊢
            rw [hnds]
            exact hpeers
          obtain ⟨m, hmem, hmentions⟩ := hm hpeers'
          exact ⟨m, mem_append_right _ hmem, hmentions⟩
      · intro s hs
        have hslot : s ≠ slot := by
          rintro rfl
          exact hs ⟨mem_cons_self, htake⟩
        have hsame := hothers s hslot
        refine hsame.trans (hothers' s fun h => hs ⟨mem_cons_of_mem _ h.1, h.2.1, ?_⟩)
        rw [← hsame.slots]
        exact h.2.2
      · intro m hm
        rcases mem_append.1 hm with hm | hm
        · exact (hmsg m (by simpa using hm)).1
        · exact hcur ▸ hmsgs m hm
    · have hstep := takeOver_of_not self htake
      obtain ⟨msgs, g₂, hrest, hnds, hcur, htaken, hothers, hmsgs⟩ := ih hkn hmaster
      refine ⟨msgs, g₂, ?_, hnds, hcur, ?_, ?_, hmsgs⟩
      · simp only [takeOverAll, hstep, hrest, Option.toList_none, nil_append]
      · intro s hs hlt hnode
        have hslot : s ≠ slot := by
          rintro rfl
          exact htake ⟨hlt, hnode⟩
        exact htaken s ((mem_cons.1 hs).resolve_left hslot) hlt hnode
      · intro s hs
        exact hothers s fun h => hs ⟨mem_cons_of_mem _ h.1, h.2⟩

lemma HasPeers.setSelfRole {role : NodeRole} {master : String} (h : g.HasPeers self) :
    (g.setSelfRole self role master).incrementEpoch.HasPeers self := by
  obtain ⟨id, hid, hne, hstate⟩ := h
  refine ⟨id, ?_, hne, ?_⟩
  · exact Finmap.mem_insert.2 (Or.inr hid)
  · change ((Finmap.lookup id (g.nodes.insert self _)).getD {}).state = _
    rw [GoMap.lookup_insert_eq, if_neg hne]
    exact hstate

/-- **What a failover does.** -/
lemma failoverToMaster_spec (hne : self ≠ masterID) :
    ∃ msgs g', g.failoverToMaster self masterID = (msgs, g') ∧ g'.currentEpoch = g.currentEpoch + 1 ∧
      (∀ s, g.Takes masterID s → g.Taken self (g.currentEpoch + 1) s g' ∧ (g.HasPeers self → ∃ m ∈ msgs, Mentions m s)) ∧
      (∀ s, ¬ g.Takes masterID s → g.Untouched s g') ∧
      ∀ m ∈ msgs, Announces self (g.currentEpoch + 1) m := by
  obtain ⟨msgs, g', hall, -, hcur, htaken, hothers, hmsgs⟩ :=
    takeOverAll_spec (g := (g.setSelfRole self .master "").incrementEpoch) hne
      (by simp [setSelfRole, incrementEpoch]) (by simp [setSelfRole, incrementEpoch])
      (g.slots.listedSlots masterID)
  refine ⟨msgs, g', hall, hcur, ?_, ?_, hmsgs⟩
  · rintro s ⟨hs, hlt, hnode⟩
    obtain ⟨ht, hm⟩ := htaken s hs hlt hnode
    exact ⟨⟨ht.owner, ht.config, ht.epochs⟩, fun hpeers => hm hpeers.setSelfRole⟩
  · intro s hs
    have h := hothers s fun h => hs h
    exact ⟨h.slots, h.epochs⟩

/-! ## Who is believed -/

def oldMasterInfo (masterID : String) (epoch : UInt64) (slots : List UInt16) : NodeInfo :=
  { id := masterID, role := some .master, masterID := "", configEpoch := epoch, slots := slots }

lemma register_oldMaster {slots : List UInt16} (hs : s < slotCount) :
    (p.processNodeInfo (oldMasterInfo masterID epoch slots) true).register s =
      if s ∈ slots then (p.register s).claim ⟨masterID, epoch.toNat⟩ else p.register s := by
  rw [register_processNodeInfo hs]
  simp [learn, oldMasterInfo]

/-- A claim of someone else does not change the owner exactly when it is not accepted. -/
lemma owner_claim_of_ne {r : Register String} {owner other : String} {epoch : ℕ}
    (hown : r.owner = owner) (hne : owner ≠ other) :
    (r.claim ⟨other, epoch⟩).owner = owner ↔ 0 < r.epoch ∧ epoch ≤ r.epoch := by
  by_cases h : r.Accepts epoch
  · rw [claim_of_accepts h]
    unfold Accepts at h
    constructor
    · intro heq
      exact absurd heq.symm hne
    · intro hle
      omega
  · rw [claim_of_not_accepts h]
    unfold Accepts at h
    constructor
    · intro _
      omega
    · intro _
      exact hown

/-- **What a peer makes of a failover**: one claim on each slot taken, whatever the order of the
messages. -/
lemma register_failover (hne : self ≠ masterID) (hpeers : g.HasPeers self) {received : List Message}
    (hreceived : ∀ msg, msg ∈ received ↔ msg ∈ (g.failoverToMaster self masterID).1)
    (htakes : g.Takes masterID s) :
    (received.foldl handleMessage p).register s = (p.register s).claim ⟨self, (g.currentEpoch + 1).toNat⟩ := by
  obtain ⟨msgs, g', hfail, -, htaken, -, hmsgs⟩ := failoverToMaster_spec (g := g) hne
  rw [hfail] at hreceived
  obtain ⟨m, hm, hms⟩ := (htaken s htakes).2 hpeers
  rw [register_handleMessages htakes.2.1 received fun m hm => hmsgs m ((hreceived m).1 hm)]
  exact if_pos ⟨m, (hreceived m).2 hm, hms⟩

lemma register_self_failover (hne : self ≠ masterID) (htakes : g.Takes masterID s) :
    (g.failoverToMaster self masterID).2.register s = ⟨self, max (g.slotEpochs s).toNat (g.currentEpoch + 1).toNat⟩ := by
  obtain ⟨msgs, g', hfail, -, htaken, -, -⟩ := failoverToMaster_spec (g := g) hne
  have ht := (htaken s htakes).1
  have hs := htakes.2.1
  rw [hfail]
  ext1
  · rw [register_owner, getSlotNode_of_lt hs, ht.owner]
  · change (g'.seenEpoch s).toNat = _
    rw [seenEpoch_toNat, getSlotConfigEpoch_of_lt hs, ht.config, ht.epochs]
    dsimp only
    omega

/-- **A failover claim.** After `self` took over from `masterID` and a peer has processed what it
sent, in any order and any number of times, the peer has `self` as the owner of every slot taken;
and when the old master reports its slots under `epoch`, neither of them gives one back. All this
holds exactly when for each of these slots the peer has seen no epoch as large as the one `self`
made up, or has `self` as its owner already, and `epoch` exceeds neither what the peer then has seen
nor what `self` has. -/
theorem failover_dominates_iff (g p : Gossip) (self masterID : String) (hne : self ≠ masterID)
    (hpeers : g.HasPeers self) (received : List Message)
    (hreceived : ∀ msg, msg ∈ received ↔ msg ∈ (g.failoverToMaster self masterID).1)
    (epoch : UInt64) (slots : List UInt16) :
    (∀ s, g.Takes masterID s →
      (received.foldl handleMessage p).slots.getSlotNode s = self ∧
      ((received.foldl handleMessage p).processNodeInfo
        (oldMasterInfo masterID epoch slots) true).slots.getSlotNode s = self ∧
      ((g.failoverToMaster self masterID).2.processNodeInfo
        (oldMasterInfo masterID epoch slots) true).slots.getSlotNode s = self) ↔
    ∀ s, g.Takes masterID s →
      ((p.register s).Accepts (g.currentEpoch + 1).toNat ∨ p.slots.getSlotNode s = self) ∧
      (s ∈ slots →
        (0 < max (p.seenEpoch s).toNat (g.currentEpoch + 1).toNat ∧
          epoch.toNat ≤ max (p.seenEpoch s).toNat (g.currentEpoch + 1).toNat) ∧
        (0 < max (g.slotEpochs s).toNat (g.currentEpoch + 1).toNat ∧
          epoch.toNat ≤ max (g.slotEpochs s).toNat (g.currentEpoch + 1).toNat)) := by
  refine forall_congr' fun s => imp_congr_right fun htakes => ?_
  have hpeer := register_failover (p := p) hne hpeers hreceived htakes
  have hself := register_self_failover hne htakes
  generalize received.foldl handleMessage p = p' at hpeer ⊢
  generalize (g.failoverToMaster self masterID).2 = g' at hself ⊢
  have hpeerEpoch : (p'.register s).epoch = max (p.seenEpoch s).toNat (g.currentEpoch + 1).toNat := by
    rw [hpeer, epoch_claim]
    rfl
  have hselfOwner : (g'.register s).owner = self := by rw [hself]
  have hselfEpoch : (g'.register s).epoch =
      max (g.slotEpochs s).toNat (g.currentEpoch + 1).toNat := by rw [hself]
  have hbelieved : p'.slots.getSlotNode s = self ↔
      (p.register s).Accepts (g.currentEpoch + 1).toNat ∨ p.slots.getSlotNode s = self := by
    rw [← register_owner, hpeer]
    exact owner_claim_eq_iff
  have hkept : ∀ q : Gossip, (q.register s).owner = self →
      ((q.processNodeInfo (oldMasterInfo masterID epoch slots) true).slots.getSlotNode s = self ↔
        (s ∈ slots → 0 < (q.register s).epoch ∧ epoch.toNat ≤ (q.register s).epoch)) := by
    intro q hown
    rw [← register_owner, register_oldMaster htakes.2.1]
    by_cases hmem : s ∈ slots
    · rw [if_pos hmem, owner_claim_of_ne hown hne]
      simp [hmem]
    · simp [hmem, hown]
  constructor
  · rintro ⟨hpeerOwner, hpeerKept, hselfKept⟩
    refine ⟨hbelieved.1 hpeerOwner, fun hmem => ⟨?_, ?_⟩⟩
    · rw [← hpeerEpoch]
      exact (hkept _ hpeerOwner).1 hpeerKept hmem
    · rw [← hselfEpoch]
      exact (hkept _ hselfOwner).1 hselfKept hmem
  · rintro ⟨hbelieve, hold⟩
    have hpeerOwner := hbelieved.2 hbelieve
    refine ⟨hpeerOwner, (hkept _ hpeerOwner).2 fun hmem => ?_, (hkept _ hselfOwner).2 fun hmem => ?_⟩
    · rw [hpeerEpoch]
      exact (hold hmem).1
    · rw [hselfEpoch]
      exact (hold hmem).2

/-- A node that knows `p`, and `m` as the owner of slot 0. -/
def knowsMaster : Gossip :=
  { nodes := (∅ : GoMap String GossipNode).insert "p" {}
    slots :=
      { slots := update (fun _ => {}) 0 { nodeID := "m", primaryID := "m" }
        nodeSlots := (∅ : GoMap String (List UInt16)).insert "m" [0] }
    slotEpochs := fun _ => 0
    currentEpoch := 0 }

lemma knowsMaster_slots (s : UInt16) : knowsMaster.slots.slots s =
    if s = 0 then { nodeID := "m", primaryID := "m" } else {} := by
  simp [knowsMaster, update_apply]

lemma knowsMaster_hasPeers : knowsMaster.HasPeers "r" :=
  ⟨"p", by simp [knowsMaster, Finmap.mem_keys], by decide, by simp [knowsMaster]⟩

lemma knowsMaster_takes : knowsMaster.Takes "m" 0 := ⟨by simp [knowsMaster, listedSlots], by decide, rfl⟩

theorem failover_dominates_slot_zero :
    (((knowsMaster.failoverToMaster "r" "m").1.foldl handleMessage knowsMaster).processNodeInfo
      (oldMasterInfo "m" 1 [0]) true).slots.getSlotNode 0 = "r" := by
  refine ((failover_dominates_iff knowsMaster knowsMaster "r" "m" (by decide) knowsMaster_hasPeers _
    (fun _ => Iff.rfl) 1 [0]).2 ?_ 0 knowsMaster_takes).2.1
  rintro s ⟨hs, -, -⟩
  have hzero : s = 0 := by simpa [knowsMaster, listedSlots] using hs
  subst hzero
  refine ⟨Or.inl ?_, fun _ => ?_⟩
  · decide
  · decide

/-- The peer has accepted `m` for the slot under epoch 5; the new master counts from its own 0. -/
theorem failover_refused :
    ∃ g p : Gossip, ∃ received : List Message, g.HasPeers "r" ∧ g.Takes "m" 0 ∧
      (∀ msg, msg ∈ received ↔ msg ∈ (g.failoverToMaster "r" "m").1) ∧
      (received.foldl handleMessage p).slots.getSlotNode 0 = "m" := by
  refine ⟨knowsMaster, { knowsMaster with slotEpochs := fun _ => 5 },
    (knowsMaster.failoverToMaster "r" "m").1, knowsMaster_hasPeers, knowsMaster_takes,
    fun _ => Iff.rfl, ?_⟩
  rw [← register_owner, register_failover (by decide) knowsMaster_hasPeers (fun _ => Iff.rfl)
    knowsMaster_takes]
  decide

end AutoCache.Cluster.Gossip
