import AutoCache.Protocol.KeyMove

/-!
# The operator moves a slot (`ScaleManager.moveSlot`)

The operator marks the slot on both nodes, asks the source for keys and has it migrate each of them until
none is left, and gives the slot to the target, there first. Every step below sends one command. When a
command fails the operator resets the marks on both nodes; keys that have left the source stay away.

The nodes are asked for nothing else while the move goes on, and the clock stands still.
-/

namespace AutoCache

open Cluster Protocol MoveView Runs Finset Store Function

namespace World

variable {w : World} {key : Bytes}

lemma has_of_entry {now : Int} {entry : Value × Int} (h : w.entry key now = some entry) : w.has key := by
  unfold World.entry at h
  unfold has
  cases hstr : (w key).str with
  | some slot => rfl
  | none =>
    rw [hstr] at h
    obtain ⟨o, hobj, -⟩ := Option.map_eq_some_iff.1 h
    rw [hobj]
    rfl

lemma has_del_iff {keys : List Bytes} : (w.del keys).has key ↔ key ∉ keys ∧ w.has key := by
  unfold has
  rw [del_apply]
  by_cases hkey : key ∈ keys <;> simp [hkey]

end World

/-! ## The commands -/

namespace Protocol

/-- `MIGRATE`, all steps of the move at once, and whether the reply is an error. -/
def KeyMove.migrate (mv : KeyMove) (s : MoveState) : Go (Except String Unit × MoveState) := do
  let s ← mv.advance s
  match s.phase with
  | .read _ expireAt =>
    let s ← mv.advance s
    match s.phase with
    | .sending _ _ =>
      let s ← mv.advance s
      match s.phase with
      | .deleting =>
        let s ← mv.advance s
        return (.ok (), s)
      | _ => return (.error "ERR target node returned error", s)
    | _ =>
      -- the reply `NOKEY` is no error
      if KeyMove.millisLeft s.now expireAt < 0 then return (.ok (), s)
      else return (.error "ERR unsupported value type for migration", s)
  | _ => return (.error "ERR no such key", s)

/-- The subcommands of `CLUSTER SETSLOT`. -/
inductive SetSlot where
  | migrating (targetNodeID : String)
  | importing (sourceNodeID : String)
  | node (newOwnerID : String)
  | stable
  deriving DecidableEq

def SetSlot.change (slot : UInt16) (sm : SlotManager) : SetSlot → Go SlotManager
  | migrating targetNodeID => sm.setExporting slot targetNodeID
  | importing sourceNodeID => sm.setImporting slot sourceNodeID
  | node newOwnerID => sm.finishMigration slot newOwnerID
  | stable => sm.setStable slot

def clusterSetSlot {σ : Type} (slot : UInt16) (sub : SetSlot) (n : Member σ) :
    Go (Except String Unit × Member σ) := do
  if slotCount ≤ slot then return (.error "ERR Invalid slot", n)
  let slots ← sub.change slot n.gossip.slots
  let gossip : Gossip := { n.gossip with slots }
  return (.ok (), { n with gossip := if sub = .stable then gossip else gossip.incrementEpoch })

/-- Who owns the slot after the command, and how it is marked. -/
def SetSlot.owner (before : String) : SetSlot → String
  | node newOwnerID => newOwnerID
  | _ => before

def SetSlot.state : SetSlot → SlotState
  | migrating _ => .exporting
  | importing _ => .importing
  | node _ | stable => .normal

lemma clusterSetSlot_of_lt {σ : Type} {slot : UInt16} (h : slot < slotCount) (sub : SetSlot) (n : Member σ) :
    ∃ n', clusterSetSlot slot sub n = .ok (.ok (), n') ∧ n'.store = n.store ∧
      (n'.gossip.slots.slots slot).nodeID = sub.owner (n.gossip.slots.slots slot).nodeID ∧
      (n'.gossip.slots.slots slot).state = sub.state := by
  have hin : ¬ slotCount ≤ slot := UInt16.not_le.2 h
  obtain ⟨sm, hsm, hown, hstate⟩ : ∃ sm, sub.change slot n.gossip.slots = .ok sm ∧
      (sm.slots slot).nodeID = sub.owner (n.gossip.slots.slots slot).nodeID ∧
      (sm.slots slot).state = sub.state := by
    cases sub with
    | node newOwnerID =>
      obtain ⟨sm, hsm, hsl⟩ := n.gossip.slots.finishMigration_of_lt newOwnerID h
      exact ⟨sm, hsm, by rw [hsl, update_self]; exact ⟨rfl, rfl⟩⟩
    | _ =>
      refine ⟨_, if_neg hin, ?_⟩
      rw [SlotManager.modify_slots, update_self]
      exact ⟨rfl, rfl⟩
  refine ⟨{ n with gossip := if sub = .stable then { n.gossip with slots := sm }
    else ({ n.gossip with slots := sm } : Gossip).incrementEpoch }, ?_, rfl, ?_⟩
  · simp only [clusterSetSlot, if_neg hin, hsm]
    rfl
  · split <;> exact ⟨hown, hstate⟩

namespace KeyMove

lemma millisLeft_nonneg {s : Store Cache} {now : Int} {key : Bytes} {value : Value} {expireAt : Int}
    (h : (s.live now).entry key now = some (value, expireAt)) : 0 ≤ millisLeft now expireAt := by
  have hleft : expireAt = 0 ∨ now ≤ expireAt := by
    unfold World.entry at h
    cases hstr : (s.live now key).str with rw [hstr] at h
    | some slot =>
      obtain ⟨-, rfl⟩ := Prod.mk.inj (Option.some.inj h)
      cases slot.ttl now with
      | none => exact .inl rfl
      | some ttl =>
        dsimp only
        split
        · exact .inr (by omega)
        · exact .inl rfl
    | none =>
      obtain ⟨o, hobj, heq⟩ := Option.map_eq_some_iff.1 h
      obtain ⟨-, rfl⟩ := Prod.mk.inj heq
      have hlive : ¬ o.expired now := by simpa using (Option.filter_eq_some_iff.1 hobj).2
      split
      · next hpos =>
        refine .inr ?_
        by_contra hpast
        exact hlive ⟨by omega, by omega⟩
      · exact .inl rfl
  unfold millisLeft
  split
  · exact le_rfl
  · refine Int.tdiv_nonneg ?_ (by decide)
    unfold timeUntil
    omega

lemma advance_view (mv : KeyMove) (s : MoveState) :
    ∃ s', mv.advance s = .ok s' ∧ s'.view = mv.advanceView s.view := mv.step_view s .move

/-- **What `MIGRATE` has done when its reply is no error**: the key was there, and has left. -/
lemma migrate_spec (mv : KeyMove) (now : Int) (source target : Store Cache) :
    ∃ r s', mv.migrate { now, source, target } = .ok (r, s') ∧ (r = .ok () → (source.live now).has mv.key ∧
        s'.source.live now = (source.live now).del [mv.key]) := by
  obtain ⟨s₁, h₁, hview₁⟩ := mv.advance_view { now, source, target }
  unfold migrate
  rw [h₁, Go.ok_bind]
  simp only [advanceView, MoveState.view] at hview₁
  cases hent : (source.live now).entry mv.key now with
  | none =>
    rw [hent] at hview₁
    have hph : s₁.phase = .absent := congrArg phase hview₁
    rw [hph]
    exact ⟨_, s₁, rfl, by simp⟩
  | some entry =>
    obtain ⟨value, expireAt⟩ := entry
    have hleft := not_lt.2 (millisLeft_nonneg hent)
    rw [hent] at hview₁
    have hph₁ : s₁.phase = .read value expireAt := congrArg phase hview₁
    obtain ⟨s₂, h₂, hview₂⟩ := mv.advance_view s₁
    rw [show s₁.view = _ from hview₁] at hview₂
    simp only [advanceView, if_neg hleft] at hview₂
    rw [hph₁]
    dsimp only
    rw [h₂, Go.ok_bind]
    cases hserial : mv.serialize value with rw [hserial] at hview₂
    | none =>
      have hph₂ : s₂.phase = .done := congrArg phase hview₂
      have hnow : s₂.now = now := congrArg MoveView.now hview₂
      rw [hph₂, hnow, if_neg hleft]
      exact ⟨_, s₂, rfl, by simp⟩
    | some serialized =>
      have hph₂ : s₂.phase = .sending (millisLeft now expireAt) serialized :=
        congrArg phase hview₂
      obtain ⟨s₃, h₃, hview₃⟩ := mv.advance_view s₂
      rw [show s₂.view = _ from hview₂] at hview₃
      simp only [advanceView] at hview₃
      rw [hph₂]
      rw [h₃, Go.ok_bind]
      cases hrestored : mv.restored now (millisLeft now expireAt) serialized (target.live now) with
      | mk taken w =>
        rw [hrestored] at hview₃
        cases taken with
        | false =>
          have hph₃ : s₃.phase = .done := congrArg phase hview₃
          rw [hph₃]
          exact ⟨_, s₃, rfl, by simp⟩
        | true =>
          have hph₃ : s₃.phase = .deleting := congrArg phase hview₃
          obtain ⟨s₄, h₄, hview₄⟩ := mv.advance_view s₃
          rw [show s₃.view = _ from hview₃] at hview₄
          rw [hph₃]
          rw [h₄, Go.ok_bind]
          have hnow : s₄.now = now := congrArg MoveView.now hview₄
          have hsrc : s₄.source.live s₄.now = (source.live now).del [mv.key] :=
            congrArg MoveView.source hview₄
          rw [hnow] at hsrc
          refine ⟨_, s₄, rfl, fun _ => ⟨?_, hsrc⟩⟩
          exact World.has_of_entry hent

end KeyMove

end Protocol

/-! ## The operator -/

namespace Controllers

/-- Why `moveSlot` gives up: a command got no answer, or an error for an answer. -/
inductive MoveError where
  | failed
  | refused (text : String)

/-- The command that comes next. -/
inductive MoveStage where
  | markTarget
  | markSource
  | list
  | keys (key : Bytes) (rest : List Bytes)
  | nodeTarget
  | nodeSource
  | returned (err : Option MoveError)

/-- The keys come next, if there are any. -/
def MoveStage.orKeys (stage : MoveStage) : List Bytes → MoveStage
  | [] => stage
  | key :: rest => .keys key rest

/-- Both nodes, and how far the operator is. -/
structure Progress where
  source : Member Cache
  target : Member Cache
  stage : MoveStage

/-- The move of a slot that the source owns on both nodes. `move` has the configurations of the nodes. -/
structure SlotMove where
  move : KeyMove
  now : Int
  slot : UInt16
  sourceID : String
  targetID : String
  source : Member Cache
  target : Member Cache
  slot_lt : slot < slotCount
  ids_ne : sourceID ≠ targetID
  source_owner : (source.gossip.slots.slots slot).nodeID = sourceID
  target_owner : (target.gossip.slots.slots slot).nodeID = sourceID
  source_normal : (source.gossip.slots.slots slot).state = .normal
  target_normal : (target.gossip.slots.slots slot).state = .normal
  indexed : ∀ key ∈ (source.store.slotIndex.lookup slot).getD ∅, move.source.view.keySlot key = slot

namespace SlotMove

variable (m : SlotMove)

def start : Progress := ⟨m.source, m.target, .markTarget⟩

/-- `MIGRATE host port key 0 5000 REPLACE` -/
def keyMove (key : Bytes) : KeyMove := { m.move with key, replace := true, deletesExpired := false }

/-- The next command, and where the operator is when it succeeds. -/
def perform (s : Progress) : Go (Except String Unit × Progress) :=
  match s.stage with
  | .markTarget => do
    let (r, target) ← clusterSetSlot m.slot (.importing m.sourceID) s.target
    return (r, { s with target, stage := .markSource })
  | .markSource => do
    let (r, source) ← clusterSetSlot m.slot (.migrating m.targetID) s.source
    return (r, { s with source, stage := .list })
  | .list => do
    let (keys, store) ← keysInSlot m.move.source.engine m.slot 100 m.now s.source.store
    return (.ok (), { s with source := { s.source with store }, stage := .orKeys .nodeTarget keys })
  | .keys key rest => do
    let (r, after) ← (m.keyMove key).migrate ⟨m.now, s.source.store, s.target.store, .idle, none⟩
    return (r, ⟨{ s.source with store := after.source }, { s.target with store := after.target },
      .orKeys .list rest⟩)
  | .nodeTarget => do
    let (r, target) ← clusterSetSlot m.slot (.node m.targetID) s.target
    return (r, { s with target, stage := .nodeSource })
  | .nodeSource => do
    let (r, source) ← clusterSetSlot m.slot (.node m.targetID) s.source
    return (r, { s with source, stage := .returned none })
  | .returned _ => return (.ok (), s)

def rollbackSlotMove (s : Progress) (err : MoveError) : Go Progress := do
  let (_, source) ← clusterSetSlot m.slot .stable s.source
  let (_, target) ← clusterSetSlot m.slot .stable s.target
  return ⟨source, target, .returned (some err)⟩

/-- The first command has nothing to roll back. -/
def giveUp (s : Progress) (err : MoveError) : Go Progress :=
  match s.stage with
  | .markTarget => return { s with stage := .returned (some err) }
  | _ => m.rollbackSlotMove s err

/-- `moveSlot` sends the next command, which may fail without effect. -/
def step (s : Progress) (fails : Bool) : Go Progress :=
  match s.stage with
  | .returned _ => return s
  | _ =>
    if fails then m.giveUp s .failed
    else do
      match ← m.perform s with
      | (.ok (), s') => return s'
      | (.error text, s') => m.giveUp { s' with stage := s.stage } (.refused text)

/-- The store of the node that the source names as the owner. -/
def ownerStore (s : Progress) : Store Cache :=
  if s.source.gossip.slots.getSlotNode m.slot = m.targetID then s.target.store else s.source.store

/-- **All or nothing**: one owner, no marks, and every key that was live is on the owner. -/
structure Intact (s : Progress) : Prop where
  owner : s.source.gossip.slots.getSlotNode m.slot = s.target.gossip.slots.getSlotNode m.slot
  source_normal : (s.source.gossip.slots.slots m.slot).state = .normal
  target_normal : (s.target.gossip.slots.slots m.slot).state = .normal
  keys : ∀ key, m.move.source.view.keySlot key = m.slot → (m.source.store.live m.now).has key →
    ((m.ownerStore s).live m.now).has key

/-- Both nodes name the target. -/
def HandedOver (s : Progress) : Prop :=
  s.source.gossip.slots.getSlotNode m.slot = m.targetID ∧
    s.target.gossip.slots.getSlotNode m.slot = m.targetID

/-- A key of the slot has left the source. -/
def Moved (s : Progress) : Prop :=
  ∃ key, m.move.source.view.keySlot key = m.slot ∧ (m.source.store.live m.now).has key ∧
    ¬ (s.source.store.live m.now).has key

/-- The source still shows all keys. -/
def Unmoved (s : Progress) : Prop := s.source.store.live m.now = m.source.store.live m.now

/-- Where the operator is after `i` commands. Only the first four leave all keys on the source. -/
def At (i : ℕ) (s : Progress) : Prop :=
  match s.stage with
  | .markTarget => i = 0 ∧ s = m.start
  | .markSource => i = 1 ∧ s.source.store = m.source.store
  | .list => i = 2 ∧ s.source.store = m.source.store ∨ 4 ≤ i ∧ m.Moved s
  | .keys key _ => i = 3 ∧ m.move.source.view.keySlot key = m.slot ∧ m.Unmoved s ∨ 4 ≤ i ∧ m.Moved s
  | .nodeTarget => i = 3 ∧ m.Unmoved s ∨ 4 ≤ i ∧ m.Moved s
  | .nodeSource => 4 ≤ i
  | .returned _ => False

/-- The owner that the target names. -/
def targetNames : MoveStage → String
  | .nodeSource => m.targetID
  | _ => m.sourceID

/-- `i` commands have succeeded, and there is one more to send. -/
structure Underway (i : ℕ) (s : Progress) : Prop where
  at_stage : m.At i s
  source_owner : (s.source.gossip.slots.slots m.slot).nodeID = m.sourceID
  target_owner : (s.target.gossip.slots.slots m.slot).nodeID = m.targetNames s.stage
  shrinks : ∀ key, (s.source.store.live m.now).has key → (m.source.store.live m.now).has key

/-- The end, if no command fails but for an error reply. -/
def Returned (s : Progress) : Prop :=
  s.stage = .returned none ∧ m.HandedOver s ∨ ∃ text, s.stage = .returned (some (.refused text))

/-- The keys of the source that are left. -/
def keysLeft (store : Store Cache) : Finset Bytes :=
  (m.source.store.shards.keys ∪ m.source.store.objects.keys).filter fun key => (store.live m.now).has key

/-- A bound on the commands still to come: with the list of keys and the last two, no key takes more than
two. -/
def weight (s : Progress) : ℕ :=
  match s.stage with
  | .markTarget => 3 * (m.keysLeft s.source.store).card + 5
  | .markSource => 3 * (m.keysLeft s.source.store).card + 4
  | .list => 3 * (m.keysLeft s.source.store).card + 3
  | .keys _ _ => 3 * (m.keysLeft s.source.store).card + 2
  | .nodeTarget => 2
  | .nodeSource => 1
  | .returned _ => 0

variable {m} {i : ℕ} {s s' : Progress}

lemma getSlotNode_eq (sm : SlotManager) : sm.getSlotNode m.slot = (sm.slots m.slot).nodeID :=
  SlotManager.getSlotNode_of_lt m.slot_lt

/-- Either all keys are still there, or one has left, or the target has been told that it owns the slot. -/
lemma Underway.keys (h : m.Underway i s) : i ≤ 3 ∧ m.Unmoved s ∧ m.targetNames s.stage = m.sourceID ∨
      4 ≤ i ∧ (m.Moved s ∨ m.targetNames s.stage = m.targetID) := by
  have hat := h.at_stage
  unfold At at hat
  cases hstage : s.stage <;> simp only [hstage] at hat
  case markTarget =>
    obtain ⟨rfl, rfl⟩ := hat
    exact .inl ⟨by omega, rfl, rfl⟩
  case markSource => exact .inl ⟨by omega, congrArg (live · m.now) hat.2, rfl⟩
  case nodeSource => exact .inr ⟨hat, .inr rfl⟩
  all_goals
    rcases hat with ⟨hi, hkept⟩ | ⟨hi, hmoved⟩
    swap
    · exact .inr ⟨hi, .inl hmoved⟩
  case list => exact .inl ⟨by omega, congrArg (live · m.now) hkept, rfl⟩
  case keys => exact .inl ⟨by omega, hkept.2, rfl⟩
  case nodeTarget => exact .inl ⟨by omega, hkept, rfl⟩

lemma Underway.step_eq (h : m.Underway i s) (fails : Bool) : m.step s fails = if fails then m.giveUp s .failed
      else m.perform s >>= fun
        | (.ok (), s') => return s'
        | (.error text, s') => m.giveUp { s' with stage := s.stage } (.refused text) := by
  have hat := h.at_stage
  unfold step
  cases hstage : s.stage with
  | returned err => simp only [At, hstage] at hat
  | _ => rfl

/-! ## Giving up -/

lemma giveUp_spec (m : SlotMove) (s : Progress) (err : MoveError) :
    ∃ s', m.giveUp s err = .ok s' ∧ s'.stage = .returned (some err) ∧ s'.source.store = s.source.store ∧
      (s'.source.gossip.slots.slots m.slot).nodeID = (s.source.gossip.slots.slots m.slot).nodeID ∧
      (s'.target.gossip.slots.slots m.slot).nodeID = (s.target.gossip.slots.slots m.slot).nodeID ∧
      (s.stage = .markTarget ∧ s'.source = s.source ∧ s'.target = s.target ∨
        (s'.source.gossip.slots.slots m.slot).state = .normal ∧ (s'.target.gossip.slots.slots m.slot).state = .normal) := by
  obtain ⟨source, hsrc, hsto, hown, hstate⟩ := clusterSetSlot_of_lt m.slot_lt .stable s.source
  obtain ⟨target, htgt, -, hown', hstate'⟩ := clusterSetSlot_of_lt m.slot_lt .stable s.target
  have hback : m.rollbackSlotMove s err = .ok ⟨source, target, .returned (some err)⟩ := by
    simp only [rollbackSlotMove, hsrc, htgt, Go.ok_bind]
    rfl
  unfold giveUp
  cases hstage : s.stage <;> dsimp only
  case markTarget => exact ⟨_, rfl, rfl, rfl, rfl, rfl, .inl ⟨rfl, rfl, rfl⟩⟩
  all_goals exact ⟨_, hback, rfl, hsto, hown, hown', .inr ⟨hstate, hstate'⟩⟩

/-- **A command fails**: all is as it was exactly if it is one of the first four. -/
lemma Underway.fails (h : m.Underway i s) :
    ∃ s', m.step s true = .ok s' ∧ s'.stage = .returned (some .failed) ∧ (m.Intact s' ↔ i ≤ 3) := by
  obtain ⟨s', hgive, hstage', hsto, hown, hown', hstate⟩ := m.giveUp_spec s .failed
  refine ⟨s', (h.step_eq true).trans hgive, hstage', ?_⟩
  rw [h.source_owner] at hown
  rw [h.target_owner] at hown'
  have hkept : m.ownerStore s' = s.source.store := by
    rw [ownerStore, getSlotNode_eq, hown, if_neg m.ids_ne, hsto]
  rcases h.keys with ⟨hi, hlive, hnames⟩ | ⟨hi, hmoved⟩
  · have hnormal : (s'.source.gossip.slots.slots m.slot).state = .normal ∧
        (s'.target.gossip.slots.slots m.slot).state = .normal := by
      rcases hstate with ⟨hmark, hs, ht⟩ | hnormal
      · have hat := h.at_stage
        simp only [At, hmark] at hat
        rw [hs, ht, hat.2]
        exact ⟨m.source_normal, m.target_normal⟩
      · exact hnormal
    refine iff_of_true ⟨?_, hnormal.1, hnormal.2, fun key _ hkey => ?_⟩ hi
    · rw [getSlotNode_eq, getSlotNode_eq, hown, hown', hnames]
    · rw [hkept, show s.source.store.live m.now = _ from hlive]
      exact hkey
  · refine iff_of_false (fun hintact => ?_) (by omega)
    rcases hmoved with ⟨key, hslot, hlive, hgone⟩ | hnames
    · have := hintact.keys key hslot hlive
      rw [hkept] at this
      exact hgone this
    · have := hintact.owner
      rw [getSlotNode_eq, getSlotNode_eq, hown, hown', hnames] at this
      exact m.ids_ne this

/-! ## Going on -/

lemma mem_keys_of_has {st : Store Cache} {t : Int} {key : Bytes} (h : (st.live t).has key) :
    key ∈ st.shards.keys ∪ st.objects.keys := by
  by_contra hmem
  rw [mem_union, not_or, Finmap.mem_keys, Finmap.mem_keys, ← Finmap.lookup_eq_none, ← Finmap.lookup_eq_none] at hmem
  simp [World.has, live, hmem] at h

lemma card_keysLeft_lt {store : Store Cache} {key : Bytes} (h : m.Underway i s) (hkey : (s.source.store.live m.now).has key)
    (hdel : store.live m.now = (s.source.store.live m.now).del [key]) :
    (m.keysLeft store).card < (m.keysLeft s.source.store).card := by
  refine card_lt_card (ssubset_iff_of_subset ?_ |>.2 ⟨key, ?_, ?_⟩)
  · intro k hk
    rw [keysLeft, mem_filter, hdel, World.has_del_iff] at hk
    exact mem_filter.2 ⟨hk.1, hk.2.2⟩
  · exact mem_filter.2 ⟨mem_keys_of_has (h.shrinks key hkey), hkey⟩
  · rw [keysLeft, mem_filter, hdel, World.has_del_iff]
    exact fun hk => hk.2.1 List.mem_cons_self

variable (m) in
/-- The next command is answered. If the answer is no error, the operator has come closer to the end. -/
def Goes (i : ℕ) (s : Progress) : Prop :=
  ∃ r s', m.perform s = .ok (r, s') ∧
    (r = .ok () → (m.Underway (i + 1) s' ∨ m.Returned s') ∧ m.weight s' < m.weight s)

open SlotMove

section

variable (h : m.Underway i s)
include h

/-- `GETKEYSINSLOT` changes nothing. The keys of the first list are all there. -/
lemma Underway.goes_list (hstage : s.stage = .list) : m.Goes i s := by
  have hat := h.at_stage
  have htgt := h.target_owner
  simp only [At, hstage] at hat htgt
  obtain ⟨store, hkeys, hlive⟩ := @keysInSlot_first m.move.sourceConfig m.now s.source.store m.slot 100
  rw [← m.move.source_engine] at hkeys
  have hsub := firstKeys_sublist 100 (s.source.store.slotKeys m.slot m.now)
  generalize firstKeys 100 _ = keys at hkeys hsub
  have hshrinks : ∀ key, (store.live m.now).has key → (m.source.store.live m.now).has key := by
    rw [hlive]
    exact h.shrinks
  have hmoved : m.Moved s → ∀ stage, m.Moved ⟨⟨s.source.gossip, store⟩, s.target, stage⟩ := by
    rintro ⟨key, hslot, hbefore, hgone⟩ stage
    refine ⟨key, hslot, hbefore, ?_⟩
    rw [hlive]
    exact hgone
  have hunmoved : s.source.store = m.source.store → store.live m.now = m.source.store.live m.now :=
    fun hsto => by rw [hlive, hsto]
  unfold Goes perform
  rw [hstage]
  rw [hkeys]
  cases keys with
  | nil =>
    refine ⟨_, ⟨⟨s.source.gossip, store⟩, s.target, .nodeTarget⟩, rfl, fun _ =>
      ⟨.inl ⟨?_, h.source_owner, htgt, hshrinks⟩, ?_⟩⟩
    · rcases hat with ⟨hi, hsto⟩ | ⟨hi, hm⟩
      · exact .inl ⟨by omega, hunmoved hsto⟩
      · exact .inr ⟨by omega, hmoved hm _⟩
    · simp only [weight, hstage]
      omega
  | cons key rest =>
    refine ⟨_, ⟨⟨s.source.gossip, store⟩, s.target, .keys key rest⟩, rfl, fun _ =>
      ⟨.inl ⟨?_, h.source_owner, htgt, hshrinks⟩, ?_⟩⟩
    · rcases hat with ⟨hi, hsto⟩ | ⟨hi, hm⟩
      · refine .inl ⟨by omega, m.indexed key ?_, hunmoved hsto⟩
        rw [← hsto]
        exact (mem_sort _).1 (List.mem_of_mem_filter (hsub.subset List.mem_cons_self))
      · exact .inr ⟨by omega, hmoved hm _⟩
    · simp only [weight, hstage, keysLeft, hlive]
      omega

lemma Underway.goes_keys {key : Bytes} {rest : List Bytes} (hstage : s.stage = .keys key rest) : m.Goes i s := by
  have hat := h.at_stage
  have htgt := h.target_owner
  simp only [At, hstage] at hat htgt
  obtain ⟨r, after, hrun, hdone⟩ := (m.keyMove key).migrate_spec m.now s.source.store s.target.store
  unfold Goes perform
  rw [hstage]
  dsimp only
  rw [hrun]
  refine ⟨r, ⟨⟨s.source.gossip, after.source⟩, ⟨s.target.gossip, after.target⟩, .orKeys .list rest⟩, rfl, fun hr => ?_⟩
  obtain ⟨hkey, hdel⟩ := hdone hr
  have hhas : ∀ k, (after.source.live m.now).has k ↔ k ∉ [key] ∧ (s.source.store.live m.now).has k := by
    intro k
    rw [hdel]
    exact World.has_del_iff
  have hgone : m.Moved ⟨⟨s.source.gossip, after.source⟩, ⟨s.target.gossip, after.target⟩, .list⟩ := by
    rcases hat with ⟨-, hslot, -⟩ | ⟨-, k, hslot, hbefore, hk⟩
    · exact ⟨key, hslot, h.shrinks key hkey, fun hk => ((hhas key).1 hk).1 List.mem_cons_self⟩
    · exact ⟨k, hslot, hbefore, fun hk' => hk ((hhas k).1 hk').2⟩
  have hi : 4 ≤ i + 1 := by omega
  have hless := card_keysLeft_lt h hkey hdel
  have hshrinks : ∀ k, (after.source.live m.now).has k → (m.source.store.live m.now).has k :=
    fun k hk => h.shrinks k ((hhas k).1 hk).2
  cases rest with
  | nil | cons k rest =>
    refine ⟨.inl ⟨.inr ⟨hi, hgone⟩, h.source_owner, htgt, hshrinks⟩, ?_⟩
    simp only [weight, hstage, MoveStage.orKeys]
    omega

/-- **A command is answered.** -/
lemma Underway.goes : m.Goes i s := by
  have hat := h.at_stage
  have htgt := h.target_owner
  have hset := fun sub n => @clusterSetSlot_of_lt Cache m.slot m.slot_lt sub n
  cases hstage : s.stage <;> simp only [At, hstage] at hat htgt
  case markTarget =>
    obtain ⟨target, hrun, -, hown, -⟩ := hset (.importing m.sourceID) s.target
    obtain ⟨rfl, rfl⟩ := hat
    refine ⟨.ok (), ⟨m.source, target, .markSource⟩, ?_, fun _ => ⟨.inl ?_, ?_⟩⟩
    · simp only [perform, hstage, hrun]
      rfl
    · exact ⟨⟨rfl, rfl⟩, h.source_owner, hown.trans htgt, h.shrinks⟩
    · exact Nat.lt_succ_self _
  case markSource =>
    obtain ⟨source, hrun, hsto, hown, -⟩ := hset (.migrating m.targetID) s.source
    refine ⟨.ok (), ⟨source, s.target, .list⟩, ?_, fun _ => ⟨.inl ⟨?_, ?_, htgt, ?_⟩, ?_⟩⟩
    · simp only [perform, hstage, hrun]
      rfl
    · exact .inl ⟨by omega, hsto.trans hat.2⟩
    · exact hown.trans h.source_owner
    · rw [hsto]
      exact h.shrinks
    · simp only [weight, hstage]
      rw [hsto]
      omega
  case list => exact h.goes_list hstage
  case keys key rest => exact h.goes_keys hstage
  case nodeTarget =>
    obtain ⟨target, hrun, -, hown, -⟩ := hset (.node m.targetID) s.target
    refine ⟨.ok (), ⟨s.source, target, .nodeSource⟩, ?_, fun _ =>
      ⟨.inl ⟨?_, h.source_owner, hown, h.shrinks⟩, ?_⟩⟩
    · simp only [perform, hstage, hrun]
      rfl
    · have hi : 4 ≤ i + 1 := by omega
      exact hi
    · simp only [weight, hstage]
      omega
  case nodeSource =>
    obtain ⟨source, hrun, -, hown, -⟩ := hset (.node m.targetID) s.source
    refine ⟨.ok (), ⟨source, s.target, .returned none⟩, ?_, fun _ => ⟨.inr (.inl ⟨rfl, ?_, ?_⟩), ?_⟩⟩
    · simp only [perform, hstage, hrun]
      rfl
    · exact (getSlotNode_eq _).trans hown
    · exact (getSlotNode_eq _).trans htgt
    · simp only [weight, hstage]
      omega

/-- **One command**: the move goes on or is over. -/
lemma Underway.step : ∃ s', m.step s false = .ok s' ∧ (m.Underway (i + 1) s' ∨ m.Returned s') ∧ m.weight s' < m.weight s := by
  obtain ⟨r, s₁, hrun, hdone⟩ := h.goes
  rw [h.step_eq, if_neg (by simp), hrun, Go.ok_bind]
  cases r with
  | ok u => exact ⟨s₁, rfl, hdone rfl⟩
  | error text =>
    obtain ⟨s', hgive, hstage', -⟩ := m.giveUp_spec { s₁ with stage := s.stage } (.refused text)
    refine ⟨s', hgive, .inr (.inr ⟨text, hstage'⟩), ?_⟩
    have hat := h.at_stage
    cases hstage : s.stage <;> simp only [At, weight, hstage, hstage'] at hat ⊢ <;> omega

end

lemma Returned.step (h : m.Returned s) (fails : Bool) : m.step s fails = .ok s := by
  unfold SlotMove.step
  rcases h with ⟨hstage, -⟩ | ⟨text, hstage⟩ <;> rw [hstage] <;> rfl

/-- **Some commands**: the move is still on, or over. -/
lemma run_reached (m : SlotMove) (i : ℕ) : ∃ s, run m.step m.start (List.replicate i false) = .ok s ∧
      (m.Underway i s ∧ m.weight s + i ≤ m.weight m.start ∨ m.Returned s) := by
  induction i with
  | zero => exact ⟨m.start, rfl, .inl ⟨⟨⟨rfl, rfl⟩, m.source_owner, m.target_owner, fun _ h => h⟩, le_rfl⟩⟩
  | succ i ih =>
    obtain ⟨s, hrun, hreached⟩ := ih
    rw [List.replicate_succ', run_snoc hrun]
    rcases hreached with ⟨h, hweight⟩ | h
    · obtain ⟨s', hstep, hreached, hless⟩ := h.step
      exact ⟨s', hstep, hreached.imp_left fun h => ⟨h, by omega⟩⟩
    · exact ⟨s, h.step false, .inr h⟩

/-- **A move is all or nothing exactly if it fails early.** Without a failure it hands the slot over, after
finitely many commands. When the command after the first `i` fails and no other is refused, the owner, the
marks and the keys are as before exactly if `i ≤ 3`: later a key has left, or the target owns the slot. -/
theorem moveSlot_intact_iff (m : SlotMove) :
    (∀ i, ∃ s, run m.step m.start (List.replicate i false ++ [true]) = .ok s ∧
      (m.Returned s ∨ s.stage = .returned (some .failed) ∧ (m.Intact s ↔ i ≤ 3))) ∧
    ∃ n s, run m.step m.start (List.replicate n false) = .ok s ∧ m.Returned s := by
  constructor
  · intro i
    obtain ⟨s, hrun, hreached⟩ := m.run_reached i
    rw [run_snoc hrun]
    rcases hreached with ⟨h, -⟩ | h
    · obtain ⟨s', hstep, hstage, hintact⟩ := h.fails
      exact ⟨s', hstep, .inr ⟨hstage, hintact⟩⟩
    · exact ⟨s, h.step true, .inl h⟩
  · obtain ⟨s, hrun, ⟨h, hweight⟩ | h⟩ := m.run_reached (m.weight m.start + 1)
    · omega
    · exact ⟨_, s, hrun, h⟩

/-! ## The last command fails -/

/-- A node that names `s` as the owner of slot 0, and has no keys. -/
def emptyMember : Member Cache where
  gossip := ⟨∅, SlotManager.new.modify 0 fun info => { info with nodeID := "s" }, fun _ => 0, 0⟩
  store := ⟨∅, ∅, ∅⟩

/-- Slot 0 goes from `s` to `t`. -/
def emptyMove : SlotMove where
  move := ⟨plainLogical, plainLogical, plainNode, plainNode, plainNode_engine, plainNode_engine, [], true,
    false, fun _ => none⟩
  now := 0
  slot := 0
  sourceID := "s"
  targetID := "t"
  source := emptyMember
  target := emptyMember
  slot_lt := by decide
  ids_ne := by decide
  source_owner := rfl
  target_owner := rfl
  source_normal := rfl
  target_normal := rfl
  indexed _ h := nomatch h

/-- **Two owners.** The target has taken the slot over, the source does not hear of it. -/
theorem moveSlot_leaves_two_owners :
    ∃ s, run emptyMove.step emptyMove.start [false, false, false, false, true] = .ok s ∧
      s.stage = .returned (some .failed) ∧ s.source.gossip.slots.getSlotNode 0 = "s" ∧
      s.target.gossip.slots.getSlotNode 0 = "t" ∧ ¬ emptyMove.Intact s := by
  have hlist : ∀ gossip target, emptyMove.step ⟨⟨gossip, ⟨∅, ∅, ∅⟩⟩, target, .list⟩ false =
      .ok ⟨⟨gossip, ⟨∅, ∅, ∅⟩⟩, target, .nodeTarget⟩ := by
    intro gossip target
    change ((keysInSlot plainLogical.engine 0 100 0 ⟨∅, ∅, ∅⟩ >>= _) >>= _) = _
    rw [keysInSlot_empty]
    rfl
  refine ⟨_, (run_cons_ok rfl).trans ((run_cons_ok rfl).trans ((run_cons_ok (hlist _ _)).trans
    ((run_cons_ok rfl).trans (run_cons_ok rfl)))), rfl, rfl, rfl, fun h => ?_⟩
  exact absurd h.owner (by decide)

end SlotMove

end Controllers

end AutoCache
