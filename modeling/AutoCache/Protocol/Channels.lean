import AutoCache.Protocol.Delivery

/-!
# Two channels into one replica

Every operation is sent to a replica twice, over the persistent `REPL` connection and over the
stream of `REPLAPPLY` commands. Each channel has a goroutine that calls
`applyIncomingReplicationOp` for what arrives; the calls of the two interleave between `Begin`, the
engine call and `Commit`. `Begin` only reads the record and `Commit` only writes it, so nothing
keeps both goroutines from passing `Begin` with the same operation.
-/

namespace AutoCache.Protocol

open Replication Runs Function ReplicaApplier

inductive Channel where
  | repl
  | replApply
  deriving DecidableEq, Repr

/-- How far a call of `applyIncomingReplicationOp` has come. -/
inductive Phase where
  | idle
  /-- past `Begin` -/
  | begun (op : Op)
  /-- past the engine call -/
  | applied (op : Op)

/-- The operation a call is about, once it is past `Begin`. -/
def Phase.held : Phase → Option Op
  | .idle => none
  | .begun op => some op
  | .applied op => some op

/-- A replica, what the channels have yet to deliver, their calls, and what was applied so far. -/
structure Race (σ : Type) where
  replica : Replica σ
  feed : Channel → List Op
  phase : Channel → Phase
  applied : List Op

/-- One step of a channel's goroutine, at a moment. -/
structure Turn where
  channel : Channel
  now : Int

variable {σ : Type} {E : Engine σ} {st st' : Race σ} {t : Turn}

def Race.start (store : Store σ) (feed : Channel → List Op) : Race σ :=
  ⟨⟨store, .new⟩, feed, fun _ => .idle, []⟩

def turn (E : Engine σ) (st : Race σ) (t : Turn) : Go (Race σ) :=
  match st.phase t.channel with
  | .idle =>
    match st.feed t.channel with
    | [] => return st
    | op :: rest =>
      let st := { st with feed := update st.feed t.channel rest }
      -- a refused or skipped operation is done with
      if st.replica.applier.Passes op then
        return { st with phase := update st.phase t.channel (.begun op) }
      else return st
  | .begun op => do
    let (result, store) ← replay E t.now op st.replica.store
    let st := { st with replica := { st.replica with store } }
    match result with
    | .error _ => return { st with phase := update st.phase t.channel .idle }
    | .ok () =>
      return { st with
        phase := update st.phase t.channel (.applied op)
        applied := st.applied ++ [op] }
  | .applied op =>
    return { st with
      replica := { st.replica with applier := st.replica.applier.commit op }
      phase := update st.phase t.channel .idle }

/-- **What a turn can do.** -/
inductive Turned (st : Race σ) (c : Channel) (st' : Race σ) : Prop
  | rest (hph : st'.phase = st.phase) (happ : st'.applied = st.applied)
      (hrec : st'.replica.applier = st.replica.applier)
  | begins (op : Op) (rest : List Op) (hidle : st.phase c = .idle)
      (hfeed : st.feed c = op :: rest) (hpass : st.replica.applier.Passes op)
      (hph : st'.phase = update st.phase c (.begun op))
      (happ : st'.applied = st.applied) (hrec : st'.replica.applier = st.replica.applier)
  | fails (op : Op) (hbegun : st.phase c = .begun op)
      (hph : st'.phase = update st.phase c .idle)
      (happ : st'.applied = st.applied) (hrec : st'.replica.applier = st.replica.applier)
  | applies (op : Op) (hbegun : st.phase c = .begun op)
      (hph : st'.phase = update st.phase c (.applied op))
      (happ : st'.applied = st.applied ++ [op])
      (hrec : st'.replica.applier = st.replica.applier)
  | commits (op : Op) (happlied : st.phase c = .applied op)
      (hph : st'.phase = update st.phase c .idle)
      (happ : st'.applied = st.applied)
      (hrec : st'.replica.applier = st.replica.applier.commit op)

lemma turned (h : turn E st t = .ok st') : Turned st t.channel st' := by
  unfold turn at h
  split at h
  · next hidle =>
    split at h
    · cases h
      exact .rest rfl rfl rfl
    rename_i op rest hfeed
    dsimp only at h
    split at h
    · next hpass =>
      cases h
      exact .begins op rest hidle hfeed hpass rfl rfl rfl
    · cases h
      exact .rest rfl rfl rfl
  · next op hbegun =>
    obtain ⟨⟨result, store⟩, -, h⟩ := Go.bind_eq_ok.1 h
    cases result with
    | error err =>
      cases h
      exact .fails op hbegun rfl rfl rfl
    | ok u =>
      cases h
      exact .applies op hbegun rfl rfl rfl
  · next op happlied =>
    cases h
    exact .commits op happlied rfl rfl rfl

variable {op : Op} {c : Channel} {phase : Channel → Phase} {p : Phase}

/-- A turn that takes an operation past `Begin` finds no other call holding one of its slot. -/
def Alone (st : Race σ) (t : Turn) : Prop :=
  ∀ op rest, st.phase t.channel = .idle → st.feed t.channel = op :: rest →
    st.replica.applier.Passes op → ∀ c other, (st.phase c).held = some other → other.slot ≠ op.slot

/-- Each operation of a slot was applied once, and within an epoch in the order of numbers. -/
structure InOrder (applied : List Op) : Prop where
  once : applied.Pairwise fun op next => op.slot = next.slot → op.mark ≠ next.mark
  increasing : applied.Pairwise fun op next =>
    op.slot = next.slot → op.epoch = next.epoch → op.lsn < next.lsn

/-- At most one call holds an operation of a slot, that operation lies behind the record, and what
was applied is up to the record unless its `Commit` is due. -/
structure Exclusive (st : Race σ) : Prop where
  unique : ∀ c c' op op', (st.phase c).held = some op → (st.phase c').held = some op' →
    op.slot = op'.slot → c = c'
  ahead : ∀ c op, (st.phase c).held = some op →
    (st.replica.applier.recorded op.slot).Before op.mark
  recorded : ∀ op ∈ st.applied, op.mark = st.replica.applier.recorded op.slot ∨
    op.mark.Before (st.replica.applier.recorded op.slot) ∨ ∃ c, st.phase c = .applied op
  increasing : st.applied.Pairwise fun op next => op.slot = next.slot → op.mark.Before next.mark

lemma exclusive_start (store : Store σ) (feed : Channel → List Op) : Exclusive (Race.start store feed) := by
  constructor
  · intro c c' op op' h
    cases h
  · intro c op h
    cases h
  · intro op hop
    cases hop
  · exact List.Pairwise.nil

lemma held_update {c c' : Channel} (h : (update phase c p c').held = some op) :
    c' = c ∧ p.held = some op ∨ c' ≠ c ∧ (phase c').held = some op := by
  by_cases hc : c' = c
  · subst hc
    rw [update_self] at h
    exact Or.inl ⟨rfl, h⟩
  · rw [update_of_ne hc] at h
    exact Or.inr ⟨hc, h⟩

lemma held_of_update {c c' : Channel} (hp : p = .idle ∨ p.held = (phase c).held)
    (h : (update phase c p c').held = some op) : (phase c').held = some op := by
  rcases held_update h with ⟨rfl, hheld⟩ | ⟨-, hheld⟩
  · rcases hp with rfl | hp
    · cases hheld
    · rw [← hp, hheld]
  · exact hheld

/-- A `Commit` that is due stays due while another call moves on. -/
lemma applied_update {c c' : Channel} (h : phase c' = .applied op) (hne : phase c ≠ .applied op) :
    update phase c p c' = .applied op := by
  have hc : c' ≠ c := by
    rintro rfl
    exact hne h
  rw [update_of_ne hc, h]

section

variable (hst : Exclusive st)
include hst

lemma Exclusive.begins (hpass : st.replica.applier.Passes op)
    (halone : ∀ c other, (st.phase c).held = some other → other.slot ≠ op.slot)
    (hph : st'.phase = update st.phase c (.begun op)) (hidle : st.phase c = .idle)
    (happ : st'.applied = st.applied) (hrec : st'.replica.applier = st.replica.applier) :
    Exclusive st' := by
  constructor
  · intro c₁ c₂ op₁ op₂ h₁ h₂ hslot
    rw [hph] at h₁ h₂
    rcases held_update h₁ with ⟨hc₁, hheld₁⟩ | ⟨-, hheld₁⟩ <;> rcases held_update h₂ with ⟨hc₂, hheld₂⟩ | ⟨-, hheld₂⟩
    · rw [hc₁, hc₂]
    · cases hheld₁
      exact absurd hslot.symm (halone c₂ op₂ hheld₂)
    · cases hheld₂
      exact absurd hslot (halone c₁ op₁ hheld₁)
    · exact hst.unique c₁ c₂ op₁ op₂ hheld₁ hheld₂ hslot
  · intro c' other h
    rw [hph] at h
    rw [hrec]
    rcases held_update h with ⟨-, hheld⟩ | ⟨-, hheld⟩
    · cases hheld
      exact hpass.before
    · exact hst.ahead c' other hheld
  · intro other hoth
    rw [happ] at hoth
    rw [hrec]
    refine (hst.recorded other hoth).imp id (Or.imp id ?_)
    rintro ⟨c', hc'⟩
    exact ⟨c', by rw [hph, applied_update hc' (by simp [hidle])]⟩
  · rw [happ]
    exact hst.increasing

lemma Exclusive.fails (hbegun : st.phase c = .begun op)
    (hph : st'.phase = update st.phase c .idle) (happ : st'.applied = st.applied)
    (hrec : st'.replica.applier = st.replica.applier) :
    Exclusive st' := by
  constructor
  · intro c₁ c₂ op₁ op₂ h₁ h₂
    rw [hph] at h₁ h₂
    exact hst.unique c₁ c₂ op₁ op₂ (held_of_update (.inl rfl) h₁) (held_of_update (.inl rfl) h₂)
  · intro c' other h
    rw [hph] at h
    rw [hrec]
    exact hst.ahead c' other (held_of_update (.inl rfl) h)
  · intro other hoth
    rw [happ] at hoth
    rw [hrec]
    refine (hst.recorded other hoth).imp id (Or.imp id ?_)
    rintro ⟨c', hc'⟩
    exact ⟨c', by rw [hph, applied_update hc' (by simp [hbegun])]⟩
  · rw [happ]
    exact hst.increasing

/-- The operation about to be applied lies behind everything of its slot that was applied. -/
lemma Exclusive.before_begun {op other : Op} (hbegun : st.phase c = .begun op)
    (hoth : other ∈ st.applied) (hslot : other.slot = op.slot) : other.mark.Before op.mark := by
  have hheld : (st.phase c).held = some op := by rw [hbegun]; rfl
  have hahead := hst.ahead c op hheld
  rcases hst.recorded other hoth with h | h | ⟨c', hc'⟩
  · rw [h, hslot]
    exact hahead
  · rw [hslot] at h
    exact h.trans hahead
  · -- a call that has yet to commit would hold the slot as well
    have hc : c' = c := hst.unique c' c other op (by rw [hc']; rfl) hheld hslot
    rw [hc, hbegun] at hc'
    cases hc'

lemma Exclusive.applies (hbegun : st.phase c = .begun op) (hph : st'.phase = update st.phase c (.applied op))
    (happ : st'.applied = st.applied ++ [op]) (hrec : st'.replica.applier = st.replica.applier) :
    Exclusive st' := by
  have hheld : (Phase.applied op).held = (st.phase c).held := by rw [hbegun]; rfl
  constructor
  · intro c₁ c₂ op₁ op₂ h₁ h₂
    rw [hph] at h₁ h₂
    exact hst.unique c₁ c₂ op₁ op₂ (held_of_update (.inr hheld) h₁) (held_of_update (.inr hheld) h₂)
  · intro c' other h
    rw [hph] at h
    rw [hrec]
    exact hst.ahead c' other (held_of_update (.inr hheld) h)
  · intro other hoth
    rw [happ, List.mem_append, List.mem_singleton] at hoth
    rw [hrec]
    rcases hoth with hoth | rfl
    · refine (hst.recorded other hoth).imp id (Or.imp id ?_)
      rintro ⟨c', hc'⟩
      exact ⟨c', by rw [hph, applied_update hc' (by simp [hbegun])]⟩
    · exact Or.inr (Or.inr ⟨c, by rw [hph, update_self]⟩)
  · rw [happ, List.pairwise_append]
    refine ⟨hst.increasing, List.pairwise_singleton _ _, ?_⟩
    intro other hoth next hnext hslot
    rw [List.mem_singleton] at hnext
    subst hnext
    exact hst.before_begun hbegun hoth hslot

lemma Exclusive.commits (happlied : st.phase c = .applied op)
    (hph : st'.phase = update st.phase c .idle) (happ : st'.applied = st.applied)
    (hrec : st'.replica.applier = st.replica.applier.commit op) : Exclusive st' := by
  have hheld : (st.phase c).held = some op := by rw [happlied]; rfl
  constructor
  · intro c₁ c₂ op₁ op₂ h₁ h₂
    rw [hph] at h₁ h₂
    exact hst.unique c₁ c₂ op₁ op₂ (held_of_update (.inl rfl) h₁) (held_of_update (.inl rfl) h₂)
  · intro c' other h
    rw [hph] at h
    have hoth := held_of_update (.inl rfl) h
    have hne : other.slot ≠ op.slot := by
      intro hslot
      have hc : c' = c := hst.unique c' c other op hoth hheld hslot
      rw [hc, update_self] at h
      cases h
    rw [hrec, recorded_commit, if_neg hne]
    exact hst.ahead c' other hoth
  · intro other hoth
    rw [happ] at hoth
    rw [hrec, recorded_commit]
    by_cases hslot : other.slot = op.slot
    · rw [if_pos hslot]
      rcases hst.recorded other hoth with h | h | ⟨c', hc'⟩
      · rw [h, hslot]
        exact Or.inr (Or.inl (hst.ahead c op hheld))
      · rw [hslot] at h
        exact Or.inr (Or.inl (h.trans (hst.ahead c op hheld)))
      · have hc : c' = c := hst.unique c' c other op (by rw [hc']; rfl) hheld hslot
        rw [hc, happlied] at hc'
        cases hc'
        exact Or.inl rfl
    · rw [if_neg hslot]
      refine (hst.recorded other hoth).imp id (Or.imp id ?_)
      rintro ⟨c', hc'⟩
      have hne : st.phase c ≠ .applied other := by
        rw [happlied]
        rintro ⟨rfl⟩
        exact hslot rfl
      exact ⟨c', by rw [hph, applied_update hc' hne]⟩
  · rw [happ]
    exact hst.increasing

lemma Exclusive.turn (halone : Alone st t) (h : turn E st t = .ok st') : Exclusive st' := by
  cases turned h with
  | rest hph happ hrec =>
    constructor
    · rw [hph]
      exact hst.unique
    · rw [hph, hrec]
      exact hst.ahead
    · rw [hph, happ, hrec]
      exact hst.recorded
    · rw [happ]
      exact hst.increasing
  | begins op rest hidle hfeed hpass hph happ hrec =>
    exact hst.begins hpass (halone op rest hidle hfeed hpass) hph hidle happ hrec
  | fails op hbegun hph happ hrec => exact hst.fails hbegun hph happ hrec
  | applies op hbegun hph happ hrec => exact hst.applies hbegun hph happ hrec
  | commits op happlied hph happ hrec => exact hst.commits happlied hph happ hrec

lemma Exclusive.recorded_le (h : Protocol.turn E st t = .ok st') (slot : UInt16) :
    st'.replica.applier.recorded slot = st.replica.applier.recorded slot ∨
      (st.replica.applier.recorded slot).Before (st'.replica.applier.recorded slot) := by
  cases turned h with
  | rest hph happ hrec | begins op rest hidle hfeed hpass hph happ hrec | fails op hbegun hph happ hrec =>
    exact Or.inl (by rw [hrec])
  | applies op hbegun hph happ hrec => exact Or.inl (by rw [hrec])
  | commits op happlied hph happ hrec =>
    rw [hrec, recorded_commit]
    split
    · next hslot =>
      rw [hslot]
      exact Or.inr (hst.ahead t.channel op (by rw [happlied]; rfl))
    · exact Or.inl rfl

lemma Exclusive.run {turns : List Turn} (halone : Along (Protocol.turn E) Alone st turns)
    (hrun : Runs.run (Protocol.turn E) st turns = .ok st') : Exclusive st' :=
  halone.run_invariant (fun _ _ _ hst halone h => hst.turn halone h) hst hrun

lemma Exclusive.recorded_le_run {turns : List Turn} (halone : Along (Protocol.turn E) Alone st turns)
    (hrun : Runs.run (Protocol.turn E) st turns = .ok st') (slot : UInt16) :
    st'.replica.applier.recorded slot = st.replica.applier.recorded slot ∨
      (st.replica.applier.recorded slot).Before (st'.replica.applier.recorded slot) := by
  refine (halone.run_invariant (I := fun s => Exclusive s ∧
    (s.replica.applier.recorded slot = st.replica.applier.recorded slot ∨
      (st.replica.applier.recorded slot).Before (s.replica.applier.recorded slot)))
    ?_ ⟨hst, Or.inl rfl⟩ hrun).2
  rintro s t s' ⟨hs, hle⟩ halone h
  refine ⟨hs.turn halone h, ?_⟩
  rcases hs.recorded_le h slot with heq | hlt
  · rw [heq]
    exact hle
  · rcases hle with heq | hle
    · exact Or.inr (heq ▸ hlt)
    · exact Or.inr (hle.trans hlt)

lemma Exclusive.inOrder : InOrder st.applied := by
  constructor
  · refine hst.increasing.imp fun {op next} hbefore hslot heq => ?_
    have h := hbefore hslot
    rw [heq] at h
    exact ApplyProgress.Before.irrefl _ h
  · refine hst.increasing.imp fun {op next} hbefore hslot hep => ?_
    rcases hbefore hslot with h | ⟨-, h⟩
    · exact absurd h (by rw [Op.mark, Op.mark, hep]; exact UInt64.lt_irrefl _)
    · exact h

end

/-- **One call at a time.** Whatever the two channels deliver, and however their steps interleave:
as long as no operation gets past `Begin` while another call holds one of the same slot, every
operation is applied at most once and in order, and the record of a slot never goes back. -/
theorem inOrder_of_alone (E : Engine σ) (store : Store σ) (feed : Channel → List Op)
    (turns : List Turn) (halone : Along (turn E) Alone (.start store feed) turns) :
    (∀ st, run (turn E) (.start store feed) turns = .ok st → InOrder st.applied) ∧
      ∀ earlier later st st', turns = earlier ++ later →
        run (turn E) (.start store feed) earlier = .ok st → run (turn E) st later = .ok st' →
        ∀ slot, ¬ (st'.replica.applier.recorded slot).Before (st.replica.applier.recorded slot) := by
  have hstart := exclusive_start store feed
  constructor
  · intro st hrun
    exact (hstart.run halone hrun).inOrder
  · rintro earlier later st st' rfl hearlier hlater slot hback
    have hst := hstart.run halone.left hearlier
    rcases hst.recorded_le_run (halone.right hearlier) hlater slot with heq | hlt
    · rw [heq] at hback
      exact ApplyProgress.Before.irrefl _ hback
    · exact ApplyProgress.Before.irrefl _ (hback.trans hlt)

/-- Both channels deliver the same operation, one after the other. -/
theorem inOrder_in_turn :
    Along (turn plainLogical.engine) Alone (.start (Store.new ∅) fun _ => [setOp 1 1])
        [⟨.repl, 5⟩, ⟨.repl, 5⟩, ⟨.repl, 5⟩, ⟨.replApply, 6⟩] ∧
      ∀ st, run (turn plainLogical.engine) (.start (Store.new ∅) fun _ => [setOp 1 1])
        [⟨.repl, 5⟩, ⟨.repl, 5⟩, ⟨.repl, 5⟩, ⟨.replApply, 6⟩] = .ok st → InOrder st.applied := by
  have halone : Along (turn plainLogical.engine) Alone (.start (Store.new ∅) fun _ => [setOp 1 1])
      [⟨.repl, 5⟩, ⟨.repl, 5⟩, ⟨.repl, 5⟩, ⟨.replApply, 6⟩] := by
    refine .cons ?_ rfl (.cons ?_ rfl (.cons ?_ rfl (.cons ?_ rfl trivial)))
    · rintro op rest - - - c other hheld
      cases hheld
    · rintro op rest hidle
      cases hidle
    · rintro op rest hidle
      cases hidle
    · rintro op rest - - - c other hheld
      cases c <;> cases hheld
  exact ⟨halone, (inOrder_of_alone _ _ _ _ halone).1⟩

/-- **Applied twice.** Both calls pass `Begin` before either reaches its `Commit`. -/
theorem applied_twice :
    ∃ st, run (turn plainLogical.engine) (.start (Store.new ∅) fun _ => [setOp 1 1])
        [⟨.repl, 5⟩, ⟨.replApply, 5⟩, ⟨.repl, 6⟩, ⟨.replApply, 6⟩] = .ok st ∧
      ¬ InOrder st.applied := by
  refine ⟨_, rfl, ?_⟩
  intro h
  have honce := h.once
  revert honce
  decide

end AutoCache.Protocol
