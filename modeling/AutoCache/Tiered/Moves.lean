import AutoCache.Lib.Runs
import AutoCache.Store.Lasting
import AutoCache.Tiered.View

/-!
# Clients during a move between the tiers

A demotion reads a key from the hot tier, writes it to the warm tier and deletes it from the hot tier; a
promotion does the same the other way, after the hot tier had nothing to give. Between any two of these
steps clients go on: `Set` is one operation on the hot tier, `Del` one on the hot tier and then one on
the warm tier. Nothing tells the mover that the key has changed since it was read.

A schedule says what the clients do before the move, between its steps and after it.
-/

namespace AutoCache.Tiered

inductive TierCall where
  | set (value : Bytes)
  | del

/-- One operation of a client on a tier, or time that passes. -/
inductive TierStep where
  | wait (ns : ℕ)
  | set (value : Bytes)
  | delHot
  | delWarm
  deriving DecidableEq

def TierCall.steps : TierCall → List TierStep
  | .set value => [.set value]
  | .del => [.delHot, .delWarm]

def TierStep.isWait : TierStep → Bool
  | .wait _ => true
  | _ => false

/-- The operations of the clients, without the time that passes. -/
def clientOps (steps : List TierStep) : List TierStep := steps.filter (!·.isWait)

/-- What happens before, during and after a move. -/
structure Schedule where
  before : List TierStep
  afterStart : List TierStep
  afterRead : List TierStep
  afterWrite : List TierStep
  afterDelete : List TierStep

def Schedule.steps (sch : Schedule) : List TierStep :=
  sch.before ++ sch.afterStart ++ sch.afterRead ++ sch.afterWrite ++ sch.afterDelete

inductive MoveKind where
  | demotion
  | promotion
  deriving DecidableEq

inductive TierPhase where
  | idle
  | started
  | read (entry : EngineEntry) (ttl : Int)
  | written
  | done

structure TierMove where
  config : LogicalConfig
  key : Bytes
  kind : MoveKind

structure MoveState where
  now : Int
  tiers : Tiers Cache
  phase : TierPhase := .idle

inductive Turn where
  | client (step : TierStep)
  | move

/-- The schedule as a list of turns. -/
def Schedule.turns (sch : Schedule) : List Turn :=
  sch.before.map .client ++ .move :: (sch.afterStart.map .client ++
    .move :: (sch.afterRead.map .client ++ .move :: (sch.afterWrite.map .client ++
      .move :: sch.afterDelete.map .client)))

namespace TierMove

variable (mv : TierMove)

/-- The operations that `Set` and `Del` are made of. -/
def clientStep (s : MoveState) : TierStep → Go MoveState
  | .wait ns => return { s with now := s.now + ns }
  | .set value => do
    let (_, tiers) ← set mv.config.engine s.now mv.key value 0 s.tiers
    return { s with tiers }
  | .delHot => do
    let (_, tiers) ← hotCall (Store.del mv.config.engine [mv.key]) s.tiers
    return { s with tiers }
  | .delWarm => do
    let (_, tiers) ← warmCall (Warm.del s.now [mv.key]) s.tiers
    return { s with tiers }

/-- The next step of `demoteKey`, which starts without a look at the tiers. -/
def demoteStep (s : MoveState) : Go MoveState :=
  match s.phase with
  | .idle => return { s with phase := .started }
  | .started => do
    let (entry, tiers) ← hotCall (Store.engineEntry mv.config.engine mv.key s.now) s.tiers
    match entry with
    | none => return { s with tiers, phase := .done }
    | some entry =>
      if ∃ t ∈ entry.expireAt, Store.timeUntil t s.now ≤ 0 then return { s with tiers, phase := .done }
      else return { s with tiers, phase := .read entry (entryTTL s.now entry) }
  | .read entry ttl => do
    let (_, tiers) ← warmCall (fun warm => ((), warm.set mv.key s.now entry.value ttl)) s.tiers
    return { s with tiers, phase := .written }
  | .written => do
    let (_, tiers) ← hotCall (Store.del mv.config.engine [mv.key]) s.tiers
    return { s with tiers, phase := .done }
  | .done => return s

/-- The next step of a promotion: the two look-ups of `Get`, and the two steps of the goroutine, which
looks at the time to live when it starts. -/
def promoteStep (s : MoveState) : Go MoveState :=
  match s.phase with
  | .idle => do
    let (found, tiers) ← hotCall (Store.get mv.config.engine mv.key s.now) s.tiers
    match found with
    | .ok _ => return { s with tiers, phase := .done }
    | .error _ => return { s with tiers, phase := .started }
  | .started => do
    let (entry, tiers) ← warmCall (fun warm => (warm.get mv.key s.now, warm)) s.tiers
    match entry with
    | none => return { s with tiers, phase := .done }
    | some entry => return { s with tiers, phase := .read entry 0 }
  | .read entry _ =>
    match stringEntryValue entry with
    | .error _ => return { s with phase := .done }
    | .ok value => do
      let (result, tiers) ←
        hotCall (Store.set mv.config.engine mv.key value (entryTTL s.now entry) s.now) s.tiers
      match result with
      | .error _ => return { s with tiers, phase := .done }
      | .ok () => return { s with tiers, phase := .written }
  | .written => do
    let (_, tiers) ← warmCall (Warm.del s.now [mv.key]) s.tiers
    return { s with tiers, phase := .done }
  | .done => return s

def step (s : MoveState) : Turn → Go MoveState
  | .client step => mv.clientStep s step
  | .move =>
    match mv.kind with
    | .demotion => mv.demoteStep s
    | .promotion => mv.promoteStep s

/-- **No update is lost**: at the end `Get` gives what the last of the calls left. -/
def NoLostUpdate (sch : Schedule) (calls : List TierCall) : Prop :=
  ∀ now tiers s, Runs.run mv.step { now, tiers } sch.turns = .ok s →
    match calls.getLast? with
    | none => True
    | some (.set value) => ∃ s', get mv.config.engine s.now mv.key s.tiers = .ok (.ok value, s')
    | some .del => ∃ s', get mv.config.engine s.now mv.key s.tiers = .ok (.error .keyNotFound, s')

/-- The hot tier acknowledges every `Set`. -/
def Acknowledges (sch : Schedule) : Prop :=
  ∀ value, .set value ∈ sch.steps → ¬ Cache.TooLarge mv.config.size mv.key value

end TierMove

inductive HotOp where
  | set (value : Bytes)
  | del
  deriving DecidableEq

def hotOps (steps : List TierStep) : List HotOp :=
  steps.filterMap fun
    | .set value => some (.set value)
    | .delHot => some .del
    | _ => none

/-- The last operation on the hot tier before a demotion reads it. -/
def Schedule.lastRead (sch : Schedule) : Option HotOp := (hotOps (sch.before ++ sch.afterStart)).getLast?

/-- What a demotion needs: that a client comes after it has deleted, or that there was nothing to read,
or that it read what is written last and the copy is not deleted before the end. A deletion must come
after the copy was made. -/
def TierMove.DemotesSafely (mv : TierMove) (sch : Schedule) : Option TierCall → Prop
  | none => True
  | some (.set value) =>
    Readable mv.key ∧ value.length < 65536 ∧
      (clientOps sch.afterDelete ≠ [] ∨ sch.lastRead = some .del ∨
        .delWarm ∉ sch.afterWrite ∧ ∃ v, sch.lastRead = some (.set v) ∧ storedValue v = value)
  | some .del =>
    clientOps (sch.afterWrite ++ sch.afterDelete) ≠ [] ∨
      if Readable mv.key then sch.lastRead = some .del else .delHot ∈ sch.before ++ sch.afterStart

/-- What a promotion needs: that a client comes after its write to the hot tier, or that there was
nothing to promote. -/
def TierMove.PromotesSafely (mv : TierMove) (sch : Schedule) : Option TierCall → Prop
  | none => True
  | some (.set value) =>
    Readable mv.key ∧ value.length < 65536 ∧
      (clientOps (sch.afterWrite ++ sch.afterDelete) ≠ [] ∨
        (∃ v, (hotOps sch.before).getLast? = some (.set v)) ∨ .delWarm ∈ sch.before ++ sch.afterStart)
  | some .del =>
    ¬ Readable mv.key ∨ .delHot ∈ sch.afterWrite ++ sch.afterDelete ∨
      (∃ v, (hotOps sch.before).getLast? = some (.set v)) ∨ .delWarm ∈ sch.before ++ sch.afterStart

def TierMove.Safe (mv : TierMove) (sch : Schedule) (calls : List TierCall) : Prop :=
  match mv.kind with
  | .demotion => mv.DemotesSafely sch calls.getLast?
  | .promotion => mv.PromotesSafely sch calls.getLast?

/-! ## The move as the tiers show it -/

structure MoveView where
  now : Int
  tiers : TierView
  phase : TierPhase

def MoveState.view (s : MoveState) : MoveView := ⟨s.now, s.tiers.view s.now, s.phase⟩

namespace TierMove

variable (mv : TierMove)

def clientView (v : MoveView) : TierStep → MoveView
  | .wait ns => { v with now := v.now + ns, tiers := v.tiers.later (v.now + ns) }
  | .set value =>
    { v with tiers.hot := (v.tiers.hot.set mv.config.size mv.key value 0 v.now).2 }
  | .delHot => { v with tiers.hot := v.tiers.hot.del [mv.key] }
  | .delWarm => { v with tiers.warm := Function.update v.tiers.warm mv.key none }

def demoteView (v : MoveView) : MoveView :=
  match v.phase with
  | .idle => { v with phase := .started }
  | .started =>
    match v.tiers.hot.engineEntry mv.key v.now with
    | none => { v with phase := .done }
    | some entry =>
      if ∃ t ∈ entry.expireAt, Store.timeUntil t v.now ≤ 0 then { v with phase := .done }
      else { v with phase := .read entry (entryTTL v.now entry) }
  | .read entry ttl =>
    { v with
      tiers.warm := Function.update v.tiers.warm mv.key
        (some ⟨⟨entry.value, Warm.deadline ttl v.now⟩, Warm.deadline ttl v.now⟩)
      phase := .written }
  | .written => { v with tiers.hot := v.tiers.hot.del [mv.key], phase := .done }
  | .done => v

def promoteView (v : MoveView) : MoveView :=
  match v.phase with
  | .idle =>
    match v.tiers.hot.get mv.key with
    | .ok _ => { v with phase := .done }
    | .error _ => { v with phase := .started }
  | .started =>
    match v.tiers.warm mv.key with
    | none => { v with phase := .done }
    | some item => { v with phase := .read item.entry 0 }
  | .read entry _ =>
    match stringEntryValue entry with
    | .error _ => { v with phase := .done }
    | .ok value =>
      match v.tiers.hot.set mv.config.size mv.key value (entryTTL v.now entry) v.now with
      | (.error _, hot) => { v with tiers.hot := hot, phase := .done }
      | (.ok (), hot) => { v with tiers.hot := hot, phase := .written }
  | .written =>
    { v with tiers.warm := Function.update v.tiers.warm mv.key none, phase := .done }
  | .done => v

def moveView (v : MoveView) : MoveView :=
  match mv.kind with
  | .demotion => mv.demoteView v
  | .promotion => mv.promoteView v

def look (v : MoveView) : Turn → MoveView
  | .client step => mv.clientView v step
  | .move => mv.moveView v

variable {mv}

open MoveState

variable (s : MoveState)

lemma clientStep_view (step : TierStep) : ∃ s', mv.clientStep s step = .ok s' ∧ s'.view = mv.clientView s.view step := by
  cases step with
  | wait ns =>
    refine ⟨_, rfl, ?_⟩
    have hle : s.now ≤ s.now + ns := by omega
    simp only [view, clientView, Tiers.view_later hle]
  | set value =>
    obtain ⟨tiers, hs, hview⟩ := (@set_simulates mv.config s.now mv.key value 0).run s.tiers
    simp only [clientStep, hs, Go.ok_bind]
    refine ⟨_, rfl, ?_⟩
    simp only [view, clientView, hview]
    rfl
  | delHot =>
    obtain ⟨n, tiers, hs, hview⟩ :=
      hotCall_simulates (@Store.del_acts mv.config s.now [mv.key]) s.tiers
    simp only [clientStep, hs, Go.ok_bind]
    refine ⟨_, rfl, ?_⟩
    simp only [view, clientView, ← (Prod.mk.inj hview).2]
  | delWarm =>
    obtain ⟨n, tiers, hs, hview⟩ := @warmDel_simulates s.now mv.key s.tiers
    simp only [clientStep, hs, Go.ok_bind]
    refine ⟨_, rfl, ?_⟩
    simp only [view, clientView, ← (Prod.mk.inj hview).2]

lemma demoteStep_view : ∃ s', mv.demoteStep s = .ok s' ∧ s'.view = mv.demoteView s.view := by
  unfold demoteStep demoteView
  rw [show s.view.phase = s.phase from rfl]
  cases s.phase with
  | idle => exact ⟨_, rfl, rfl⟩
  | started =>
    obtain ⟨tiers, hs, hview⟩ :=
      (hotCall_simulates (@Store.engineEntry_acts mv.config mv.key s.now)).run s.tiers
    simp only [hs, Go.ok_bind, view]
    cases (s.tiers.view s.now).hot.engineEntry mv.key s.now with
    | none => exact ⟨_, rfl, by simp only [hview]⟩
    | some entry =>
      dsimp only
      by_cases hpast : ∃ t ∈ entry.expireAt, Store.timeUntil t s.now ≤ 0
      · rw [if_pos hpast]
        exact ⟨_, rfl, (by simp only [hview]; exact (if_pos hpast).symm)⟩
      · rw [if_neg hpast]
        exact ⟨_, rfl, (by simp only [hview]; exact (if_neg hpast).symm)⟩
  | read entry ttl =>
    obtain ⟨tiers, hs, hview⟩ := (@warmSet_simulates s.now mv.key entry.value ttl).run s.tiers
    simp only [hs, Go.ok_bind, view]
    exact ⟨_, rfl, by simp only [hview]⟩
  | written =>
    obtain ⟨n, tiers, hs, hview⟩ :=
      hotCall_simulates (@Store.del_acts mv.config s.now [mv.key]) s.tiers
    simp only [hs, Go.ok_bind, view]
    exact ⟨_, rfl, by simp only [← (Prod.mk.inj hview).2]⟩
  | done => exact ⟨s, rfl, rfl⟩

lemma promoteStep_view : ∃ s', mv.promoteStep s = .ok s' ∧ s'.view = mv.promoteView s.view := by
  unfold promoteStep promoteView
  rw [show s.view.phase = s.phase from rfl]
  cases s.phase with
  | idle =>
    obtain ⟨tiers, hs, hview⟩ :=
      (hotCall_simulates (@Store.get_acts mv.config mv.key s.now)).run s.tiers
    simp only [hs, Go.ok_bind, view]
    cases (s.tiers.view s.now).hot.get mv.key with
    | ok value | error e => exact ⟨_, rfl, by simp only [hview]⟩
  | started =>
    obtain ⟨tiers, hs, hview⟩ := (@warmGet_simulates s.now mv.key).run s.tiers
    simp only [hs, Go.ok_bind, view]
    cases (s.tiers.view s.now).warm mv.key with
    | none | some item => exact ⟨_, rfl, by simp only [hview]⟩
  | read entry ttl =>
    dsimp only
    cases stringEntryValue entry with
    | error e => exact ⟨_, rfl, rfl⟩
    | ok value =>
      obtain ⟨tiers, hs, hview⟩ := (hotCall_simulates (@Store.set_acts mv.config mv.key value
        (entryTTL s.now entry) s.now)).run s.tiers
      simp only [hs, Go.ok_bind, view]
      revert hview
      rcases (s.tiers.view s.now).hot.set mv.config.size mv.key value (entryTTL s.now entry) s.now with
        ⟨r, hot⟩
      intro hview
      cases r with
      | error e | ok u => exact ⟨_, rfl, by simp only [hview]⟩
  | written =>
    obtain ⟨n, tiers, hs, hview⟩ := @warmDel_simulates s.now mv.key s.tiers
    simp only [hs, Go.ok_bind, view]
    exact ⟨_, rfl, by simp only [← (Prod.mk.inj hview).2]⟩
  | done => exact ⟨s, rfl, rfl⟩

/-- **The tiers follow their view**, and no call fails. -/
lemma step_view (turn : Turn) : ∃ s', mv.step s turn = .ok s' ∧ s'.view = mv.look s.view turn := by
  cases turn with
  | client step => exact clientStep_view s step
  | move =>
    simp only [step, look, moveView]
    cases mv.kind with
    | demotion => exact demoteStep_view s
    | promotion => exact promoteStep_view s

lemma run_view (s : MoveState) (turns : List Turn) :
    ∃ s', Runs.run mv.step s turns = .ok s' ∧ s'.view = turns.foldl mv.look s.view :=
  Runs.run_view mv.step_view s turns

end TierMove

end AutoCache.Tiered
