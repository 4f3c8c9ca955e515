import AutoCache.Lib.Runs
import AutoCache.Protocol.Drain
import AutoCache.Protocol.FastPath

/-!
# Writers during the move of a key (`drainKey`, `cmdMigrate`)

A key moves in steps that other clients can come between: `GetEntry` on the source, the look at the
deadline, `RESTORE` on the target, `Del` on the source. Nothing tells the mover of a write in between.
What the target gets is what `GetEntry` read, and `Del` removes whatever is there.

Time passes in steps of its own. `last` is the last command of a client that the source acknowledged.
-/

namespace AutoCache.Protocol

open Cluster

/-- A client's command on the key. -/
inductive ClientCmd where
  | set (value : Bytes)
  | del
  deriving DecidableEq

/-- How far the move is. `absent` is its end when the key was not found. -/
inductive MovePhase where
  | idle
  | absent
  | read (value : Value) (expireAt : Int)
  | sending (ttlMs : Int) (serialized : Bytes)
  | deleting
  | done

def MovePhase.Finished : MovePhase → Prop
  | .absent | .done => True
  | _ => False

/-- A move between two nodes. `drainKey` replaces, and deletes a key whose deadline has passed; `MIGRATE`
replaces when it is told to, and leaves such a key. -/
structure KeyMove where
  sourceConfig : LogicalConfig
  targetConfig : LogicalConfig
  source : NodeConfig Cache
  target : NodeConfig Cache
  source_engine : source.engine = sourceConfig.engine
  target_engine : target.engine = targetConfig.engine
  key : Bytes
  replace : Bool
  deletesExpired : Bool
  marshal : TypedValue → Option Bytes

/-- `byte(entry.Type)`. -/
def byteOfType : ValueType → UInt8
  | .string => 0
  | .list => 1
  | .set => 2
  | .zset => 3
  | .hash => 4

lemma typeOfByte_byteOfType (type : ValueType) : typeOfByte (byteOfType type) = some type := by
  cases type <;> rfl

structure MoveState where
  now : Int
  source : Store Cache
  target : Store Cache
  phase : MovePhase := .idle
  last : Option ClientCmd := none

inductive MoveEvent where
  | wait (ns : ℕ)
  | client (cmd : ClientCmd)
  | move
  deriving DecidableEq

/-- The value that a serialized one stands for. -/
def serializedValue (L : LogicalConfig) : Bytes → Option Value
  | [] => none
  | type :: payload =>
    (typeOfByte type).bind fun valueType => (Store.restoredValue L valueType payload).toOption

/-- The time to live of `RESTORE`. -/
def restoreTTL (ttlMs : Int) : Int := if ttlMs > 0 then duration ttlMs millisecond else 0

namespace KeyMove

variable (mv : KeyMove)

/-- `SerializeEntryValue`: the type, then the bytes of a string or what `json.Marshal` makes of an
object. -/
def serialize : Value → Option Bytes
  | .string text => some (byteOfType .string :: text)
  | .object value => (mv.marshal value).map (byteOfType value.type :: ·)

/-- The time to live that goes with a value. -/
def millisLeft (now expireAt : Int) : Int :=
  if expireAt = 0 then 0 else (Store.timeUntil expireAt now).tdiv millisecond

def advance (s : MoveState) : Go MoveState :=
  match s.phase with
  | .idle => do
    let (entry, source) ← getEntry mv.source s.now mv.key s.source
    match entry with
    | none => return { s with source, phase := .absent }
    | some (value, expireAt) => return { s with source, phase := .read value expireAt }
  | .read value expireAt =>
    if millisLeft s.now expireAt < 0 then
      return { s with phase := if mv.deletesExpired then .deleting else .done }
    else
      match mv.serialize value with
      | none => return { s with phase := .done }
      | some serialized => return { s with phase := .sending (millisLeft s.now expireAt) serialized }
  | .sending ttlMs serialized => do
    let args := mv.key :: formatInt ttlMs :: serialized ::
      if mv.replace then [ascii "REPLACE"] else []
    let (reply, target) ← cmdRestore mv.target s.now args ⟨s.target, none⟩
    match reply with
    | .simple _ => return { s with target := target.store, phase := .deleting }
    | _ => return { s with target := target.store, phase := .done }
  | .deleting => do
    let (_, source) ← Store.del mv.source.engine [mv.key] s.source
    return { s with source, phase := .done }
  | .absent | .done => return s

def step (s : MoveState) : MoveEvent → Go MoveState
  | .wait ns => return { s with now := s.now + ns }
  | .client (.set value) => do
    let (result, source) ← Store.set mv.source.engine mv.key value 0 s.now s.source
    match result with
    | .error _ => return { s with source }
    | .ok () => return { s with source, last := some (.set value) }
  | .client .del => do
    let (_, source) ← Store.del mv.source.engine [mv.key] s.source
    return { s with source, last := some .del }
  | .move => mv.advance s

def onSource (s : MoveState) : Option Value := s.source.shows s.now mv.key

def onTarget (s : MoveState) : Option Value := s.target.shows s.now mv.key

/-- Both nodes together reflect the last acknowledged command. -/
def Reflects (s : MoveState) : Prop :=
  match s.last with
  | none => True
  | some (.set value) =>
    (mv.onSource s = some (.string value) ∨ mv.onTarget s = some (.string value)) ∧
      (∀ v, mv.onSource s = some v → v = .string value) ∧
      ∀ v, mv.onTarget s = some v → v = .string value
  | some .del => mv.onSource s = none ∧ mv.onTarget s = none

/-- **No update is lost** by this interleaving, whatever the source holds at its start. -/
def NoLostUpdate (program : List MoveEvent) : Prop :=
  ∀ now source target, target.shows now mv.key = none →
    ∀ s, Runs.run mv.step { now, source, target } program = .ok s → s.phase.Finished → mv.Reflects s

/-- The source acknowledges every command. -/
def Acknowledges (program : List MoveEvent) : Prop :=
  ∀ value, .client (.set value) ∈ program →
    ¬ Cache.TooLarge mv.sourceConfig.size mv.key value

def carried (value : Value) : Option Value :=
  (mv.serialize value).bind (serializedValue mv.targetConfig)

end KeyMove

def clientCmds (program : List MoveEvent) : List ClientCmd :=
  program.filterMap fun
    | .client cmd => some cmd
    | _ => none

lemma mem_clientCmds {program : List MoveEvent} {c : ClientCmd} : c ∈ clientCmds program ↔ .client c ∈ program := by
  constructor
  · intro h
    obtain ⟨e, he, hcmd⟩ := List.mem_filterMap.1 h
    cases e with
    | client c' =>
      cases hcmd
      exact he
    | wait ns => cases hcmd
    | move => cases hcmd
  · exact fun h => List.mem_filterMap.2 ⟨_, h, rfl⟩

/-- Those that come before `GetEntry`. -/
def cmdsBefore (program : List MoveEvent) : List ClientCmd :=
  clientCmds (program.takeWhile (· ≠ .move))

/-- What `GetEntry` reads is gone, or is what the last command of all writes. A key that no read finds
never shows a string; an object under it can still be moved. -/
def KeyMove.Harmless (mv : KeyMove) (program : List MoveEvent) : Prop :=
  match (clientCmds program).getLast? with
  | none => True
  | some (.set value) =>
    Readable mv.key ∧ value.length < 65536 ∧
      ((cmdsBefore program).getLast? = some .del ∨
        ∃ v, (cmdsBefore program).getLast? = some (.set v) ∧ storedValue v = value)
  | some .del =>
    if Readable mv.key then (cmdsBefore program).getLast? = some .del
    else .del ∈ cmdsBefore program ∨ ∀ o, mv.carried (.object o) = none

/-! ## The move as the worlds of the two nodes show it -/

structure MoveView where
  now : Int
  source : World
  target : World
  phase : MovePhase
  last : Option ClientCmd

def MoveState.view (s : MoveState) : MoveView :=
  ⟨s.now, s.source.live s.now, s.target.live s.now, s.phase, s.last⟩

namespace KeyMove

variable (mv : KeyMove)

/-- The end of `RESTORE`: whether the target takes the value, and what it holds then. -/
def arrives (now ttlMs : Int) (serialized : Bytes) (w : World) : Bool × World :=
  match serializedValue mv.targetConfig serialized with
  | none => (false, w)
  | some value =>
    let r := w.restore mv.targetConfig.size mv.key (restoreTTL ttlMs) now value
    (r.1.isOk, r.2)

/-- `RESTORE` on worlds. -/
def restored (now ttlMs : Int) (serialized : Bytes) (w : World) : Bool × World :=
  match parseInt (formatInt ttlMs) with
  | none => (false, w)
  | some ttlMs =>
    if mv.replace = false ∧ w.has mv.key = true then (false, w)
    else mv.arrives now ttlMs serialized w

/-- `advance` on worlds. -/
def advanceView (v : MoveView) : MoveView :=
  match v.phase with
  | .idle =>
    match v.source.entry mv.key v.now with
    | none => { v with phase := .absent }
    | some (value, expireAt) => { v with phase := .read value expireAt }
  | .read value expireAt =>
    if millisLeft v.now expireAt < 0 then
      { v with phase := if mv.deletesExpired then .deleting else .done }
    else
      match mv.serialize value with
      | none => { v with phase := .done }
      | some serialized => { v with phase := .sending (millisLeft v.now expireAt) serialized }
  | .sending ttlMs serialized =>
    match mv.restored v.now ttlMs serialized v.target with
    | (true, target) => { v with target, phase := .deleting }
    | (false, target) => { v with target, phase := .done }
  | .deleting => { v with source := v.source.del [mv.key], phase := .done }
  | .absent | .done => v

/-- `step` on worlds. -/
def look (v : MoveView) : MoveEvent → MoveView
  | .wait ns =>
    { v with
      now := v.now + ns
      source := v.source.later (v.now + ns)
      target := v.target.later (v.now + ns) }
  | .client (.set value) =>
    match v.source.set mv.sourceConfig.size mv.key value 0 v.now with
    | (.error _, source) => { v with source }
    | (.ok (), source) => { v with source, last := some (.set value) }
  | .client .del => { v with source := v.source.del [mv.key], last := some .del }
  | .move => mv.advanceView v

variable {mv}

/-- A handler that replies with a simple string where `r` says yes, and leaves the world of `r`. -/
def Answers (now : Int) (x : HandlerM Cache Reply) (s : Store Cache) (r : Bool × World) : Prop :=
  ∃ reply s', x ⟨s, none⟩ = .ok (reply, ⟨s', none⟩) ∧
    ((∃ text, reply = .simple text) ↔ r.1 = true) ∧ s'.live now = r.2

lemma answers_error {now : Int} (text : String) (s : Store Cache) : Answers now (return .error text) s (false, s.live now) :=
  ⟨.error text, s, rfl, by simp, rfl⟩

lemma restore_answers {now ttlMs : Int} {serialized : Bytes} (s : Store Cache) :
    Answers now (restore mv.target now mv.key ttlMs serialized) s (mv.arrives now ttlMs serialized (s.live now)) := by
  unfold arrives
  cases serialized with
  | nil => exact answers_error _ s
  | cons type payload =>
    simp only [restore, serializedValue]
    cases typeOfByte type with
    | none => exact answers_error _ s
    | some valueType =>
      obtain ⟨s', hs', hlive⟩ := (@Store.restoreEntry_acts mv.targetConfig mv.key (restoreTTL ttlMs) now
        valueType payload).run s
      rw [← mv.target_engine] at hs'
      simp only [Option.bind_some]
      unfold Answers
      rw [engineCall_bind hs']
      cases hval : Store.restoredValue mv.targetConfig valueType payload with
      | error text =>
        simp only [hval, Except.toOption] at hlive ⊢
        exact ⟨_, s', rfl, by simp, hlive⟩
      | ok value =>
        simp only [hval, Except.toOption] at hlive ⊢
        cases hr : ((s.live now).restore mv.targetConfig.size mv.key (restoreTTL ttlMs) now value).1 with
        | error e => exact ⟨_, s', rfl, by simp [Except.isOk, Except.toBool], hlive⟩
        | ok u => exact ⟨_, s', rfl, ⟨fun _ => rfl, fun _ => ⟨_, rfl⟩⟩, hlive⟩

lemma cmdRestore_answers {now ttlMs : Int} {serialized : Bytes} (s : Store Cache) :
    Answers now (cmdRestore mv.target now (mv.key :: formatInt ttlMs :: serialized ::
      if mv.replace then [ascii "REPLACE"] else [])) s
      (mv.restored now ttlMs serialized (s.live now)) := by
  unfold cmdRestore restored
  dsimp only
  cases parseInt (formatInt ttlMs) with
  | none => exact answers_error _ s
  | some ttlMs =>
    dsimp only
    cases hreplace : mv.replace with
    | true =>
      rw [if_pos rfl, if_pos (by decide), if_neg (by simp)]
      exact restore_answers s
    | false =>
      obtain ⟨s₁, hs₁, hlive₁⟩ := (@Store.existsKeys_acts mv.targetConfig now [mv.key]).run s
      rw [← mv.target_engine] at hs₁
      have hoption : ¬ hasOption "REPLACE" (if false = true then [ascii "REPLACE"] else []) = true := by
        simp [hasOption]
      rw [if_neg hoption]
      unfold Answers
      rw [engineCall_bind hs₁]
      cases hhas : (s.live now).has mv.key with
      | true =>
        have h := @answers_error now "BUSYKEY Target key name already exists." s₁
        rw [hlive₁] at h
        simpa [hhas, Answers] using h
      | false =>
        have h := @restore_answers mv now ttlMs serialized s₁
        rw [hlive₁] at h
        simpa [hhas, Answers] using h

open MoveState

/-- **The two nodes follow their worlds**, and no call fails. -/
lemma step_view (s : MoveState) (e : MoveEvent) : ∃ s', mv.step s e = .ok s' ∧ s'.view = mv.look s.view e := by
  have hdel : ∃ n s', Store.del mv.source.engine [mv.key] s.source = .ok (n, s') ∧
      s'.live s.now = (s.source.live s.now).del [mv.key] := by
    obtain ⟨n, s', h, hlive⟩ := @Store.del_acts mv.sourceConfig s.now [mv.key] s.source
    rw [mv.source_engine]
    exact ⟨n, s', h, (congrArg Prod.snd hlive).symm⟩
  cases e with
  | wait ns =>
    refine ⟨_, rfl, ?_⟩
    have hle : s.now ≤ s.now + ns := by omega
    simp only [view, look, Store.live_later hle]
  | client cmd =>
    cases cmd with
    | set value =>
      obtain ⟨source, hs, hlive⟩ :=
        (@Store.set_acts mv.sourceConfig mv.key value 0 s.now).run s.source
      rw [← mv.source_engine] at hs
      simp only [step, hs, Go.ok_bind, look, view]
      rcases hr : (s.source.live s.now).set mv.sourceConfig.size mv.key value 0 s.now with ⟨r, w⟩
      rw [hr] at hlive
      cases r with
      | error e | ok u => exact ⟨_, rfl, by simp only [hlive]⟩
    | del =>
      obtain ⟨n, source, hs, hlive⟩ := hdel
      simp only [step, hs, Go.ok_bind, look, view]
      exact ⟨_, rfl, by simp only [hlive]⟩
  | move =>
    change ∃ s', mv.advance s = .ok s' ∧ s'.view = mv.advanceView s.view
    unfold advance advanceView
    rw [show s.view.phase = s.phase from rfl]
    cases s.phase with
    | idle =>
      obtain ⟨source, hs, hlive⟩ := (@getEntry_acts mv.sourceConfig mv.source s.now mv.key mv.source_engine).run s.source
      simp only [hs, Go.ok_bind, view]
      cases (s.source.live s.now).entry mv.key s.now with
      | none | some entry => exact ⟨_, rfl, by simp only [hlive]⟩
    | absent | done => exact ⟨s, rfl, rfl⟩
    | read value expireAt =>
      dsimp only
      by_cases hpast : millisLeft s.now expireAt < 0
      · have hpast' : millisLeft s.view.now expireAt < 0 := hpast
        rw [if_pos hpast, if_pos hpast']
        exact ⟨_, rfl, rfl⟩
      · have hpast' : ¬ millisLeft s.view.now expireAt < 0 := hpast
        rw [if_neg hpast, if_neg hpast']
        cases mv.serialize value <;> exact ⟨_, rfl, rfl⟩
    | sending ttlMs serialized =>
      obtain ⟨reply, target, hs, hreply, hlive⟩ :=
        @cmdRestore_answers mv s.now ttlMs serialized s.target
      simp only [hs, Go.ok_bind, view]
      generalize mv.restored s.now ttlMs serialized (s.target.live s.now) = r at hreply hlive ⊢
      obtain ⟨taken, w⟩ := r
      cases taken with
      | true =>
        obtain ⟨text, rfl⟩ := hreply.2 rfl
        exact ⟨_, rfl, by simp [hlive]⟩
      | false =>
        cases reply with
        | simple text => exact absurd (hreply.1 ⟨text, rfl⟩) (by simp)
        | _ => exact ⟨_, rfl, by simp [hlive]⟩
    | deleting =>
      obtain ⟨n, source, hs, hlive⟩ := hdel
      simp only [hs, Go.ok_bind, view]
      exact ⟨_, rfl, by simp only [hlive]⟩

lemma run_view (s : MoveState) (program : List MoveEvent) :
    ∃ s', Runs.run mv.step s program = .ok s' ∧ s'.view = program.foldl mv.look s.view :=
  Runs.run_view mv.step_view s program

end KeyMove

end AutoCache.Protocol
