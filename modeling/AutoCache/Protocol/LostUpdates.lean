import AutoCache.Protocol.KeyMove
import AutoCache.Store.Lasting

/-!
# Updates lost in a move

Whatever happens after `GetEntry`, what it read arrives on the target and stays there, and the source
ends up empty or with what a client wrote after `Del`. So the two nodes agree with the last command
only if it wrote what `GetEntry` read, or if there was nothing to read.

Writes of a key that no read finds, and of values that are cut, are lost without any move.
-/

namespace AutoCache.Protocol

open Cluster KeyState Store List Option

/-! ## Values without a deadline -/

/-- The copies of a value without a deadline. -/
def planted : Value → KeyState
  | .string text => ⟨some (plain text), none⟩
  | .object o => ⟨none, some ⟨o, 0⟩⟩

section Lasting

variable {w : World} {key value : Bytes} {t : Int}

lemma later_planted {a : Value} (hr : ∀ text, a = .string text → Readable key)
    (h : w key = planted a) : w.later t key = planted a := by
  cases a with
  | string text =>
    ext1
    · exact later_plain (hr text rfl) (by rw [h]; rfl)
    · simp [World.later, h, planted]
  | object o => exact later_object h

lemma value_planted {a : Value} (h : ∀ text, a = .string text → text.length < 65536) : (planted a).value = some a := by
  cases a with
  | string text => simp [planted, value, plain, Slot.text, writtenEntry, storedValue_of_short (h text rfl)]
  | object o => rfl

lemma delKey_self : w.delKey key key = gone := by
  rw [World.delKey_apply, if_pos rfl]
  rfl

lemma entry_gone (h : w key = gone) : w.entry key t = none := by
  simp [World.entry, h, gone]

lemma entry_plain (h : (w key).str = some (plain value)) : w.entry key t = some (.string (storedValue value), 0) := by
  simp only [World.entry, h, plain, Slot.ttl, writtenEntry, deadline_zero, if_true, Slot.text]
  rfl

end Lasting

namespace KeyMove

variable {mv : KeyMove} {v : MoveView} {value : Bytes} {program : List MoveEvent}

lemma look_set (h : ¬ Cache.TooLarge mv.sourceConfig.size mv.key value) : mv.look v (.client (.set value)) = { v with
        source := v.source.setStr mv.key (if Readable mv.key then some (plain value) else none)
        last := some (.set value) } := by
  simp only [look, World.set_of_fits h]

variable {e : MoveEvent} {a : Value}

lemma Acknowledges.cons (h : mv.Acknowledges (e :: program)) : mv.Acknowledges program :=
  fun value hmem => h value (mem_cons_of_mem e hmem)

lemma foldl_keeps {I : MoveView → Prop} (hstep : ∀ v, ∀ e ∈ program, I v → I (mv.look v e)) (h : I v) :
    I (program.foldl mv.look v) := by
  induction program generalizing v with
  | nil => exact h
  | cons e program ih =>
    exact ih (fun v e' hmem => hstep v e' (mem_cons_of_mem e hmem)) (hstep v e mem_cons_self h)

lemma advanceView_last : (mv.advanceView v).last = v.last := by
  unfold advanceView
  repeat' split
  all_goals rfl

lemma last_foldl (hack : mv.Acknowledges program) :
    (program.foldl mv.look v).last = (clientCmds program).getLast?.or v.last := by
  induction program generalizing v with
  | nil => simp [clientCmds]
  | cons e program ih =>
    rw [foldl_cons, ih hack.cons]
    cases e with
    | wait ns => rfl
    | client c =>
      have hlast : (mv.look v (.client c)).last = some c := by
        cases c with
        | set value => rw [look_set (hack value mem_cons_self)]
        | del => rfl
      change _ = (c :: clientCmds program).getLast?.or v.last
      rw [hlast, getLast?_cons]
      cases (clientCmds program).getLast? <;> rfl
    | move =>
      change _ = (clientCmds program).getLast?.or v.last
      rw [show mv.look v .move = mv.advanceView v from rfl, advanceView_last]

lemma advanceView_source (h : v.phase ≠ .deleting) : (mv.advanceView v).source = v.source := by
  unfold advanceView
  repeat' split
  any_goals rfl
  exact absurd ‹_› h

lemma look_phase (h : e ≠ .move) : (mv.look v e).phase = v.phase := by
  cases e with
  | wait ns => rfl
  | client c =>
    cases c with
    | set value =>
      simp only [look]
      split <;> rfl
    | del => rfl
  | move => exact absurd rfl h

lemma look_target (h : e ≠ .move) : (mv.look v e).target = v.target ∨ ∃ t, (mv.look v e).target = v.target.later t := by
  cases e with
  | wait ns => exact .inr ⟨_, rfl⟩
  | client c =>
    left
    cases c with
    | set value =>
      simp only [look]
      split <;> rfl
    | del => rfl
  | move => exact absurd rfl h

/-- What a passing moment keeps of the target, every event but a step of the move keeps. -/
lemma look_target_keeps {k : KeyState} (he : e ≠ .move)
    (hlater : ∀ w : World, ∀ t, w mv.key = k → w.later t mv.key = k) (h : v.target mv.key = k) :
    (mv.look v e).target mv.key = k := by
  rcases @look_target mv v e he with heq | ⟨t, heq⟩
  · rwa [heq]
  · rw [heq]
    exact hlater _ t h

/-- The source holds what the last command left, until the end of the move deletes it. -/
def Keeps (mv : KeyMove) (v : MoveView) : Prop :=
  match v.last with
  | none => True
  | some (.set value) => Readable mv.key →
    (v.source mv.key).str = some (plain value) ∨
      v.phase = .done ∧ v.source mv.key = gone
  | some .del => v.source mv.key = gone

lemma Keeps.congr {v' : MoveView} (h : mv.Keeps v) (hlast : v'.last = v.last) (hdone : v.phase = .done → v'.phase = .done)
    (hstr : ∀ value, Readable mv.key → (v.source mv.key).str = some (plain value) →
      (v'.source mv.key).str = some (plain value))
    (hgone : v.source mv.key = gone → v'.source mv.key = gone) : mv.Keeps v' := by
  unfold Keeps at h ⊢
  rw [hlast]
  match v.last, h with
  | none, _ => trivial
  | some (.set value), h => exact fun hr => (h hr).imp (hstr value hr) fun hend => ⟨hdone hend.1, hgone hend.2⟩
  | some .del, h => exact hgone h

lemma Keeps.look (hack : ∀ value, e = .client (.set value) →
    ¬ Cache.TooLarge mv.sourceConfig.size mv.key value) (h : mv.Keeps v) : mv.Keeps (mv.look v e) := by
  cases e with
  | wait ns => exact h.congr rfl id (fun _ hr => later_plain hr) later_gone
  | client c =>
    cases c with
    | set value =>
      rw [look_set (hack value rfl)]
      intro hr
      left
      simp [World.setStr_apply, hr]
    | del => exact del_gone
  | move =>
    change mv.Keeps (mv.advanceView v)
    by_cases hdel : v.phase = .deleting
    · simp only [advanceView, hdel, Keeps]
      split
      · trivial
      · exact fun _ => .inr ⟨trivial, del_gone⟩
      · exact del_gone
    · refine h.congr advanceView_last (fun hdone => ?_) ?_ ?_
      · simp only [advanceView, hdone]
      · rw [advanceView_source hdel]
        exact fun _ _ => id
      · rw [advanceView_source hdel]
        exact id

lemma Keeps.foldl (hack : mv.Acknowledges program) (h : mv.Keeps v) : mv.Keeps (program.foldl mv.look v) :=
  foldl_keeps (fun _ _ hmem h => h.look fun value heq => hack value (heq ▸ hmem)) h

/-! ### Before `GetEntry` -/

/-- Nothing has left yet. -/
structure Waiting (mv : KeyMove) (v : MoveView) : Prop where
  idle : v.phase = .idle
  target : v.target mv.key = gone

lemma Waiting.foldl (hmoves : ∀ e ∈ program, e ≠ .move) (h : mv.Waiting v) : mv.Waiting (program.foldl mv.look v) := by
  refine foldl_keeps (fun v e hmem h => ⟨?_, ?_⟩) h
  · rw [look_phase (hmoves e hmem)]
    exact h.idle
  · exact look_target_keeps (hmoves e hmem) (fun _ _ => later_gone) h.target

/-- `GetEntry` finds nothing. -/
structure Absent (mv : KeyMove) (v : MoveView) : Prop where
  absent : v.phase = .absent
  target : v.target mv.key = gone

lemma Waiting.absent (h : mv.Waiting v) (hsrc : v.source mv.key = gone) : mv.Absent (mv.look v .move) := by
  have heq : mv.look v .move = { v with phase := .absent } := by
    simp only [look, advanceView, h.idle, entry_gone hsrc]
  rw [heq]
  exact ⟨rfl, h.target⟩

lemma Absent.foldl (h : mv.Absent v) : mv.Absent (program.foldl mv.look v) := by
  refine foldl_keeps (fun v e _ h => ?_) h
  by_cases he : e = .move
  · have heq : mv.look v e = v := by simp only [he, look, advanceView, h.absent]
    rwa [heq]
  · exact ⟨by rw [look_phase he]; exact h.absent, look_target_keeps he (fun _ _ => later_gone) h.target⟩

/-! ### A value on its way -/

/-- The value can be kept under the key. -/
def Settles (mv : KeyMove) (a : Value) : Prop :=
  ∀ text, a = .string text → Readable mv.key ∧ text.length < 65536

/-- `a` is on its way to the target, or has arrived. -/
def Bringing (mv : KeyMove) (a : Value) (v : MoveView) : Prop :=
  match v.phase with
  | .idle | .absent => False
  | .read value expireAt =>
    expireAt = 0 ∧ mv.carried value = some a ∧ v.target mv.key = gone
  | .sending ttlMs serialized =>
    ttlMs = 0 ∧ serializedValue mv.targetConfig serialized = some a ∧
      v.target mv.key = gone
  | .deleting | .done => v.target mv.key = planted a

lemma restored_planted {serialized : Bytes} {now : Int} {w : World} (ha : mv.Settles a)
    (hval : serializedValue mv.targetConfig serialized = some a) (hw : w mv.key = gone) :
    ∃ w', mv.restored now 0 serialized w = (true, w') ∧ w' mv.key = planted a := by
  have hhas : w.has mv.key = false := by simp [World.has, hw, gone]
  have hparse : parseInt (formatInt 0) = some 0 := by decide
  have hgone := @delKey_self w mv.key
  have httl : restoreTTL 0 = 0 := rfl
  unfold restored arrives
  simp only [hparse, hhas, hval, httl, Bool.false_eq_true, and_false, if_false]
  cases a with
  | string text =>
    obtain ⟨hr, hshort⟩ := ha text rfl
    refine ⟨(w.delKey mv.key).setStr mv.key (some (plain text)), ?_, ?_⟩
    · simp only [World.restore, World.set_of_fits (not_tooLarge_of_short hr hshort), if_pos hr]
      rfl
    · rw [World.setStr_apply, if_pos rfl, hgone]
      rfl
  | object o =>
    have hfresh : freshObject now ⟨o, objectDeadline 0 now⟩ = some ⟨o, 0⟩ := by
      rw [freshObject_eq, if_neg (by simp [Object.expired, objectDeadline])]
      rfl
    refine ⟨(w.delKey mv.key).setObj mv.key (some ⟨o, 0⟩), ?_, ?_⟩
    · simp only [World.restore, hfresh]
      rfl
    · rw [World.setObj_apply, if_pos rfl, hgone]
      rfl

def stepsLeft : MovePhase → ℕ
  | .idle => 4
  | .read _ _ => 3
  | .sending _ _ => 2
  | .deleting => 1
  | .absent | .done => 0

lemma Bringing.advance (ha : mv.Settles a) (h : mv.Bringing a v) : mv.Bringing a (mv.advanceView v) ∧
      stepsLeft (mv.advanceView v).phase = stepsLeft v.phase - 1 := by
  unfold Bringing at h
  unfold advanceView
  split
  · next hph => simp [hph] at h
  · next value expireAt hph =>
    simp only [hph] at h
    obtain ⟨rfl, hcarried, htgt⟩ := h
    have hmillis : millisLeft v.now 0 = 0 := rfl
    rw [hmillis, if_neg (by omega), hph]
    unfold carried at hcarried
    cases hser : mv.serialize value with
    | none => simp [hser] at hcarried
    | some serialized =>
      rw [hser] at hcarried
      exact ⟨⟨rfl, hcarried, htgt⟩, rfl⟩
  · next ttlMs serialized hph =>
    simp only [hph] at h
    obtain ⟨rfl, hval, htgt⟩ := h
    obtain ⟨w', hw', hplanted⟩ := @restored_planted mv a serialized v.now v.target ha hval htgt
    rw [hw', hph]
    exact ⟨hplanted, rfl⟩
  · next hph =>
    simp only [hph] at h
    rw [hph]
    exact ⟨h, rfl⟩
  · next hph => simp [hph] at h
  · next hph =>
    exact ⟨by simpa only [Bringing, hph] using h, by rw [hph]; rfl⟩

/-- **A value on its way arrives**, whatever happens meanwhile. -/
lemma Bringing.look (ha : mv.Settles a) (h : mv.Bringing a v) : mv.Bringing a (mv.look v e) := by
  by_cases he : e = .move
  · subst he
    exact (h.advance ha).1
  have hstays : ∀ w : World, ∀ t, w mv.key = planted a → w.later t mv.key = planted a :=
    fun w t => later_planted fun text heq => (ha text heq).1
  unfold Bringing at h ⊢
  rw [look_phase he]
  cases hph : v.phase with
  | idle | absent => simp [hph] at h
  | read value expireAt | sending ttlMs serialized =>
    simp only [hph] at h
    exact ⟨h.1, h.2.1, look_target_keeps he (fun _ _ => later_gone) h.2.2⟩
  | deleting | done =>
    simp only [hph] at h
    exact look_target_keeps he hstays h

lemma Bringing.done (ha : mv.Settles a) (h : mv.Bringing a v)
    (hmoves : stepsLeft v.phase ≤ program.count .move) : (program.foldl mv.look v).phase = .done := by
  induction program generalizing v with
  | nil =>
    unfold Bringing at h
    cases hph : v.phase <;> simp_all [stepsLeft]
  | cons e program ih =>
    refine ih (h.look ha) ?_
    by_cases he : e = .move
    · subst he
      rw [show (mv.look v .move).phase = (mv.advanceView v).phase from rfl, (h.advance ha).2]
      rw [count_cons_self] at hmoves
      omega
    · rw [look_phase he]
      rwa [count_cons_of_ne he] at hmoves

lemma Bringing.shown (ha : mv.Settles a) (h : mv.Bringing a v) (hmoves : stepsLeft v.phase ≤ program.count .move) :
    (program.foldl mv.look v).phase = .done ∧ ((program.foldl mv.look v).target mv.key).value = some a := by
  have hdone := h.done ha hmoves
  have hend : mv.Bringing a (program.foldl mv.look v) := foldl_keeps (fun _ _ _ h => h.look ha) h
  simp only [Bringing, hdone] at hend
  exact ⟨hdone, by rw [hend, value_planted fun text heq => (ha text heq).2]⟩

lemma carried_string (text : Bytes) : mv.carried (.string text) = some (.string text) := rfl

lemma carried_object {o : TypedValue} (h : mv.carried (.object o) = some a) : ∃ o', a = .object o' := by
  unfold carried serialize at h
  cases hm : mv.marshal o with
  | none => simp [hm] at h
  | some payload =>
    have hrestored : restoredValue mv.targetConfig o.type payload =
        (mv.targetConfig.unmarshal o.type payload).map .object := by
      cases o <;> rfl
    simp only [hm, map_some, bind_some, serializedValue, typeOfByte_byteOfType, hrestored] at h
    cases hu : mv.targetConfig.unmarshal o.type payload with rw [hu] at h
    | error text =>
      cases h
    | ok o' =>
      exact ⟨o', (some.inj h).symm⟩

/-! ### Keys that no read finds -/

/-- Nothing is on its way but strings. -/
def Barren (mv : KeyMove) (v : MoveView) : Prop :=
  v.target mv.key = gone ∧
    match v.phase with
    | .read value _ => ∀ o, mv.carried value ≠ some (.object o)
    | .sending _ serialized => ∀ o, serializedValue mv.targetConfig serialized ≠ some (.object o)
    | _ => True

section Unreadable

variable (hr : ¬ Readable mv.key)

include hr

lemma restored_barren {ttlMs now : Int} {serialized : Bytes} {w : World}
    (hval : ∀ o, serializedValue mv.targetConfig serialized ≠ some (.object o))
    (hw : w mv.key = gone) : (mv.restored now ttlMs serialized w).2 mv.key = gone := by
  unfold restored
  split
  · exact hw
  split
  · exact hw
  unfold arrives
  split
  · exact hw
  rename_i value hsome
  cases value with
  | object o => exact absurd hsome (hval o)
  | string text =>
    have hgone := @delKey_self w mv.key
    simp only [World.restore, World.set]
    split
    · simp [World.setStr_apply, hgone, gone]
    · simp [World.putStr, World.setStr_apply, freshSlot_entry, hr, hgone, gone]

lemma Barren.look (hobjects : ∀ o, mv.carried (.object o) = none) {e : MoveEvent} (h : mv.Barren v) :
    mv.Barren (mv.look v e) := by
  obtain ⟨htgt, hph⟩ := h
  by_cases he : e = .move
  · subst he
    change mv.Barren (mv.advanceView v)
    unfold advanceView
    split
    · split
      · exact ⟨htgt, trivial⟩
      · next value expireAt _ =>
        refine ⟨htgt, fun o => ?_⟩
        cases value with
        | string text => simp [carried_string]
        | object o' => simp [hobjects]
    · next value expireAt heq =>
      rw [heq] at hph
      split
      · refine ⟨htgt, ?_⟩
        cases mv.deletesExpired <;> trivial
      · cases hser : mv.serialize value with
        | none => exact ⟨htgt, trivial⟩
        | some serialized =>
          refine ⟨htgt, fun o hsome => hph o ?_⟩
          rw [carried, hser, bind_some, hsome]
    · next ttlMs serialized heq =>
      rw [heq] at hph
      have hleft := @restored_barren mv hr ttlMs v.now serialized v.target hph htgt
      split <;> rename_i htaken <;> rw [htaken] at hleft <;> exact ⟨hleft, trivial⟩
    · exact ⟨htgt, trivial⟩
    all_goals exact ⟨htgt, by rw [‹v.phase = _›]; trivial⟩
  · refine ⟨look_target_keeps he (fun _ _ => later_gone) htgt, ?_⟩
    rw [look_phase he]
    exact hph

lemma look_source_gone {e : MoveEvent} (hack : ∀ value, e = .client (.set value) →
      ¬ Cache.TooLarge mv.sourceConfig.size mv.key value)
    (h : v.source mv.key = gone) : (mv.look v e).source mv.key = gone := by
  cases e with
  | wait ns => exact later_gone h
  | client c =>
    cases c with
    | set value =>
      rw [look_set (hack value rfl)]
      simp [World.setStr_apply, hr, h, gone]
    | del => exact del_gone
  | move =>
    by_cases hdel : v.phase = .deleting
    · simp only [look, advanceView, hdel]
      exact del_gone
    · change (mv.advanceView v).source mv.key = _
      rw [advanceView_source hdel, h]

lemma foldl_source_gone (hack : mv.Acknowledges program) (h : v.source mv.key = gone) :
    (program.foldl mv.look v).source mv.key = gone :=
  foldl_keeps (I := fun v => v.source mv.key = gone)
    (fun _ _ hmem h => look_source_gone hr (fun value heq => hack value (heq ▸ hmem)) h) h

lemma foldl_source_gone_of_del (hack : mv.Acknowledges program) (h : .del ∈ clientCmds program) :
    (program.foldl mv.look v).source mv.key = gone := by
  obtain ⟨pre, post, rfl⟩ := append_of_mem (mem_clientCmds.1 h)
  rw [foldl_append, foldl_cons]
  exact foldl_source_gone hr (fun value hv => hack value (by simp [hv])) del_gone

lemma foldl_source_object {o : TypedValue} (hack : mv.Acknowledges program)
    (hmoves : ∀ e ∈ program, e ≠ .move) (hdel : .del ∉ clientCmds program)
    (h : v.source mv.key = ⟨none, some ⟨o, 0⟩⟩) :
    (program.foldl mv.look v).source mv.key = ⟨none, some ⟨o, 0⟩⟩ := by
  refine foldl_keeps (I := fun v => v.source mv.key = ⟨none, some ⟨o, 0⟩⟩) (fun v e hmem h => ?_) h
  cases e with
  | wait ns => exact later_object h
  | client c =>
    cases c with
    | set value =>
      rw [look_set (hack value hmem)]
      simp [World.setStr_apply, hr, h]
    | del => exact absurd (mem_clientCmds.2 hmem) hdel
  | move => exact absurd rfl (hmoves _ hmem)

end Unreadable

/-! ## Whole interleavings -/

/-- `Reflects` on worlds. -/
def ReflectsView (mv : KeyMove) (v : MoveView) : Prop :=
  match v.last with
  | none => True
  | some (.set value) =>
    ((v.source mv.key).value = some (.string value) ∨ (v.target mv.key).value = some (.string value)) ∧
      (∀ a, (v.source mv.key).value = some a → a = .string value) ∧
      ∀ a, (v.target mv.key).value = some a → a = .string value
  | some .del => (v.source mv.key).value = none ∧ (v.target mv.key).value = none

def start (now : Int) (source target : Store Cache) : MoveView :=
  ⟨now, source.live now, target.live now, .idle, none⟩

lemma noLostUpdate_iff_view : mv.NoLostUpdate program ↔ ∀ now source target, target.live now mv.key = gone →
      ((program.foldl mv.look (start now source target)).phase).Finished →
        mv.ReflectsView (program.foldl mv.look (start now source target)) := by
  constructor
  · intro h now source target htgt hfin
    obtain ⟨s, hs, hview⟩ := @run_view mv { now, source, target } program
    have hsame : program.foldl mv.look (start now source target) = s.view := hview.symm
    rw [hsame] at hfin ⊢
    exact h now source target (value_eq_none_iff.2 htgt) s hs hfin
  · intro h now source target htgt s hs hfin
    obtain ⟨s', hs', hview⟩ := @run_view mv { now, source, target } program
    cases hs.symm.trans hs'
    have hend := h now source target (value_eq_none_iff.1 htgt)
    rw [show program.foldl mv.look (start now source target) = s.view from hview.symm] at hend
    exact hend hfin

/-- The events before `GetEntry`, and those after it. -/
lemma exists_split (h : 4 ≤ program.count .move) : ∃ pre post,
    program = pre ++ .move :: post ∧ (∀ e ∈ pre, e ≠ .move) ∧ cmdsBefore program = clientCmds pre ∧ 3 ≤ post.count .move := by
  have hmem : MoveEvent.move ∈ program := count_pos_iff.1 (by omega)
  obtain ⟨pre, post, rfl, hpre⟩ := eq_append_cons_of_mem hmem
  refine ⟨pre, post, rfl, fun e he heq => hpre (heq ▸ he), ?_, ?_⟩
  · have hall : ∀ e ∈ pre, decide (e ≠ .move) := fun e he => decide_eq_true fun heq => hpre (heq ▸ he)
    rw [cmdsBefore, takeWhile_append_of_pos hall]
    simp
  · rw [count_append, count_cons_self, count_eq_zero.2 hpre] at h
    omega

/-- What holds of every interleaving: at `GetEntry`, and at the end. -/
structure Course (mv : KeyMove) (program : List MoveEvent) (read finish : MoveView) : Prop where
  waiting : mv.Waiting read
  readKeeps : mv.Keeps read
  readLast : read.last = (cmdsBefore program).getLast?
  keeps : mv.Keeps finish
  last : finish.last = (clientCmds program).getLast?
  removed : ¬ Readable mv.key → .del ∈ cmdsBefore program → read.source mv.key = gone
  follows : ∃ post : List MoveEvent,
    finish = post.foldl mv.look (mv.look read .move) ∧ 3 ≤ post.count .move

section Course

variable {read finish : MoveView}

lemma exists_course (hack : mv.Acknowledges program) (hmoves : 4 ≤ program.count .move) :
    ∃ pre : List MoveEvent, (∀ e ∈ pre, e ≠ .move) ∧ cmdsBefore program = clientCmds pre ∧
      mv.Acknowledges pre ∧ ∀ now source target, target.live now mv.key = gone →
        mv.Course program (pre.foldl mv.look (start now source target))
          (program.foldl mv.look (start now source target)) := by
  obtain ⟨pre, post, hsplit, hpre, hbefore, hpost⟩ := exists_split hmoves
  have hackPre : mv.Acknowledges pre := fun value hmem => hack value (by simp [hsplit, hmem])
  refine ⟨pre, hpre, hbefore, hackPre, fun now source target htgt => ?_⟩
  have hkp : mv.Keeps (start now source target) := trivial
  have hwaiting : mv.Waiting (start now source target) := ⟨rfl, htgt⟩
  refine ⟨hwaiting.foldl hpre, hkp.foldl hackPre, ?_, hkp.foldl hack, ?_, fun hr hdel => ?_, post, ?_, hpost⟩
  · rw [last_foldl hackPre, hbefore, start, or_none]
  · rw [last_foldl hack, start, or_none]
  · exact foldl_source_gone_of_del hr hackPre (hbefore ▸ hdel)
  · rw [hsplit, foldl_append, foldl_cons]

section

variable (h : mv.Course program read finish)
include h

lemma Course.absent (hgone : read.source mv.key = gone) : finish.phase = .absent ∧ finish.target mv.key = gone := by
  obtain ⟨post, rfl, -⟩ := h.follows
  have hend := @Absent.foldl mv _ post (h.waiting.absent hgone)
  exact ⟨hend.absent, hend.target⟩

lemma Course.source_of_del (hdel : (cmdsBefore program).getLast? = some .del) : read.source mv.key = gone := by
  have hkp := h.readKeeps
  rw [Keeps, h.readLast, hdel] at hkp
  exact hkp

lemma Course.arrived {value a : Value} (ha : mv.Settles a) (hent : read.source.entry mv.key read.now = some (value, 0))
    (hcarried : mv.carried value = some a) :
    finish.phase = .done ∧ (finish.target mv.key).value = some a := by
  obtain ⟨post, rfl, hpost⟩ := h.follows
  have hlook : mv.look read .move = { read with phase := .read value 0 } := by
    simp only [look, advanceView, h.waiting.idle, hent]
  have hbringing : mv.Bringing a (mv.look read .move) := by
    rw [hlook]
    exact ⟨rfl, hcarried, h.waiting.target⟩
  refine hbringing.shown ha ?_
  rw [hlook]
  exact hpost

lemma Course.plain_read (hr : Readable mv.key) {value : Bytes} (hset : (cmdsBefore program).getLast? = some (.set value)) :
    (read.source mv.key).str = some (plain value) := by
  have hkp := h.readKeeps
  rw [Keeps, h.readLast, hset] at hkp
  rcases hkp hr with hstr | ⟨hdone, -⟩
  · exact hstr
  · rw [h.waiting.idle] at hdone
    cases hdone

end

lemma Course.arrived_set (h : mv.Course program read finish) (hr : Readable mv.key) {value : Bytes}
    (hstr : (read.source mv.key).str = some (plain value)) :
    finish.phase = .done ∧ (finish.target mv.key).value = some (.string (storedValue value)) :=
  h.arrived (by rintro text ⟨⟩; exact ⟨hr, storedValue_short value⟩) (entry_plain hstr) (carried_string _)

/-- **Sufficiency.** -/
lemma Course.reflects (h : mv.Course program read finish) (hharmless : mv.Harmless program) : mv.ReflectsView finish := by
  have hkp := h.keeps
  have hlast := h.last
  unfold Harmless at hharmless
  unfold Keeps at hkp
  unfold ReflectsView
  rw [hlast] at hkp ⊢
  cases hcmd : (clientCmds program).getLast? with
  | none => trivial
  | some cmd =>
    rw [hcmd] at hkp hharmless
    cases cmd with
    | set value =>
      obtain ⟨hr, hshort, hread⟩ := hharmless
      have hshown (hstr : (finish.source mv.key).str = some (plain value)) :
          (finish.source mv.key).value = some (.string value) := by
        simp only [KeyState.value, hstr, plain, Slot.text, writtenEntry, storedValue_of_short hshort]
      rcases hread with hdel | ⟨v, hset, hstored⟩
      · obtain ⟨hph, htgt⟩ := h.absent (h.source_of_del hdel)
        rcases hkp hr with hstr | ⟨hdone, -⟩
        · dsimp only
          rw [hshown hstr, value_eq_none_iff.2 htgt]
          simp
        · rw [hph] at hdone
          cases hdone
      · obtain ⟨-, htgt⟩ := h.arrived_set hr (h.plain_read hr hset)
        rw [hstored] at htgt
        rw [htgt]
        refine ⟨.inr rfl, fun a ha => ?_, fun a ha => (some.inj ha).symm⟩
        rcases hkp hr with hstr | ⟨-, hgone⟩
        · rw [hshown hstr] at ha
          exact (some.inj ha).symm
        · rw [value_eq_none_iff.2 hgone] at ha
          cases ha
    | del =>
      refine ⟨value_eq_none_iff.2 hkp, value_eq_none_iff.2 ?_⟩
      by_cases hr : Readable mv.key
      · rw [if_pos hr] at hharmless
        exact (h.absent (h.source_of_del hharmless)).2
      · rw [if_neg hr] at hharmless
        rcases hharmless with hdel | hobjects
        · exact (h.absent (h.removed hr hdel)).2
        · obtain ⟨post, rfl, -⟩ := h.follows
          have hbarren : mv.Barren read := ⟨h.waiting.target, by rw [h.waiting.idle]; trivial⟩
          exact (foldl_keeps (fun _ _ _ h => h.look hr hobjects) (hbarren.look hr hobjects)).1

end Course

/-! ### Updates that are lost -/

lemma live_nothing (now : Int) (key : Bytes) : (Store.single key none none).live now key = gone := by
  rw [live_single, if_pos rfl]
  rfl

lemma lost_of {source : Store Cache} {v : MoveView}
    (hv : program.foldl mv.look (start 0 source (Store.single mv.key none none)) = v)
    (hfin : v.phase.Finished) (hlost : ¬ mv.ReflectsView v) : ¬ mv.NoLostUpdate program := by
  intro hall
  have hend := noLostUpdate_iff_view.1 hall 0 source _ (live_nothing 0 mv.key)
  rw [hv] at hend
  exact hlost (hend hfin)

section Lost

variable (hack : mv.Acknowledges program) (hmoves : 4 ≤ program.count .move)

include hack hmoves

/-- A string that `GetEntry` reads is on the target at the end. -/
lemma exists_string (u : Bytes) (hr : Readable mv.key) (hB : (cmdsBefore program).getLast? ≠ some .del) :
    ∃ source x v, program.foldl mv.look (start 0 source (Store.single mv.key none none)) = v ∧
      ((cmdsBefore program).getLast? = none ∧ x = u ∨ (cmdsBefore program).getLast? = some (.set x)) ∧
      v.phase.Finished ∧ v.last = (clientCmds program).getLast? ∧
      (v.target mv.key).value = some (.string (storedValue x)) := by
  obtain ⟨pre, hpre, hbefore, -, hall⟩ := exists_course hack hmoves
  have hcourse := hall 0 (single mv.key (some (plain u)) none) _ (live_nothing 0 mv.key)
  have hread : ∃ x, ((cmdsBefore program).getLast? = none ∧ x = u ∨ (cmdsBefore program).getLast? = some (.set x)) ∧
      ((pre.foldl mv.look (start 0 (single mv.key (some (plain u)) none)
        (single mv.key none none))).source mv.key).str = some (plain x) := by
    cases hlast : (cmdsBefore program).getLast? with
    | none =>
      refine ⟨u, .inl ⟨rfl, rfl⟩, ?_⟩
      -- only time passes before `GetEntry`
      refine foldl_keeps (I := fun v => (v.source mv.key).str = some (plain u))
        (fun v e hmem h => ?_) (by simp [start, live_single, @live_plain mv.key u 0 hr])
      cases e with
      | wait ns => exact later_plain hr h
      | client c =>
        rw [hbefore, getLast?_eq_none_iff] at hlast
        exact absurd (mem_clientCmds.2 hmem) (by simp [hlast])
      | move => exact absurd rfl (hpre _ hmem)
    | some cmd =>
      cases cmd with
      | set v => exact ⟨v, .inr rfl, hcourse.plain_read hr hlast⟩
      | del => exact absurd hlast hB
  obtain ⟨x, hx, hstr⟩ := hread
  obtain ⟨hdone, htgt⟩ := hcourse.arrived_set hr hstr
  exact ⟨_, x, _, rfl, hx, by rw [hdone]; trivial, hcourse.last, htgt⟩

variable {value : Bytes}

lemma lost_of_unreadable (hr : ¬ Readable mv.key)
    (hcmd : (clientCmds program).getLast? = some (.set value)) : ¬ mv.NoLostUpdate program := by
  obtain ⟨pre, -, -, hackPre, hall⟩ := exists_course hack hmoves
  have hstart : (start 0 (single mv.key none none) (single mv.key none none)).source mv.key = gone := live_nothing 0 mv.key
  have hcourse := hall 0 (single mv.key none none) _ (live_nothing 0 mv.key)
  obtain ⟨hph, htgt⟩ := hcourse.absent (foldl_source_gone hr hackPre hstart)
  have hsrc := foldl_source_gone hr hack hstart
  refine lost_of rfl (by rw [hph]; trivial) fun hend => ?_
  rw [ReflectsView, hcourse.last, hcmd] at hend
  simp [value_eq_none_iff.2 hsrc, value_eq_none_iff.2 htgt] at hend

lemma lost_of_long (hr : Readable mv.key) (hlong : 65536 ≤ value.length)
    (hcmd : (clientCmds program).getLast? = some (.set value)) : ¬ mv.NoLostUpdate program := by
  have hcut (x : Bytes) : storedValue x ≠ value := fun h => by
    have := storedValue_short x
    rw [h] at this
    omega
  by_cases hB : (cmdsBefore program).getLast? = some .del
  · obtain ⟨pre, -, -, -, hall⟩ := exists_course hack hmoves
    have hcourse := hall 0 (single mv.key none none) _ (live_nothing 0 mv.key)
    obtain ⟨hph, htgt⟩ := hcourse.absent (hcourse.source_of_del hB)
    refine lost_of rfl (by rw [hph]; trivial) fun hend => ?_
    have hkp := hcourse.keeps
    rw [Keeps, hcourse.last, hcmd] at hkp
    rw [ReflectsView, hcourse.last, hcmd] at hend
    rcases hkp hr with hstr | ⟨hdone, -⟩
    · rcases hend.1 with hshown | hshown
      · simp only [KeyState.value, hstr, plain, Slot.text, writtenEntry, some.injEq, Value.string.injEq] at hshown
        exact hcut value hshown
      · rw [value_eq_none_iff.2 htgt] at hshown
        cases hshown
    · rw [hph] at hdone
      cases hdone
  · obtain ⟨source, x, v, hv, -, hfin, hlast, htgt⟩ := exists_string hack hmoves [] hr hB
    refine lost_of hv hfin fun hend => ?_
    rw [ReflectsView, hlast, hcmd] at hend
    exact hcut x (Value.string.inj (hend.2.2 _ htgt))

lemma lost_of_stale (hr : Readable mv.key) (hcmd : (clientCmds program).getLast? = some (.set value))
    (hB : (cmdsBefore program).getLast? ≠ some .del)
    (hstale : ∀ v, (cmdsBefore program).getLast? = some (.set v) → storedValue v ≠ value) :
    ¬ mv.NoLostUpdate program := by
  let u : Bytes := if value = [] then [0] else []
  have hu : storedValue u ≠ value := by
    dsimp only [u]
    split
    · next h => rw [h]; decide
    · next h => exact fun heq => h heq.symm
  obtain ⟨source, x, v, hv, hx, hfin, hlast, htgt⟩ := exists_string hack hmoves u hr hB
  refine lost_of hv hfin fun hend => ?_
  rw [ReflectsView, hlast, hcmd] at hend
  have hsame := Value.string.inj (hend.2.2 _ htgt)
  rcases hx with ⟨-, rfl⟩ | hset
  · exact hu hsame
  · exact hstale x hset hsame

lemma lost_of_revived (hr : Readable mv.key) (hcmd : (clientCmds program).getLast? = some .del)
    (hB : (cmdsBefore program).getLast? ≠ some .del) : ¬ mv.NoLostUpdate program := by
  obtain ⟨source, x, v, hv, -, hfin, hlast, htgt⟩ := exists_string hack hmoves [] hr hB
  refine lost_of hv hfin fun hend => ?_
  rw [ReflectsView, hlast, hcmd, htgt] at hend
  cases hend.2

lemma lost_of_object (hr : ¬ Readable mv.key) (hcmd : (clientCmds program).getLast? = some .del)
    (hB : .del ∉ cmdsBefore program) {o : TypedValue} {a : Value}
    (hcarried : mv.carried (.object o) = some a) : ¬ mv.NoLostUpdate program := by
  obtain ⟨pre, hpre, hbefore, hackPre, hall⟩ := exists_course hack hmoves
  have hcourse := hall 0 (single mv.key none (some ⟨o, 0⟩)) _ (live_nothing 0 mv.key)
  have hstart : (start 0 (single mv.key none (some ⟨o, 0⟩))
      (single mv.key none none)).source mv.key = ⟨none, some ⟨o, 0⟩⟩ := by
    simp [start, live_single, Object.expired]
  have hread := foldl_source_object hr hackPre hpre (hbefore ▸ hB) hstart
  obtain ⟨o', rfl⟩ := carried_object hcarried
  obtain ⟨hdone, htgt⟩ := hcourse.arrived (fun _ h => by cases h) (by simp [World.entry, hread]) hcarried
  refine lost_of rfl (by rw [hdone]; trivial) fun hend => ?_
  rw [ReflectsView, hcourse.last, hcmd, htgt] at hend
  cases hend.2

end Lost

end KeyMove

/-- `drainKey` between two small nodes, on the key `k`. -/
def drainMove : KeyMove where
  sourceConfig := plainLogical
  targetConfig := plainLogical
  source := plainNode
  target := plainNode
  source_engine := plainNode_engine
  target_engine := plainNode_engine
  key := ascii "k"
  replace := true
  deletesExpired := true
  marshal _ := none

lemma drainMove_readable : Readable drainMove.key := by decide

end AutoCache.Protocol
