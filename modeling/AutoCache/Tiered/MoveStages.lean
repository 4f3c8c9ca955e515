import AutoCache.Tiered.Moves

/-!
# The stages of a move between the tiers

Between two steps of the mover the last operation of the clients on a tier decides what it shows. The
mover stops early if it finds nothing to move; else it goes through all its stages.
-/

namespace AutoCache.Tiered

open List World Cache Function

/-! ## The operations of the clients -/

section Ops

variable {steps rest : List TierStep} {calls : List TierCall} {call : TierCall}

/-- What a call does on the hot tier. -/
def TierCall.hotOp : TierCall → HotOp
  | .set value => .set value
  | .del => .del

/-- What a call ends with. -/
def TierCall.lastStep : TierCall → TierStep
  | .set value => .set value
  | .del => .delWarm

lemma hotOps_append : hotOps (steps ++ rest) = hotOps steps ++ hotOps rest := filterMap_append

lemma clientOps_append : clientOps (steps ++ rest) = clientOps steps ++ clientOps rest :=
  filter_append _ _

lemma hotOps_clientOps : hotOps (clientOps steps) = hotOps steps := by
  simp only [hotOps, clientOps, filterMap_filter]
  congr 1
  funext step
  cases step <;> rfl

lemma mem_hotOps_del : .del ∈ hotOps steps ↔ .delHot ∈ steps := by
  simp only [hotOps, mem_filterMap]
  constructor
  · rintro ⟨step, hmem, h⟩
    cases step <;> simp_all
  · exact fun h => ⟨.delHot, h, rfl⟩

section

variable (h : clientOps steps = calls.flatMap TierCall.steps) (hlast : calls.getLast? = some call)
include h hlast

lemma last_clientOp : (clientOps steps).getLast? = some call.lastStep := by
  obtain ⟨init, rfl⟩ := getLast?_eq_some_iff.1 hlast
  rw [h, flatMap_append]
  cases call <;> simp [TierCall.steps, TierCall.lastStep]

lemma last_hotOp : (hotOps steps).getLast? = some call.hotOp := by
  obtain ⟨init, rfl⟩ := getLast?_eq_some_iff.1 hlast
  rw [← hotOps_clientOps, h, flatMap_append, hotOps_append]
  cases call <;> simp [TierCall.steps, TierCall.hotOp, hotOps]

end

lemma mem_clientOps {step : TierStep} : step ∈ clientOps steps ↔ step ∈ steps ∧ step.isWait = false := by
  simp [clientOps]

lemma not_mem_of_quiet {step : TierStep} (h : clientOps steps = []) (hstep : step.isWait = false) :
    step ∉ steps := fun hmem => by
  have hop := mem_clientOps.2 ⟨hmem, hstep⟩
  rw [h] at hop
  exact not_mem_nil hop

lemma last_set_of_append {value : Bytes} (h : clientOps (steps ++ rest) = calls.flatMap TierCall.steps)
    (hlast : calls.getLast? = some (.set value)) (hne : clientOps rest ≠ []) :
    (hotOps rest).getLast? = some (.set value) := by
  have hclient := last_clientOp h hlast
  rw [clientOps_append] at hclient
  obtain ⟨init, hinit⟩ := getLast?_eq_some_iff.1 ((getLast?_append_of_ne_nil _ hne).symm.trans hclient)
  rw [← hotOps_clientOps, hinit, hotOps_append]
  simp [hotOps, TierCall.lastStep]

lemma delWarm_mem_of_append (h : clientOps (steps ++ rest) = calls.flatMap TierCall.steps)
    (hlast : calls.getLast? = some .del) (hne : clientOps rest ≠ []) : .delWarm ∈ rest := by
  have hclient := last_clientOp h hlast
  rw [clientOps_append] at hclient
  exact (mem_clientOps.1 (mem_of_getLast? ((getLast?_append_of_ne_nil _ hne).symm.trans hclient))).1

end Ops

namespace TierMove

variable {mv : TierMove} {sch : Schedule} {v : MoveView} {steps : List TierStep}

/-! ## Clients alone -/

def clients (mv : TierMove) (v : MoveView) (steps : List TierStep) : MoveView := steps.foldl mv.clientView v

lemma clients_append {rest : List TierStep} :
    mv.clients v (steps ++ rest) = mv.clients (mv.clients v steps) rest := foldl_append

lemma clients_phase : (mv.clients v steps).phase = v.phase := by
  refine foldlRecOn (motive := fun u : MoveView => u.phase = v.phase) steps _ rfl fun u h step _ => ?_
  cases step <;> exact h

lemma clients_withPhase {phase : TierPhase} : mv.clients { v with phase } steps = { mv.clients v steps with phase } := by
  induction steps generalizing v with
  | nil => rfl
  | cons step steps ih =>
    have hstep : mv.clientView { v with phase } step = { mv.clientView v step with phase } := by
      cases step <;> rfl
    simp only [clients, foldl_cons, hstep]
    exact ih

def Shows (mv : TierMove) (v : MoveView) : HotOp → Prop
  | .set value => Readable mv.key → (v.tiers.hot mv.key).str = some (plain value)
  | .del => v.tiers.hot mv.key = .gone

lemma clientView_shows {step : TierStep} {start : Option HotOp}
    (hack : ∀ value, step = .set value → ¬ TooLarge mv.config.size mv.key value)
    (hstart : ∀ op ∈ start, mv.Shows v op) :
    ∀ op ∈ (hotOps [step]).getLast?.or start, mv.Shows (mv.clientView v step) op := by
  intro op hop
  cases step with
  | wait ns =>
    have hshows := hstart op hop
    cases op with
    | set value => exact fun hr => later_plain hr (hshows hr)
    | del => exact later_gone hshows
  | set value =>
    obtain rfl : .set value = op := by simpa [hotOps] using hop
    intro hr
    simp only [clientView, set_of_fits (hack value rfl), setStr_apply, if_pos hr]
    simp
  | delHot =>
    obtain rfl : .del = op := by simpa [hotOps] using hop
    exact del_gone
  | delWarm =>
    have hshows := hstart op hop
    cases op <;> exact hshows

/-- **The last operation on the hot tier decides**; without one, what was there before. -/
lemma clients_shows (start : Option HotOp) (op : HotOp)
    (hack : ∀ value, .set value ∈ steps → ¬ TooLarge mv.config.size mv.key value)
    (hstart : ∀ op ∈ start, mv.Shows v op) (h : (hotOps steps).getLast?.or start = some op) :
    mv.Shows (mv.clients v steps) op := by
  induction steps generalizing v start with
  | nil => exact hstart op h
  | cons step steps ih =>
    refine ih _ (fun value hmem => hack value (mem_cons_of_mem _ hmem))
      (clientView_shows (fun value heq => hack value (heq ▸ mem_cons_self)) hstart) ?_
    rw [← h, show step :: steps = [step] ++ steps from rfl, hotOps_append, getLast?_append, Option.or_assoc]

lemma clients_gone (start : Option HotOp) (hack : ∀ value, .set value ∈ steps → ¬ TooLarge mv.config.size mv.key value)
    (h : (hotOps steps).getLast?.or start = some .del)
    (hstart : start = some .del → v.tiers.hot mv.key = .gone) :
    (mv.clients v steps).tiers.hot mv.key = .gone := by
  cases hlast : (hotOps steps).getLast? with
  | none =>
    rw [hlast, Option.none_or] at h
    exact clients_shows (some .del) .del hack (fun op hop => by cases hop; exact hstart h) (by rw [hlast]; rfl)
  | some op =>
    rw [hlast, Option.some_or] at h
    exact clients_shows none .del hack (by simp) (by rw [hlast]; exact h)

lemma clients_warm_none (h : v.tiers.warm mv.key = none) : (mv.clients v steps).tiers.warm mv.key = none := by
  refine foldlRecOn (motive := fun u : MoveView => u.tiers.warm mv.key = none) steps _ h fun u h step _ => ?_
  cases step <;> simp [clientView, TierView.later, h]

lemma clients_warm_deleted (h : .delWarm ∈ steps) : (mv.clients v steps).tiers.warm mv.key = none := by
  obtain ⟨init, rest, rfl⟩ := append_of_mem h
  rw [clients_append]
  refine clients_warm_none (v := mv.clientView (mv.clients v init) .delWarm) ?_
  simp [clientView]

lemma clients_warm (h : .delWarm ∈ steps ∨ v.tiers.warm mv.key = none) : (mv.clients v steps).tiers.warm mv.key = none :=
  h.elim clients_warm_deleted clients_warm_none

lemma clients_warm_kept {entry : EngineEntry} (hno : .delWarm ∉ steps) (h : v.tiers.warm mv.key = some ⟨entry, none⟩) :
    (mv.clients v steps).tiers.warm mv.key = some ⟨entry, none⟩ := by
  refine foldlRecOn (motive := fun u : MoveView => u.tiers.warm mv.key = some ⟨entry, none⟩) steps _ h fun u h step hmem => ?_
  cases step with
  | wait ns => simp [clientView, TierView.later, h, Item.Visible]
  | set value => exact h
  | delHot => exact h
  | delWarm => exact absurd hmem hno

lemma clientView_unreadable {step : TierStep} {obj : Option Object} (hr : ¬ Readable mv.key)
    (hack : ∀ value, step = .set value → ¬ TooLarge mv.config.size mv.key value)
    (hlasting : ∀ o ∈ obj, o.expireAt = 0) (hno : obj ≠ none → step ≠ .delHot)
    (h : v.tiers.hot mv.key = ⟨none, obj⟩) : (mv.clientView v step).tiers.hot mv.key = ⟨none, obj⟩ := by
  cases step with
  | wait ns =>
    cases obj with
    | none => exact later_gone h
    | some o =>
      obtain ⟨value, deadline⟩ := o
      obtain rfl : deadline = 0 := hlasting _ rfl
      exact later_object h
  | set value =>
    simp only [clientView, set_of_fits (hack value rfl), setStr_apply, if_neg hr, if_pos, h]
  | delHot =>
    cases obj with
    | none => exact del_gone
    | some o => exact absurd rfl (hno (Option.some_ne_none o))
  | delWarm => exact h

lemma clients_unreadable_kept {obj : Option Object} (hr : ¬ Readable mv.key)
    (hack : ∀ value, .set value ∈ steps → ¬ TooLarge mv.config.size mv.key value)
    (hlasting : ∀ o ∈ obj, o.expireAt = 0) (hno : obj ≠ none → .delHot ∉ steps)
    (h : v.tiers.hot mv.key = ⟨none, obj⟩) : (mv.clients v steps).tiers.hot mv.key = ⟨none, obj⟩ :=
  foldlRecOn (motive := fun u : MoveView => u.tiers.hot mv.key = ⟨none, obj⟩) steps _ h
    fun _ h _ hmem => clientView_unreadable hr (fun value heq => hack value (heq ▸ hmem)) hlasting
      (fun hobj heq => hno hobj (heq ▸ hmem)) h

lemma clients_unreadable_gone (hr : ¬ Readable mv.key)
    (hack : ∀ value, .set value ∈ steps → ¬ TooLarge mv.config.size mv.key value)
    (h : .delHot ∈ steps ∨ v.tiers.hot mv.key = .gone) :
    (mv.clients v steps).tiers.hot mv.key = .gone := by
  rcases h with h | h
  · obtain ⟨init, rest, rfl⟩ := append_of_mem h
    rw [clients_append]
    exact clients_unreadable_kept (v := mv.clientView (mv.clients v init) .delHot) hr
      (fun value hmem => hack value (by simp [hmem])) (by simp) (by simp) del_gone
  · exact clients_unreadable_kept hr hack (by simp) (by simp) h

/-! ## The steps of the mover -/

section Steps

variable {value : Value} {entry : EngineEntry} {ttl : Int}

lemma moveView_done (h : v.phase = .done) : mv.moveView v = v := by
  cases hk : mv.kind <;> simp [moveView, hk, demoteView, promoteView, h]

section

variable (hk : mv.kind = .demotion)
include hk

lemma demote_start (h : v.phase = .idle) : mv.moveView v = { v with phase := .started } := by
  simp [moveView, hk, demoteView, h]

lemma demote_nothing (h : v.phase = .started) (hgone : v.tiers.hot mv.key = .gone) :
    mv.moveView v = { v with phase := .done } := by
  simp [moveView, hk, demoteView, h, engineEntry, hgone, KeyState.gone]

lemma demote_read (h : v.phase = .started) (hread : v.tiers.hot.engineEntry mv.key v.now = some ⟨value, none⟩) :
    mv.moveView v = { v with phase := .read ⟨value, none⟩ 0 } := by
  simp [moveView, hk, demoteView, h, hread, entryTTL]

lemma demote_write (h : v.phase = .read entry ttl) : mv.moveView v = { v with
      tiers.warm := update v.tiers.warm mv.key (some ⟨⟨entry.value, Warm.deadline ttl v.now⟩, Warm.deadline ttl v.now⟩)
      phase := .written } := by
  simp [moveView, hk, demoteView, h]

lemma demote_delete (h : v.phase = .written) :
    mv.moveView v = { v with tiers.hot := v.tiers.hot.del [mv.key], phase := .done } := by
  simp [moveView, hk, demoteView, h]

lemma demote_gone (hgone : v.tiers.hot mv.key = .gone) : (mv.moveView v).tiers.hot mv.key = .gone := by
  cases h : v.phase with
  | idle => rwa [demote_start hk h]
  | started => rwa [demote_nothing hk h hgone]
  | read entry ttl => rwa [demote_write hk h]
  | written => rw [demote_delete hk h]; exact del_gone
  | done => rwa [moveView_done h]

end

section

variable (hk : mv.kind = .promotion)
include hk

lemma promote_found (h : v.phase = .idle) {slot : Slot}
    (hslot : (v.tiers.hot mv.key).str = some slot) : mv.moveView v = { v with phase := .done } := by
  simp [moveView, hk, promoteView, h, World.get, hslot]

lemma promote_start (h : v.phase = .idle) (hgone : v.tiers.hot mv.key = .gone) :
    mv.moveView v = { v with phase := .started } := by
  simp [moveView, hk, promoteView, h, World.get, hgone, KeyState.gone]

lemma promote_nothing (h : v.phase = .started) (hnone : v.tiers.warm mv.key = none) :
    mv.moveView v = { v with phase := .done } := by
  simp [moveView, hk, promoteView, h, hnone]

lemma promote_read (h : v.phase = .started) {item : Item} (hitem : v.tiers.warm mv.key = some item) :
    mv.moveView v = { v with phase := .read item.entry 0 } := by
  simp [moveView, hk, promoteView, h, hitem]

lemma promote_write {text : Bytes} (h : v.phase = .read ⟨.string text, none⟩ ttl)
    (hfits : ¬ TooLarge mv.config.size mv.key text) :
    mv.moveView v = { v with
      tiers.hot := v.tiers.hot.setStr mv.key (if Readable mv.key then some (plain text) else none)
      phase := .written } := by
  simp [moveView, hk, promoteView, h, stringEntryValue, entryTTL, set_of_fits hfits]

end

/-- How many steps the mover has made; a mover that stops has made them all. -/
def rank : TierPhase → ℕ
  | .idle => 0
  | .started => 1
  | .read _ _ => 2
  | .written => 3
  | .done => 4

lemma rank_move {n : ℕ} (hn : n < 4) (h : n ≤ rank v.phase) : n + 1 ≤ rank (mv.moveView v).phase := by
  cases hk : mv.kind with
  | demotion =>
    simp only [moveView, hk, demoteView]
    split <;> rename_i hph <;> rw [hph] at h
    · exact Nat.succ_le_succ h
    · split
      · exact Nat.succ_le_of_lt hn
      · split
        · exact Nat.succ_le_of_lt hn
        · exact Nat.succ_le_succ h
    · exact Nat.succ_le_succ h
    · exact Nat.succ_le_of_lt hn
    · rw [hph]
      exact Nat.succ_le_of_lt hn
  | promotion =>
    simp only [moveView, hk, promoteView]
    split <;> rename_i hph <;> rw [hph] at h
    · split
      · exact Nat.succ_le_of_lt hn
      · exact Nat.succ_le_succ h
    · split
      · exact Nat.succ_le_of_lt hn
      · exact Nat.succ_le_succ h
    · split
      · exact Nat.succ_le_of_lt hn
      · split
        · exact Nat.succ_le_of_lt hn
        · exact Nat.succ_le_succ h
    · exact Nat.succ_le_of_lt hn
    · rw [hph]
      exact Nat.succ_le_of_lt hn

lemma eq_written_or_done {phase : TierPhase} (h : 3 ≤ rank phase) : phase = .written ∨ phase = .done := by
  cases phase with
  | written => exact .inl rfl
  | done => exact .inr rfl
  | _ => simp [rank] at h

lemma demote_late_warm (hk : mv.kind = .demotion) (h : 3 ≤ rank v.phase) : (mv.moveView v).tiers.warm = v.tiers.warm := by
  rcases eq_written_or_done h with h | h
  · rw [demote_delete hk h]
  · rw [moveView_done h]

lemma promote_late_hot (hk : mv.kind = .promotion) (h : 3 ≤ rank v.phase) : (mv.moveView v).tiers.hot = v.tiers.hot := by
  rcases eq_written_or_done h with h | h
  · simp [moveView, hk, promoteView, h]
  · rw [moveView_done h]

lemma promote_warm_none (hk : mv.kind = .promotion) (hnone : v.tiers.warm mv.key = none) :
    (mv.moveView v).tiers.warm mv.key = none := by
  simp only [moveView, hk, promoteView]
  split
  · split <;> exact hnone
  · split <;> exact hnone
  · split
    · exact hnone
    · split <;> exact hnone
  · exact update_self ..
  · exact hnone

lemma set_unreadable {w : World} {size : RingSize} {key text : Bytes} {now : Int} (hr : ¬ Readable key)
    (hgone : w key = .gone) : (w.set size key text ttl now).2 key = .gone := by
  unfold World.set
  split
  · simp [setStr_apply, hgone, KeyState.gone]
  · simp [putStr, setStr_apply, Store.freshSlot_entry, hr, hgone, KeyState.gone]

lemma promote_unreadable (hk : mv.kind = .promotion) (hr : ¬ Readable mv.key)
    (hgone : v.tiers.hot mv.key = .gone) : (mv.moveView v).tiers.hot mv.key = .gone := by
  simp only [moveView, hk, promoteView]
  split
  · split <;> exact hgone
  · split <;> exact hgone
  · split
    · exact hgone
    · rename_i entry _ _ _ text _
      have hset := @set_unreadable (entryTTL v.now entry) _ mv.config.size _ text v.now hr hgone
      split <;> rename_i hot heq <;> rw [heq] at hset <;> exact hset
  · exact hgone
  · exact hgone

end Steps

/-! ## The stages of a schedule -/

section Stages

variable (mv) (sch) (v)

def atStart : MoveView := mv.clients v sch.before

def atRead : MoveView := mv.clients (mv.moveView (mv.atStart sch v)) sch.afterStart

def atWrite : MoveView := mv.clients (mv.moveView (mv.atRead sch v)) sch.afterRead

def atDelete : MoveView := mv.clients (mv.moveView (mv.atWrite sch v)) sch.afterWrite

def atEnd : MoveView := mv.clients (mv.moveView (mv.atDelete sch v)) sch.afterDelete

lemma foldl_turns : sch.turns.foldl mv.look v = mv.atEnd sch v := by
  simp only [Schedule.turns, foldl_append, foldl_cons, foldl_map]
  rfl

/-- What `Get` must return. -/
def Meets (result : Except TierError Bytes) : Option TierCall → Prop
  | none => True
  | some (.set value) => result = .ok value
  | some .del => result = .error .keyNotFound

lemma noLostUpdate_iff_meets {calls : List TierCall} : mv.NoLostUpdate sch calls ↔
    ∀ now (tiers : Tiers Cache), Meets ((mv.atEnd sch ⟨now, tiers.view now, .idle⟩).tiers.get mv.key) calls.getLast? := by
  refine forall_congr' fun now => forall_congr' fun tiers => ?_
  obtain ⟨s, hs, hview⟩ := mv.run_view { now, tiers } sch.turns
  obtain ⟨s', hget, -⟩ := (@get_simulates mv.config s.now mv.key).run s.tiers
  rw [foldl_turns] at hview
  simp only [hs, Except.ok.injEq, forall_eq']
  have htiers : (mv.atEnd sch ⟨now, tiers.view now, .idle⟩).tiers = s.tiers.view s.now := by
    rw [show (⟨now, tiers.view now, .idle⟩ : MoveView) = MoveState.view { now, tiers } from rfl, ← hview]
    rfl
  rw [hget, htiers]
  cases calls.getLast? with
  | none => rfl
  | some call =>
    cases call with
    | set value | del => simp [Meets]

end Stages

lemma Acknowledges.of_mem (hack : mv.Acknowledges sch) (h : ∀ step, step ∈ steps → step ∈ sch.steps)
    (value : Bytes) (hmem : .set value ∈ steps) : ¬ TooLarge mv.config.size mv.key value :=
  hack value (h _ hmem)

lemma rank_atDelete : 3 ≤ rank (mv.atDelete sch v).phase := by
  have hread : 1 ≤ rank (mv.atRead sch v).phase := by
    rw [atRead, clients_phase]
    exact rank_move (by decide) (Nat.zero_le _)
  have hwr : 2 ≤ rank (mv.atWrite sch v).phase := by
    rw [atWrite, clients_phase]
    exact rank_move (by decide) hread
  rw [atDelete, clients_phase]
  exact rank_move (by decide) hwr

section Ends

variable {value : Bytes} {entry : EngineEntry}

lemma Meets.set (hr : Readable mv.key) (hshort : value.length < 65536) (h : mv.Shows v (.set value)) :
    Meets (v.tiers.get mv.key) (some (.set value)) := by
  rw [Meets, TierView.get_hot (h hr), plain, Slot.text, writtenEntry]
  exact congrArg Except.ok (storedValue_of_short hshort)

lemma Meets.del (hhot : v.tiers.hot mv.key = .gone) (hwarm : v.tiers.warm mv.key = none) :
    Meets (v.tiers.get mv.key) (some .del) := by
  rw [Meets, TierView.get_cold hhot, hwarm]
  rfl

end Ends

/-! ## A mover that stops -/

lemma atRead_eq {phase : TierPhase} (h : mv.moveView (mv.atStart sch v) = { mv.atStart sch v with phase }) :
    mv.atRead sch v = { mv.clients v (sch.before ++ sch.afterStart) with phase } := by
  rw [atRead, h, clients_withPhase, clients_append]
  rfl

lemma atEnd_of_stopped
    (h : mv.moveView (mv.atRead sch v) = { mv.clients v (sch.before ++ sch.afterStart) with phase := .done }) :
    mv.atEnd sch v = { mv.clients v sch.steps with phase := .done } := by
  have hwr : mv.atWrite sch v = { mv.clients v (sch.before ++ sch.afterStart ++ sch.afterRead) with phase := .done } := by
    rw [atWrite, h, clients_withPhase, ← clients_append]
  have hdelete : mv.atDelete sch v = { mv.clients v (sch.before ++ sch.afterStart ++ sch.afterRead ++ sch.afterWrite) with
        phase := .done } := by
    rw [atDelete, hwr, moveView_done rfl, clients_withPhase, ← clients_append]
  rw [atEnd, hdelete, moveView_done rfl, clients_withPhase, ← clients_append]
  rfl

lemma atRead_demotion (hk : mv.kind = .demotion) (hidle : v.phase = .idle) :
    mv.atRead sch v = { mv.clients v (sch.before ++ sch.afterStart) with phase := .started } :=
  atRead_eq (demote_start hk (by rw [atStart, clients_phase, hidle]))

lemma demote_stops (hk : mv.kind = .demotion) (hidle : v.phase = .idle)
    (hgone : (mv.clients v (sch.before ++ sch.afterStart)).tiers.hot mv.key = .gone) :
    mv.atEnd sch v = { mv.clients v sch.steps with phase := .done } := by
  refine atEnd_of_stopped ?_
  rw [atRead_demotion hk hidle]
  exact demote_nothing hk rfl hgone

lemma promote_stops_found (hk : mv.kind = .promotion) (hidle : v.phase = .idle) {slot : Slot}
    (hslot : ((mv.atStart sch v).tiers.hot mv.key).str = some slot) :
    mv.atEnd sch v = { mv.clients v sch.steps with phase := .done } := by
  refine atEnd_of_stopped ?_
  rw [atRead_eq (promote_found hk (by rw [atStart, clients_phase, hidle]) hslot)]
  exact moveView_done rfl

lemma promote_stops_missing (hk : mv.kind = .promotion) (hidle : v.phase = .idle)
    (hnone : (mv.clients v (sch.before ++ sch.afterStart)).tiers.warm mv.key = none) :
    mv.atEnd sch v = { mv.clients v sch.steps with phase := .done } := by
  have hph : (mv.atStart sch v).phase = .idle := by rw [atStart, clients_phase, hidle]
  have hfirst : mv.moveView (mv.atStart sch v) = { mv.atStart sch v with phase := .done } ∨
      mv.moveView (mv.atStart sch v) = { mv.atStart sch v with phase := .started } := by
    simp only [moveView, hk, promoteView, hph]
    split
    · exact .inl rfl
    · exact .inr rfl
  refine atEnd_of_stopped ?_
  rcases hfirst with hfirst | hfirst
  · rw [atRead_eq hfirst]
    exact moveView_done rfl
  · rw [atRead_eq hfirst]
    exact promote_nothing hk rfl hnone

/-! ## A mover that goes through -/

section Through

variable {text : Bytes}

lemma demoted (sch : Schedule) (value : Value) (hk : mv.kind = .demotion) (hidle : v.phase = .idle)
    (hread : (mv.atRead sch v).tiers.hot.engineEntry mv.key (mv.atRead sch v).now = some ⟨value, none⟩) :
    (mv.moveView (mv.atDelete sch v)).tiers.hot mv.key = .gone ∧ (mv.moveView (mv.atDelete sch v)).tiers.warm mv.key =
        if .delWarm ∈ sch.afterWrite then none else some ⟨⟨value, none⟩, none⟩ := by
  have hstarted : (mv.atRead sch v).phase = .started := by rw [atRead_demotion hk hidle]
  have hwr : (mv.atWrite sch v).phase = .read ⟨value, none⟩ 0 := by
    rw [atWrite, clients_phase, demote_read hk hstarted hread]
  have hdelete : (mv.atDelete sch v).phase = .written := by
    rw [atDelete, clients_phase, demote_write hk hwr]
  rw [demote_delete hk hdelete]
  refine ⟨del_gone, ?_⟩
  split
  · next hdel => exact clients_warm_deleted hdel
  · next hno =>
    refine clients_warm_kept hno ?_
    rw [demote_write hk hwr]
    exact update_self ..

lemma promoted (hk : mv.kind = .promotion) (hidle : v.phase = .idle) (hr : Readable mv.key)
    (hshort : text.length < 65536) (hgone : (mv.atStart sch v).tiers.hot mv.key = .gone)
    (hitem : (mv.clients v (sch.before ++ sch.afterStart)).tiers.warm mv.key = some ⟨⟨.string text, none⟩, none⟩) :
    mv.Shows (mv.moveView (mv.atWrite sch v)) (.set text) := by
  have hread := atRead_eq (promote_start hk (by rw [atStart, clients_phase, hidle]) hgone)
  have hitem' : (mv.atRead sch v).tiers.warm mv.key = some ⟨⟨.string text, none⟩, none⟩ := by
    rw [hread]
    exact hitem
  have hwr : (mv.atWrite sch v).phase = .read ⟨.string text, none⟩ 0 := by
    rw [atWrite, clients_phase, promote_read hk (by rw [hread]) hitem']
  rw [promote_write hk hwr (Store.not_tooLarge_of_short hr hshort)]
  intro _
  simp [setStr_apply, hr]

end Through

lemma engineEntry_plain {w : World} {key text : Bytes} (now : Int) (h : (w key).str = some (plain text)) :
    w.engineEntry key now = some ⟨.string (storedValue text), none⟩ := by
  simp [engineEntry, h, plain, Slot.text, Slot.ttl, writtenEntry, Store.deadline_zero]

end TierMove

end AutoCache.Tiered
