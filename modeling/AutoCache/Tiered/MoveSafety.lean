import AutoCache.Tiered.MoveStages

/-!
# Updates during a move between the tiers

The last operation on a tier decides what it shows: the clients' own, or that of the mover. Which of the
two comes last, and what the mover had read, can be seen on the schedule; so the schedule says whether an
update is lost.
-/

namespace AutoCache.Tiered

open Schedule List TierMove Store Function

namespace TierMove

variable {mv : TierMove} {sch : Schedule} {v : MoveView}

/-! ## Updates that are kept -/

section Kept

variable {calls : List TierCall} {value : Bytes} (hack : mv.Acknowledges sch)
  (hcalls : clientOps sch.steps = calls.flatMap TierCall.steps)

include hack

lemma shows_read {op : HotOp} (h : sch.lastRead = some op) : mv.Shows (mv.clients v (sch.before ++ sch.afterStart)) op :=
  clients_shows none op (hack.of_mem (by simp only [steps, mem_append]; tauto)) (by simp) (by rw [Option.or_none]; exact h)

lemma shows_end (start : Option HotOp) (op : HotOp) (hstart : ∀ op ∈ start, mv.Shows (mv.moveView (mv.atDelete sch v)) op)
    (h : (hotOps sch.afterDelete).getLast?.or start = some op) : mv.Shows (mv.atEnd sch v) op :=
  clients_shows start op (hack.of_mem (by simp +contextual [steps])) hstart h

lemma shows_late (start : Option HotOp) (op : HotOp) (hk : mv.kind = .promotion)
    (hstart : ∀ op ∈ start, mv.Shows (mv.moveView (mv.atWrite sch v)) op)
    (h : (hotOps (sch.afterWrite ++ sch.afterDelete)).getLast?.or start = some op) :
    mv.Shows (mv.atEnd sch v) op := by
  rw [hotOps_append, getLast?_append, Option.or_assoc] at h
  refine shows_end hack _ op (fun op hop => ?_) h
  have hshows : mv.Shows (mv.atDelete sch v) op :=
    clients_shows start op (hack.of_mem (by simp +contextual [steps])) hstart hop
  have hhot := promote_late_hot hk (@rank_atDelete mv sch v)
  cases op with
  | set value => exact fun hr => by rw [hhot]; exact hshows hr
  | del => exact (congrFun hhot mv.key).trans hshows

lemma get_of_quiet (kept : Option EngineEntry) (hend : clientOps sch.afterDelete = [])
    (hhot : (mv.moveView (mv.atDelete sch v)).tiers.hot mv.key = .gone)
    (hwarm : (mv.moveView (mv.atDelete sch v)).tiers.warm mv.key = kept.map fun entry => ⟨entry, none⟩) :
    (mv.atEnd sch v).tiers.get mv.key = kept.elim (.error .keyNotFound) stringEntryValue := by
  have hgone := shows_end hack (some .del) .del
    (fun op hop => by cases hop; exact hhot) (by rw [← hotOps_clientOps, hend]; rfl)
  rw [TierView.get_cold hgone, atEnd]
  cases kept with
  | none => rw [clients_warm_none hwarm]; rfl
  | some entry => rw [clients_warm_kept (not_mem_of_quiet hend rfl) hwarm]; rfl

include hcalls

lemma meets_of_stopped {call : TierCall} (hlast : calls.getLast? = some call)
    (hset : ∀ value, call = .set value → Readable mv.key ∧ value.length < 65536)
    (h : mv.atEnd sch v = { mv.clients v sch.steps with phase := .done }) :
    Meets ((mv.atEnd sch v).tiers.get mv.key) (some call) := by
  have hshows : mv.Shows (mv.clients v sch.steps) call.hotOp :=
    clients_shows none _ hack (by simp) (by rw [last_hotOp hcalls hlast]; rfl)
  rw [h]
  cases call with
  | set value =>
    obtain ⟨hr, hshort⟩ := hset value rfl
    exact Meets.set hr hshort hshows
  | del =>
    refine Meets.del hshows (clients_warm_deleted ?_)
    exact mem_of_mem_filter (mem_of_getLast? (last_clientOp hcalls hlast))

section Demotion

variable (hk : mv.kind = .demotion) (hidle : v.phase = .idle)

include hk hidle

lemma demotion_keeps_set (hlast : calls.getLast? = some (.set value)) (h : mv.DemotesSafely sch (some (.set value))) :
    Meets ((mv.atEnd sch v).tiers.get mv.key) (some (.set value)) := by
  obtain ⟨hr, hshort, h⟩ := h
  by_cases hend : clientOps sch.afterDelete = []
  · rcases h with h | h | ⟨hno, u, hu, rfl⟩
    · exact absurd hend h
    · exact meets_of_stopped hack hcalls hlast (fun _ heq => by cases heq; exact ⟨hr, hshort⟩)
        (demote_stops hk hidle (shows_read hack h))
    · have hent := engineEntry_plain (mv.atRead sch v).now (@shows_read _ _ v hack _ hu hr)
      obtain ⟨hhot, hwarm⟩ := demoted sch _ hk hidle (by rw [atRead_demotion hk hidle] at hent ⊢; exact hent)
      rw [if_neg hno] at hwarm
      exact get_of_quiet hack (some _) hend hhot hwarm
  · exact Meets.set hr hshort (shows_end hack none _ (by simp) (by rw [last_set_of_append hcalls hlast hend]; rfl))

omit hidle in
lemma demotion_gone (hlast : calls.getLast? = some .del) : (mv.atEnd sch v).tiers.hot mv.key = .gone := by
  have h := last_hotOp hcalls hlast
  simp only [steps, hotOps_append, getLast?_append] at h
  -- once for each stage of the move
  iterate 4 refine clients_gone _ (hack.of_mem (by simp +contextual [steps])) h fun h => demote_gone hk ?_
  exact clients_gone none (hack.of_mem (by simp +contextual [steps])) (by rw [Option.or_none]; exact h) (by simp)

lemma demotion_keeps_del (hlast : calls.getLast? = some .del) (h : mv.DemotesSafely sch (some .del)) :
    Meets ((mv.atEnd sch v).tiers.get mv.key) (some .del) := by
  by_cases hend : clientOps (sch.afterWrite ++ sch.afterDelete) = []
  · have hgone : (mv.clients v (sch.before ++ sch.afterStart)).tiers.hot mv.key = .gone := by
      rcases h with h | h
      · exact absurd hend h
      · by_cases hr : Readable mv.key
        · rw [if_pos hr] at h
          exact shows_read hack h
        · rw [if_neg hr] at h
          exact clients_unreadable_gone hr (hack.of_mem (by simp only [steps, mem_append]; tauto)) (.inl h)
    exact meets_of_stopped hack hcalls hlast (fun _ heq => by cases heq) (demote_stops hk hidle hgone)
  · refine Meets.del (demotion_gone hack hcalls hk hlast) ?_
    have hdel : .delWarm ∈ sch.afterWrite ++ sch.afterDelete :=
      delWarm_mem_of_append (by rw [← append_assoc]; exact hcalls) hlast hend
    rcases mem_append.1 hdel with hdel | hdel
    · refine clients_warm_none ?_
      rw [demote_late_warm hk rank_atDelete]
      exact clients_warm_deleted hdel
    · exact clients_warm_deleted hdel

end Demotion

section Promotion

variable (hk : mv.kind = .promotion) (hidle : v.phase = .idle)

include hk hidle

omit hcalls in
lemma promotion_stops (hr : Readable mv.key)
    (h : (∃ u, (hotOps sch.before).getLast? = some (.set u)) ∨ .delWarm ∈ sch.before ++ sch.afterStart) :
    mv.atEnd sch v = { mv.clients v sch.steps with phase := .done } := by
  rcases h with ⟨u, hu⟩ | hdel
  · refine promote_stops_found hk hidle (clients_shows none (.set u)
      (hack.of_mem (by simp +contextual [steps])) (by simp) ?_ hr)
    rw [hu]
    rfl
  · exact promote_stops_missing hk hidle (clients_warm_deleted hdel)

lemma promotion_keeps_set (hlast : calls.getLast? = some (.set value)) (h : mv.PromotesSafely sch (some (.set value))) :
    Meets ((mv.atEnd sch v).tiers.get mv.key) (some (.set value)) := by
  obtain ⟨hr, hshort, hend | hstops⟩ := h
  · have hop : (hotOps (sch.afterWrite ++ sch.afterDelete)).getLast? = some (.set value) :=
      last_set_of_append (by rw [← append_assoc]; exact hcalls) hlast hend
    exact Meets.set hr hshort (shows_late hack none _ hk (by simp) (by rw [hop]; rfl))
  · exact meets_of_stopped hack hcalls hlast (fun _ heq => by cases heq; exact ⟨hr, hshort⟩)
      (promotion_stops hack hk hidle hr hstops)

omit hack hidle in
lemma promotion_warm_none (hlast : calls.getLast? = some .del) : (mv.atEnd sch v).tiers.warm mv.key = none := by
  have h := (mem_clientOps.1 (mem_of_getLast? (last_clientOp hcalls hlast))).1
  simp only [steps, mem_append, TierCall.lastStep] at h
  refine clients_warm (h.symm.imp_right fun h => promote_warm_none hk ?_)
  refine clients_warm (h.symm.imp_right fun h => promote_warm_none hk ?_)
  refine clients_warm (h.symm.imp_right fun h => promote_warm_none hk ?_)
  exact clients_warm (h.symm.imp_right fun h => promote_warm_none hk (clients_warm (.inl h)))

omit hidle in
lemma promotion_unreadable (hlast : calls.getLast? = some .del) (hr : ¬ Readable mv.key) :
    (mv.atEnd sch v).tiers.hot mv.key = .gone := by
  have h := mem_hotOps_del.1 (mem_of_getLast? (last_hotOp hcalls hlast))
  simp only [steps, mem_append] at h
  iterate 4
    refine clients_unreadable_gone hr (hack.of_mem (by simp +contextual [steps]))
      (h.symm.imp_right fun h => promote_unreadable hk hr ?_)
  exact clients_unreadable_gone hr (hack.of_mem (by simp +contextual [steps])) (.inl h)

lemma promotion_keeps_del (hlast : calls.getLast? = some .del) (h : mv.PromotesSafely sch (some .del)) :
    Meets ((mv.atEnd sch v).tiers.get mv.key) (some .del) := by
  by_cases hr : Readable mv.key
  · rcases h with h | h | hstops
    · exact absurd hr h
    · refine Meets.del ?_ (promotion_warm_none hcalls hk hlast)
      have hall := last_hotOp hcalls hlast
      rw [steps, append_assoc, hotOps_append] at hall
      have hop : (hotOps (sch.afterWrite ++ sch.afterDelete)).getLast? = some .del :=
        (getLast?_append_of_ne_nil _ (ne_nil_of_mem (mem_hotOps_del.2 h))).symm.trans hall
      exact shows_late hack none .del hk (by simp) (by rw [hop]; rfl)
    · exact meets_of_stopped hack hcalls hlast (fun _ heq => by cases heq) (promotion_stops hack hk hidle hr hstops)
  · exact Meets.del (promotion_unreadable hack hcalls hk hlast hr) (promotion_warm_none hcalls hk hlast)

end Promotion

end Kept

/-! ## Updates that are lost -/

/-- A start with one key: a string or an object in the hot tier, an item without a deadline in the warm
tier. -/
def startView (mv : TierMove) (str : Option Slot) (obj : Option Object) (entry : Option EngineEntry) :
    MoveView where
  now := 0
  tiers := Tiers.view 0
    ⟨single mv.key str obj, entry.elim ∅ fun entry => Finmap.singleton mv.key ⟨entry, none⟩⟩
  phase := .idle

section Starts

variable {str : Option Slot} {obj : Option Object} {entry : Option EngineEntry}

lemma startView_warm : (mv.startView str obj entry).tiers.warm mv.key = entry.map fun entry => ⟨entry, none⟩ := by
  cases entry <;> simp [startView, Tiers.view, Warm.seen, Warm.txnGet, Item.Visible]

lemma startView_gone : (mv.startView none none entry).tiers.hot mv.key = .gone := by
  simp [startView, Tiers.view, live_single, KeyState.gone]

lemma NoLostUpdate.meets {calls : List TierCall} (h : mv.NoLostUpdate sch calls)
    (str : Option Slot) (obj : Option Object) (entry : Option EngineEntry) :
    Meets ((mv.atEnd sch (mv.startView str obj entry)).tiers.get mv.key) calls.getLast? :=
  (mv.noLostUpdate_iff_meets sch).1 h 0 _

end Starts

/-- All that is there are short strings without a deadline under a readable key. -/
structure Tame (mv : TierMove) (v : MoveView) : Prop where
  hot : v.tiers.hot mv.key = .gone ∨
    Readable mv.key ∧ ∃ x, v.tiers.hot mv.key = ⟨some (plain x), none⟩
  warm : ∀ item ∈ v.tiers.warm mv.key, Readable mv.key ∧
    ∃ text, text.length < 65536 ∧ item = ⟨⟨.string text, none⟩, none⟩
  read : ∀ entry ttl, v.phase = .read entry ttl → Readable mv.key ∧ ttl = 0 ∧
    ∃ text, text.length < 65536 ∧ entry = ⟨.string text, none⟩

namespace Tame

lemma client {step : TierStep}
    (hack : ∀ value, step = .set value → ¬ Cache.TooLarge mv.config.size mv.key value) (h : mv.Tame v) :
    mv.Tame (mv.clientView v step) := by
  cases step with
  | wait ns =>
    refine ⟨?_, fun item hitem => ?_, h.read⟩
    · refine h.hot.imp later_gone fun ⟨hr, x, hx⟩ => ⟨hr, x, ?_⟩
      simp [clientView, TierView.later, World.later, hx, @live_plain mv.key x _ hr]
    · exact h.warm item (Option.mem_filter_iff.1 hitem).1
  | set value =>
    refine ⟨?_, h.warm, h.read⟩
    have hobj : (v.tiers.hot mv.key).obj = none := by
      rcases h.hot with hgone | ⟨-, x, hx⟩
      · rw [hgone]
        rfl
      · rw [hx]
    simp only [clientView, World.set_of_fits (hack value rfl), World.setStr_apply, if_pos, hobj]
    by_cases hr : Readable mv.key
    · exact .inr ⟨hr, value, by rw [if_pos hr]⟩
    · exact .inl (by rw [if_neg hr]; rfl)
  | delHot => exact ⟨.inl del_gone, h.warm, h.read⟩
  | delWarm => exact ⟨h.hot, by simp [clientView], h.read⟩

lemma demote (hk : mv.kind = .demotion) (h : mv.Tame v) : mv.Tame (mv.moveView v) := by
  cases hph : v.phase with
  | idle =>
    rw [demote_start hk hph]
    exact ⟨h.hot, h.warm, nofun⟩
  | started =>
    rcases h.hot with hgone | ⟨hr, x, hx⟩
    · rw [demote_nothing hk hph hgone]
      exact ⟨h.hot, h.warm, nofun⟩
    · rw [demote_read hk hph (engineEntry_plain _ (by rw [hx]))]
      refine ⟨h.hot, h.warm, fun entry ttl heq => ?_⟩
      cases heq
      exact ⟨hr, rfl, _, storedValue_short x, rfl⟩
  | read entry ttl =>
    obtain ⟨hr, rfl, text, hshort, rfl⟩ := h.read entry ttl hph
    rw [demote_write hk hph]
    refine ⟨h.hot, fun item hitem => ?_, nofun⟩
    change update v.tiers.warm mv.key _ mv.key = some item at hitem
    rw [update_self] at hitem
    cases hitem
    exact ⟨hr, text, hshort, rfl⟩
  | written =>
    rw [demote_delete hk hph]
    exact ⟨.inl del_gone, h.warm, nofun⟩
  | done => rwa [moveView_done hph]

lemma promote (hk : mv.kind = .promotion) (h : mv.Tame v) : mv.Tame (mv.moveView v) := by
  cases hph : v.phase with
  | idle =>
    rcases h.hot with hgone | ⟨hr, x, hx⟩
    · rw [promote_start hk hph hgone]
      exact ⟨h.hot, h.warm, by simp⟩
    · rw [promote_found hk hph (by rw [hx])]
      exact ⟨h.hot, h.warm, by simp⟩
  | started =>
    cases hwarm : v.tiers.warm mv.key with
    | none =>
      rw [promote_nothing hk hph hwarm]
      exact ⟨h.hot, h.warm, by simp⟩
    | some item =>
      obtain ⟨hr, text, hshort, rfl⟩ := h.warm item hwarm
      rw [promote_read hk hph hwarm]
      refine ⟨h.hot, h.warm, fun entry ttl heq => ?_⟩
      cases heq
      exact ⟨hr, rfl, text, hshort, rfl⟩
  | read entry ttl =>
    obtain ⟨hr, rfl, text, hshort, rfl⟩ := h.read entry ttl hph
    rw [promote_write hk hph (not_tooLarge_of_short hr hshort)]
    refine ⟨.inr ⟨hr, text, ?_⟩, h.warm, by simp⟩
    rcases h.hot with hgone | ⟨-, x, hx⟩
    · simp [World.setStr_apply, hr, hgone, KeyState.gone]
    · simp [World.setStr_apply, hr, hx]
  | written =>
    simp only [moveView, hk, promoteView, hph]
    exact ⟨h.hot, by simp, by simp⟩
  | done => rwa [moveView_done hph]

lemma atEnd (hack : mv.Acknowledges sch) (h : mv.Tame v) : mv.Tame (mv.atEnd sch v) := by
  rw [← foldl_turns]
  refine foldlRecOn (motive := mv.Tame) _ _ h fun u h turn hmem => ?_
  cases turn with
  | client step =>
    refine h.client fun value heq => hack value ?_
    simpa [turns, steps, heq] using hmem
  | move =>
    cases hk : mv.kind with
    | demotion => exact h.demote hk
    | promotion => exact h.promote hk

lemma get {value : Bytes} (h : mv.Tame v) (hget : v.tiers.get mv.key = .ok value) :
    Readable mv.key ∧ value.length < 65536 := by
  rcases h.hot with hgone | ⟨hr, x, hx⟩
  · rw [TierView.get_cold hgone] at hget
    cases hwarm : v.tiers.warm mv.key with
    | none => simp [hwarm] at hget
    | some item =>
      obtain ⟨hr, text, hshort, rfl⟩ := h.warm item hwarm
      rw [hwarm] at hget
      cases hget
      exact ⟨hr, hshort⟩
  · rw [TierView.get_hot (by rw [hx])] at hget
    cases hget
    exact ⟨hr, storedValue_short x⟩

end Tame

section Lost

variable {calls : List TierCall} {value : Bytes} (hack : mv.Acknowledges sch)
  (hcalls : clientOps sch.steps = calls.flatMap TierCall.steps) (h : mv.NoLostUpdate sch calls)

include hack h

lemma readable_of_noLostUpdate (hlast : calls.getLast? = some (.set value)) : Readable mv.key ∧ value.length < 65536 := by
  have hstart : mv.Tame (mv.startView none none none) :=
    ⟨.inl startView_gone, by simp [startView_warm], nofun⟩
  have hmeets := h.meets none none none
  rw [hlast] at hmeets
  exact (hstart.atEnd hack).get hmeets

omit h in
lemma exists_read (hk : mv.kind = .demotion) (hr : Readable mv.key) (u : Bytes) (hlast : sch.lastRead ≠ some .del) :
    ∃ x, (sch.lastRead = none ∧ x = u ∨ sch.lastRead = some (.set x)) ∧
      (mv.moveView (mv.atDelete sch (mv.startView (some (plain u)) none none))).tiers.hot mv.key = .gone ∧
      (mv.moveView (mv.atDelete sch (mv.startView (some (plain u)) none none))).tiers.warm mv.key =
        if .delWarm ∈ sch.afterWrite then none
        else some ⟨⟨.string (storedValue x), none⟩, none⟩ := by
  have hshows : ∀ x, sch.lastRead.or (some (.set u)) = some (.set x) →
      mv.Shows (mv.clients (mv.startView (some (plain u)) none none) (sch.before ++ sch.afterStart)) (.set x) := fun x hx =>
    clients_shows (some (.set u)) _ (hack.of_mem (by simp only [steps, mem_append]; tauto)) (fun op hop => by
      cases hop
      intro hr
      simp [startView, Tiers.view, live_single, @live_plain mv.key u 0 hr]) hx
  have hthrough : ∀ x, sch.lastRead.or (some (.set u)) = some (.set x) → _ := fun x hx =>
    demoted (v := mv.startView (some (plain u)) none none) sch (.string (storedValue x)) hk rfl (by
      rw [atRead_demotion hk rfl]
      exact engineEntry_plain _ (hshows x hx hr))
  cases hop : sch.lastRead with
  | none => exact ⟨u, .inl ⟨rfl, rfl⟩, hthrough u (by rw [hop]; rfl)⟩
  | some op =>
    cases op with
    | set x => exact ⟨x, .inr rfl, hthrough x (by rw [hop]; rfl)⟩
    | del => exact absurd hop hlast

omit hack h in
lemma exists_ne (value : Bytes) : ∃ u : Bytes, u.length < 65536 ∧ u ≠ value := by
  by_cases hval : value = []
  · exact ⟨[0], by simp, by simp [hval]⟩
  · exact ⟨[], by simp, Ne.symm hval⟩

lemma demotesSafely_of_set (hk : mv.kind = .demotion) (hlast : calls.getLast? = some (.set value)) :
    mv.DemotesSafely sch (some (.set value)) := by
  obtain ⟨hr, hshort⟩ := readable_of_noLostUpdate hack h hlast
  refine ⟨hr, hshort, ?_⟩
  by_contra hstale
  push Not at hstale
  obtain ⟨hend, hdel, hread⟩ := hstale
  obtain ⟨u, hu, hne⟩ := exists_ne value
  obtain ⟨x, hx, hhot, hwarm⟩ := exists_read hack hk hr u hdel
  have hmeets := h.meets (some (plain u)) none none
  rw [hlast, Meets] at hmeets
  by_cases hno : .delWarm ∈ sch.afterWrite
  · rw [if_pos hno] at hwarm
    rw [get_of_quiet hack none hend hhot hwarm] at hmeets
    cases hmeets
  · rw [if_neg hno] at hwarm
    rw [get_of_quiet hack (some _) hend hhot hwarm] at hmeets
    have hval : storedValue x = value := Except.ok.inj hmeets
    rcases hx with ⟨-, rfl⟩ | hx
    · exact hne ((storedValue_of_short hu).symm.trans hval)
    · exact hread hno x hx hval

lemma demotesSafely_of_del (hk : mv.kind = .demotion) (hlast : calls.getLast? = some .del) :
    mv.DemotesSafely sch (some .del) := by
  by_contra hstale
  simp only [DemotesSafely, not_or, not_not] at hstale
  obtain ⟨hend, hread⟩ := hstale
  rw [clientOps_append, append_eq_nil_iff] at hend
  have hmeets := fun str obj => h.meets str obj none
  simp only [hlast, Meets] at hmeets
  by_cases hr : Readable mv.key
  · rw [if_pos hr] at hread
    obtain ⟨x, -, hhot, hwarm⟩ := exists_read hack hk hr [] hread
    rw [if_neg (not_mem_of_quiet hend.1 rfl)] at hwarm
    have hget := get_of_quiet hack (some _) hend.2 hhot hwarm
    rw [hmeets] at hget
    cases hget
  · rw [if_neg hr] at hread
    -- an object stays, whatever is written under a key that is too long
    have hobject : (mv.clients (mv.startView none (some ⟨.list [], 0⟩) none)
        (sch.before ++ sch.afterStart)).tiers.hot mv.key = ⟨none, some ⟨.list [], 0⟩⟩ :=
      clients_unreadable_kept hr (hack.of_mem (by simp only [steps, mem_append]; tauto))
        (by simp) (fun _ => hread) (by simp [startView, Tiers.view, live_single, Object.expired])
    obtain ⟨hhot, hwarm⟩ := demoted (v := mv.startView none (some ⟨.list [], 0⟩) none) sch (.object (.list [])) hk rfl (by
        rw [atRead_demotion hk rfl]
        simp [World.engineEntry, hobject])
    rw [if_neg (not_mem_of_quiet hend.1 rfl)] at hwarm
    have hget := get_of_quiet hack (some _) hend.2 hhot hwarm
    rw [hmeets] at hget
    cases hget

omit h in
lemma exists_promoted (hk : mv.kind = .promotion) (hr : Readable mv.key) {u : Bytes}
    (hu : u.length < 65536) (hbefore : ∀ x, (hotOps sch.before).getLast? ≠ some (.set x))
    (hno : .delWarm ∉ sch.before ++ sch.afterStart)
    (hend : hotOps (sch.afterWrite ++ sch.afterDelete) = []) :
    (mv.atEnd sch (mv.startView none none (some ⟨.string u, none⟩))).tiers.get mv.key = .ok u := by
  have hgone : (mv.atStart sch (mv.startView none none (some ⟨.string u, none⟩))).tiers.hot mv.key = .gone := by
    refine clients_gone (some .del) (hack.of_mem (by simp +contextual [steps])) ?_ fun _ => startView_gone
    cases hlast : (hotOps sch.before).getLast? with
    | none => rfl
    | some op =>
      cases op with
      | set x => exact absurd hlast (hbefore x)
      | del => rfl
  have hshows := promoted hk rfl hr hu hgone (clients_warm_kept hno startView_warm)
  refine Meets.set hr hu (shows_late hack (some (.set u)) _ hk (fun op hop => ?_) ?_)
  · cases hop
    exact hshows
  · rw [hend]
    rfl

lemma promotesSafely_of_set (hk : mv.kind = .promotion) (hlast : calls.getLast? = some (.set value)) :
    mv.PromotesSafely sch (some (.set value)) := by
  obtain ⟨hr, hshort⟩ := readable_of_noLostUpdate hack h hlast
  refine ⟨hr, hshort, ?_⟩
  by_contra hstale
  simp only [not_or, not_not, not_exists] at hstale
  obtain ⟨hend, hbefore, hno⟩ := hstale
  obtain ⟨u, hu, hne⟩ := exists_ne value
  have hget := exists_promoted hack hk hr hu hbefore hno (by rw [← hotOps_clientOps, hend]; rfl)
  have hmeets := h.meets none none (some ⟨.string u, none⟩)
  rw [hlast, Meets, hget] at hmeets
  exact hne (Except.ok.inj hmeets)

include hcalls

lemma promotesSafely_of_del (hk : mv.kind = .promotion) (hlast : calls.getLast? = some .del) :
    mv.PromotesSafely sch (some .del) := by
  by_contra hstale
  simp only [PromotesSafely, not_or, not_not, not_exists] at hstale
  obtain ⟨hr, hend, hbefore, hno⟩ := hstale
  -- the last operation on the hot tier is a deletion, and it comes before the write
  have hquiet : hotOps (sch.afterWrite ++ sch.afterDelete) = [] := by
    by_contra hne
    have hop := last_hotOp hcalls hlast
    rw [steps, append_assoc, hotOps_append] at hop
    exact hend (mem_hotOps_del.1 (mem_of_getLast? ((getLast?_append_of_ne_nil _ hne).symm.trans hop)))
  have hget := exists_promoted hack hk hr (u := []) (by simp) hbefore hno hquiet
  have hmeets := h.meets none none (some ⟨.string [], none⟩)
  rw [hlast, Meets, hget] at hmeets
  cases hmeets

end Lost

end TierMove

end AutoCache.Tiered
