import AutoCache.Persistence.Provenance
import AutoCache.Store.Lasting

/-!
# After `FlushDB`

`FlushDB` empties both tiers. It does not reach the queue: a write that is still in the channel or in the
batch gets into the database afterwards, and a promotion that has read its string already writes it to the
memory.
-/

namespace AutoCache.Persistence

open Tiered Views Runs List

/-- The event writes the value under the key. A `Set` writes its value, and the memory may keep only a part of
it. Entries that are queued past the manager are not told apart. -/
def Event.Writes (key : Bytes) (value : Value) : Event → Prop
  | .set k v _ => key = k ∧ (value = .string v ∨ value = .string (storedValue v))
  | .loop (.append (.set k _)) => key = k
  | _ => False

namespace Manager

variable (S : Setup)

/-- **`FlushDB` is final** in this state: what a read returns after it, whatever happens in between, has
been written after it. -/
def Final (s : Manager) : Prop :=
  ∀ program flushed s', s.step S .flushDB = .ok flushed → run (step S) flushed program = .ok s' →
    ∀ key value, s'.Reads S key value → ∃ event ∈ program, event.Writes key value

/-- Nothing is on its way: the batch would leave nothing, the channel holds deletions only, and no goroutine
will write a string that reads find. -/
structure NothingPending (s : Manager) : Prop where
  batch : ∀ key, leaves s.loop.batch key = none
  ch : ∀ op ∈ s.loop.ch, op.entry = none
  promotions : ∀ p ∈ s.promotions, Readable p.key → Cache.TooLarge S.logical.size p.key p.value

/-! ## Nothing comes back -/

def Written (program : List Event) (key : Bytes) (value : Value) : Prop :=
  ∃ event ∈ program, event.Writes key value

variable {program : List Event} {key : Bytes} {entry : EngineEntry} {s : Manager}

lemma Written.stored {key text : Bytes} (h : Written program key (.string text)) :
    Written program key (.string (storedValue text)) := by
  obtain ⟨event, hmem, hwrs⟩ := h
  refine ⟨event, hmem, ?_⟩
  cases event with
  | set k v ttl =>
    refine ⟨hwrs.1, .inr ?_⟩
    rcases hwrs.2 with h | h
    · cases h
      rfl
    · cases h
      rw [storedValue_of_short (storedValue_short v)]
  | loop event =>
    cases event with
    | append op =>
      cases op with
      | set k entry => exact hwrs
      | del k => exact hwrs
    | _ => exact hwrs
  | _ => exact hwrs

lemma Written.object {o : TypedValue} (h : Written program key (.object o)) (value : Value) : Written program key value := by
  obtain ⟨event, hmem, hwrs⟩ := h
  refine ⟨event, hmem, ?_⟩
  cases event with
  | set k v ttl => rcases hwrs.2 with h | h <;> cases h
  | loop event =>
    cases event with
    | append op =>
      cases op with
      | set k entry => exact hwrs
      | del k => exact hwrs
    | _ => exact hwrs
  | _ => exact hwrs

/-- Every copy comes from the program. -/
def marks (program : List Event) : Marks where
  slot key slot := slot.isCounter = false ∧ (Readable key → Written program key (.string slot.text))
  object key o := Written program key (.object o.value)
  item key item := Written program key item.entry.value
  entry key entry := Written program key entry.value
  promotion p := Readable p.key → ¬ Cache.TooLarge S.logical.size p.key p.value →
    Written program p.key (.string (storedValue p.value))

variable {S}

lemma Written.loaded {now : Int} {value : Value}
    (h : Written program key entry.value) (hval : S.loaded now entry = some value) :
    World.Marked.Restored (marks S program).slot (marks S program).object key (loadTTL now entry) now value := by
  unfold Setup.loaded at hval
  cases hent : entry.value with
  | string text =>
    rw [hent] at h hval
    simp only [Setup.serialize] at hval
    split at hval
    · cases hval
    · cases hval
      exact ⟨rfl, fun _ => h.stored⟩
  | object o =>
    rw [hent] at h
    cases value with
    | string text => exact ⟨rfl, fun _ => h.object _⟩
    | object v => exact h.object _

lemma closed_marks {event : Event} (hmem : event ∈ program) : (marks S program).Closed S s event := by
  cases event with
  | loop event =>
    cases event with
    | append op =>
      intro entry hent
      cases op with
      | set k entry' => exact ⟨_, hmem, rfl⟩
      | del k => cases hent
    | _ => exact fun key entry _ h => h
  | set key value ttl =>
    exact ⟨⟨rfl, fun _ => ⟨_, hmem, rfl, .inr rfl⟩⟩, ⟨_, hmem, rfl, .inl rfl⟩⟩
  | get key promotes =>
    intro item value _ hval hitem _ _
    unfold stringEntryValue at hval
    split at hval
    · next hstring =>
      cases hval
      change Written program key item.entry.value at hitem
      rw [hstring] at hitem
      exact hitem.stored
    · cases hval
  | promote i =>
    intro p _ hp hfits
    exact ⟨rfl, fun hreadable => hp hreadable hfits⟩
  | load => exact fun key item value _ hval hitem => hitem.loaded hval
  | _ => trivial

lemma along_of_forall {cond : Manager → Event → Prop} (h : ∀ s, ∀ event ∈ program, cond s event) (s : Manager) :
    Along (step S) cond s program := by
  induction program generalizing s with
  | nil => trivial
  | cons event program ih =>
    exact ⟨h s event mem_cons_self, fun s' _ => ih (fun s event hmem => h s event (mem_cons_of_mem _ hmem)) s'⟩

lemma written_of_reads {s s' : Manager} (hs : (marks S program).All s)
    (h : run (step S) s program = .ok s') {value : Value} (hread : s'.Reads S key value) :
    Written program key value := by
  have hs' := hs.run (along_of_forall (fun _ _ hmem => closed_marks hmem) s) h
  rcases reads_cases hread with ⟨slot, hslot, rfl⟩ | ⟨o, ho, rfl⟩ | ⟨item, hitem, rfl⟩
  · have hmark := hs'.hot.slot key slot hslot
    have hlive := (Store.lookup_of_live hslot).2
    cases slot with
    | counter n hn => cases hmark.1
    | entry e => exact hmark.2 hlive.1
  · exact hs'.hot.object key o ho
  · exact hs'.queue.item key item (Option.mem_filter_iff.1 hitem).1

lemma step_flushDB (s : Manager) : s.step S .flushDB = .ok { s with hot := ⟨∅, ∅, ∅⟩, loop := { s.loop with db := ∅ } } := rfl

lemma final_of_nothingPending (hs : s.NothingPending S) : s.Final S := by
  intro program flushed s' hflush hrun key value hread
  cases hflush
  refine written_of_reads ⟨.empty, ⟨?_, ?_, ?_⟩, ?_⟩ hrun hread
  · intro key item hitem
    cases hitem
  · intro key entry hent
    rw [hs.batch key] at hent
    cases hent
  · intro op hop entry hent
    rw [hs.ch op hop] at hent
    cases hent
  · intro p hp hreadable hfits
    exact absurd (hs.promotions p hp hreadable) hfits

/-! ## What is pending can come back -/

lemma visible_flushedItem (now : Int) (entry : EngineEntry) : (flushedItem now entry).Visible now := by
  intro t ht
  obtain ⟨d, -, hd⟩ := Option.bind_eq_some_iff.1 ht
  split at hd
  · cases hd
    omega
  · cases hd

lemma lookup_flush_of_leaves {now : Int} {batch : List WriteOp} {db : Warm}
    (h : leaves batch key = some entry) : (flush now batch db).lookup key = some (flushedItem now entry) := by
  induction batch using reverseRecOn with
  | nil => cases h
  | append_singleton batch op ih =>
    simp only [flush, foldl_append, foldl_cons, foldl_nil]
    by_cases hk : key = op.key
    · subst hk
      rw [leaves_append_self] at h
      cases op with
      | set k entry' =>
        cases h
        exact Finmap.lookup_insert _
      | del k => cases h
    · rw [leaves_append_of_ne batch op hk] at h
      cases op with
      | set k entry' => exact (Finmap.lookup_insert_of_ne _ hk).trans (ih h)
      | del k => exact (Finmap.lookup_erase_ne hk).trans (ih h)

lemma run_receive_timer {n : ℕ} {loop : WriteBehind} {op : WriteOp} {ch : List WriteOp}
    (hphase : loop.phase = .running) (hch : loop.ch = op :: ch) :
    run (WriteBehind.step n) loop [.receive, .timer] =
      .ok { loop with ch := ch, batch := [], db := flush loop.now (loop.batch ++ [op]) loop.db } := by
  by_cases hfull : (loop.batch ++ [op]).length ≥ n
  · have hrcv : loop.step n .receive =
        .ok { loop with ch := ch, batch := [], db := flush loop.now (loop.batch ++ [op]) loop.db } := by
      simp only [WriteBehind.step, hphase, hch, if_pos hfull]
    rw [run_cons_ok hrcv]
    simp only [run, WriteBehind.step, hphase]
    rfl
  · have hrcv : loop.step n .receive = .ok { loop with ch := ch, batch := loop.batch ++ [op] } := by
      simp only [WriteBehind.step, hphase, hch, if_neg hfull]
    rw [run_cons_ok hrcv]
    simp only [run, WriteBehind.step, hphase]

lemma exists_run_lookup {n : ℕ} (loop : WriteBehind) {op : WriteOp}
    (hphase : loop.phase = .running) (hop : op ∈ loop.ch) (hent : op.entry = some entry) :
    ∃ events loop', run (WriteBehind.step n) loop events = .ok loop' ∧
      (∀ event ∈ events, event = .receive ∨ event = .timer) ∧ loop'.now = loop.now ∧
      loop'.db.lookup op.key = some (flushedItem loop.now entry) := by
  generalize hch : loop.ch = ch at hop
  induction ch generalizing loop with
  | nil => cases hop
  | cons first ch ih =>
    have hround := run_receive_timer (n := n) hphase hch
    rcases mem_cons.1 hop with rfl | hop
    · refine ⟨[.receive, .timer], _, hround, by simp, rfl, lookup_flush_of_leaves ?_⟩
      rw [leaves_append_self, hent]
    obtain ⟨events, loop', hrun, hevents, hnow, hlk⟩ := ih
      { loop with ch := ch, batch := [], db := flush loop.now (loop.batch ++ [first]) loop.db }
      hphase rfl hop
    refine ⟨[.receive, .timer] ++ events, loop', ?_, ?_, hnow, hlk⟩
    · rw [run_append hround]
      exact hrun
    · intro event hmem
      rcases mem_append.1 hmem with hmem | hmem
      · simpa using hmem
      · exact hevents event hmem

lemma run_loops {events : List LoopEvent} {loop : WriteBehind}
    (h : run (WriteBehind.step S.batchSize) s.loop events = .ok loop) :
    run (step S) s (events.map .loop) = .ok { s with loop } := by
  induction events generalizing s with
  | nil =>
    cases h
    rfl
  | cons event events ih =>
    obtain ⟨l, hstep, h⟩ := run_cons_eq_ok h
    have hqueue : s.step S (.loop event) = .ok { s with loop := l } := by
      simp only [step, queue, hstep]
    rw [map_cons, run_cons_ok hqueue]
    exact ih (s := { s with loop := l }) h

lemma reads_item (s : Manager) {item : Item} (hhot : s.hot = ⟨∅, ∅, ∅⟩)
    (hitem : s.loop.db.lookup key = some item) (hvis : item.Visible s.now) :
    s.Reads S key item.entry.value := by
  obtain ⟨t, hrun, -⟩ := (@getEntry_simulates S.logical s.now key).run s.tiers
  have hget : s.loop.db.txnGet key s.now = some item := by
    simp [Warm.txnGet, hitem, hvis]
  have hcold : (s.tiers.view s.now).hot key = ⟨none, none⟩ := by
    change s.hot.live s.now key = _
    rw [hhot]
    rfl
  have hent : (s.tiers.view s.now).entry s.now key = some item.entry := by
    rw [TierView.entry_cold hcold]
    change (s.loop.db.txnGet key s.now).map Item.entry = _
    rw [hget]
    rfl
  rw [show ((s.tiers.view s.now).entry s.now key, s.tiers.view s.now).1 = some item.entry from hent] at hrun
  exact .inr ⟨item.entry.expireAt, t, hrun⟩

lemma not_writes_loop {events : List LoopEvent} (h : ∀ event ∈ events, event = .receive ∨ event = .timer)
    (key : Bytes) (value : Value) : ¬ ∃ event ∈ events.map Event.loop, event.Writes key value := by
  rintro ⟨event, hmem, hwrs⟩
  obtain ⟨e, he, rfl⟩ := mem_map.1 hmem
  rcases h e he with rfl | rfl <;> exact hwrs

/-- A goroutine that runs after the deadline of its entry writes the string without one. -/
lemma reads_promoted {p : Promotion} {i : ℕ} (hp : s.promotions[i]? = some p)
    (hreadable : Readable p.key) (hfits : ¬ Cache.TooLarge S.logical.size p.key p.value)
    (hlate : entryTTL s.now p.entry = 0) :
    ∃ s', s.step S (.promote i) = .ok s' ∧ s'.Reads S p.key (.string (storedValue p.value)) := by
  obtain ⟨hot, hset, hlive⟩ := (@Store.set_acts S.logical p.key p.value 0 s.now).run s.hot
  rw [World.set, if_neg hfits] at hset hlive
  have hcall : hotCall (Store.set S.logical.engine p.key p.value (entryTTL s.now p.entry) s.now) s.tiers =
      .ok (.ok (), { s.tiers with hot }) := by
    rw [hlate]
    change (Store.set S.logical.engine p.key p.value 0 s.now s.hot >>= fun q => _) = _
    rw [hset]
    rfl
  have hrun : S.runPromotion s.now p s.tiers = .ok ((), ⟨hot, (Warm.del s.now [p.key] s.loop.db).2⟩) := by
    unfold Setup.runPromotion
    rw [Views.run_bind hcall]
    rfl
  let s' : Manager :=
    ⟨hot, { s.loop with db := (Warm.del s.now [p.key] s.loop.db).2 }, s.promotions.eraseIdx i⟩
  refine ⟨s', ?_, .inl ⟨storedValue p.value, ?_⟩⟩
  · simp only [step, hp, call, hrun]
    rfl
  have hstr : ((s'.tiers.view s'.now).hot p.key).str = some (.entry (writtenEntry p.value 0 s.now)) := by
    change (hot.live s.now p.key).str = _
    rw [hlive]
    simp only [World.putStr, World.setStr_apply, if_true]
    rw [Store.freshSlot_written_zero, if_pos hreadable]
  obtain ⟨t, hget, -⟩ := (@get_simulates S.logical s'.now p.key).run s'.tiers
  rw [TierView.get_hot hstr] at hget
  exact ⟨t, rfl, hget⟩

lemma exists_late (now : Int) (entry : EngineEntry) : ∃ ns : ℕ, entryTTL (now + ns) entry = 0 := by
  cases hent : entry.expireAt with
  | none => exact ⟨0, by simp [entryTTL, hent]⟩
  | some t =>
    refine ⟨(t - now).toNat, ?_⟩
    simp only [entryTTL, hent, Store.timeUntil]
    omega

lemma nothingPending_of_final (hphase : s.loop.phase = .running) (h : s.Final S) : s.NothingPending S := by
  have hflush := step_flushDB (S := S) s
  refine ⟨fun key => ?_, fun op hop => ?_, fun p hp hreadable => ?_⟩
  · by_contra hne
    obtain ⟨entry, hent⟩ := Option.ne_none_iff_exists'.1 hne
    let loop : WriteBehind := { s.loop with batch := [], db := flush s.loop.now s.loop.batch ∅ }
    have hrun : run (WriteBehind.step S.batchSize) { s.loop with db := ∅ } [.timer] = .ok loop := by
      simp only [run, WriteBehind.step, hphase, loop]
    have hlk : loop.db.lookup key = some (flushedItem s.loop.now entry) := lookup_flush_of_leaves hent
    have hread := h _ _ _ hflush (run_loops hrun) key entry.value (reads_item _ rfl hlk (visible_flushedItem _ _))
    exact not_writes_loop (by simp) key entry.value hread
  · by_contra hne
    obtain ⟨entry, hent⟩ := Option.ne_none_iff_exists'.1 hne
    obtain ⟨events, loop, hrun, hevents, hnow, hlk⟩ :=
      exists_run_lookup (n := S.batchSize) { s.loop with db := ∅ } hphase hop hent
    have hvis : (flushedItem s.loop.now entry).Visible loop.now := by
      rw [hnow]
      exact visible_flushedItem _ _
    have hread := h _ _ _ hflush (run_loops hrun) op.key entry.value
      (reads_item { s with hot := ⟨∅, ∅, ∅⟩, loop } rfl hlk hvis)
    exact not_writes_loop hevents op.key entry.value hread
  · by_contra hfits
    obtain ⟨i, hi⟩ := getElem?_of_mem hp
    obtain ⟨ns, hlate⟩ := exists_late s.now p.entry
    let waited : Manager :=
      { s with hot := ⟨∅, ∅, ∅⟩, loop := { s.loop with db := ∅, now := s.loop.now + ns } }
    obtain ⟨s', hstep, hread⟩ :=
      reads_promoted (S := S) (s := waited) hi hreadable hfits hlate
    have hrun : run (step S) { s with hot := ⟨∅, ∅, ∅⟩, loop := { s.loop with db := ∅ } }
        [.loop (.wait ns), .promote i] = .ok s' := by
      have hwait : step S { s with hot := ⟨∅, ∅, ∅⟩, loop := { s.loop with db := ∅ } } (.loop (.wait ns)) = .ok waited := rfl
      rw [run_cons_ok hwait, run_cons_ok hstep]
      rfl
    obtain ⟨event, hmem, hwrs⟩ := h _ _ _ hflush hrun p.key _ hread
    simp only [mem_cons, not_mem_nil, or_false] at hmem
    rcases hmem with rfl | rfl <;> exact hwrs

end Manager

end AutoCache.Persistence
