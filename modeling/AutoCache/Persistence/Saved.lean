import AutoCache.Persistence.Commands
import AutoCache.Tiered.Demoted

/-!
# What the queue and the database will bring back

For a key, an entry agrees with the memory if a load of the entry at any later moment shows what the
memory then shows. The entry is the last one that waits in the queue or, if none does, that of the
database; and where the database hides its item, the memory shows nothing either.

At the moment that is the deadline itself the database has dropped an item while the memory still has
the value; that moment is left out.
-/

namespace AutoCache

open World List Option

namespace World

variable {w w' : World} {key : Bytes} {now t t' : Int}

lemma engineEntry_congr (h : w key = w' key) : w.engineEntry key t = w'.engineEntry key t := by
  simp only [engineEntry, h]

lemma later_apply_congr (h : w key = w' key) : w.later t key = w'.later t key := by
  simp only [later, h]

lemma live_and_live (h : t ≤ t') (slot : Slot) :
    (decide (slot.Live key t) && decide (slot.Live key t')) = decide (slot.Live key t') := by
  by_cases hlive : slot.Live key t'
  · simp [hlive, hlive.mono h]
  · simp [hlive]

lemma later_later (h : t ≤ t') : (w.later t).later t' = w.later t' := by
  funext key
  have hobj (o : Object) : (decide (¬ o.expired t) && decide (¬ o.expired t')) = decide (¬ o.expired t') := by
    by_cases hexp : o.expired t
    · simp [hexp, hexp.mono h]
    · simp [hexp]
  simp only [later, Option.filter_filter, live_and_live h, hobj]

lemma engineEntry_of_str {str : Option Slot} (h : w key = ⟨str, none⟩) : w.engineEntry key t = str.map (Slot.shown t) := by
  simp only [engineEntry, h]
  cases str <;> rfl

lemma engineEntry_gone (h : w key = .gone) : w.engineEntry key t = none := engineEntry_of_str h

lemma later_gone_entry (h : w key = .gone) : (w.later t).engineEntry key t = none :=
  engineEntry_gone (later_gone h)

end World

namespace Persistence

open Tiered

/-! ## An entry and the memory -/

/-- What `GetEntry` reports after an entry was loaded. -/
def Setup.shown (S : Setup) (t : Int) (key : Bytes) (entry : EngineEntry) : Option EngineEntry :=
  (S.loaded t entry).bind fun value =>
    (World.restore (fun _ => .gone) S.logical.size key (loadTTL t entry) t value).2.engineEntry key t

/-- A moment from now on, at which the entry does not just expire. -/
structure Moment (now : Int) (entry : Option EngineEntry) (t : Int) : Prop where
  later : now ≤ t
  clock : t < 2 ^ 63 - 1
  notDue : ∀ e ∈ entry, e.expireAt ≠ some t

/-- From now on a load of the entry shows what the memory shows. -/
def Setup.Agrees (S : Setup) (now : Int) (key : Bytes) (w : World) (entry : Option EngineEntry) : Prop :=
  ∀ t, Moment now entry t → (w.later t).engineEntry key t = entry.bind (S.shown t key)

section Agrees

variable {S : Setup} {now ttl t : Int} {key value : Bytes} {w w' : World} {entry : Option EngineEntry}

lemma Setup.Agrees.congr (h : S.Agrees now key w entry) (hw : w' key = w key) : S.Agrees now key w' entry := by
  intro t ht
  rw [engineEntry_congr (later_apply_congr hw)]
  exact h t ht

lemma Setup.Agrees.later (h : S.Agrees now key w entry) (hle : now ≤ t) : S.Agrees t key (w.later t) entry := by
  intro t' ht
  rw [later_later ht.later]
  exact h t' ⟨hle.trans ht.later, ht.clock, ht.notDue⟩

lemma agrees_gone (h : w key = .gone) : S.Agrees now key w none :=
  fun _ _ => later_gone_entry h

lemma shown_string {deadline : Option Int} (hfits : ¬ Cache.TooLarge S.logical.size key value) :
    S.shown t key ⟨.string value, deadline⟩ = if loadTTL t ⟨.string value, deadline⟩ < 0 then none
      else (freshSlot key t (.entry (writtenEntry value (loadTTL t ⟨.string value, deadline⟩) t))).map (Slot.shown t) := by
  unfold Setup.shown Setup.loaded
  simp only [Setup.serialize]
  split
  · rfl
  · simp only [Store.restoredValue, Except.toOption, bind_some, World.restore, World.set, if_neg hfits, putStr]
    refine engineEntry_of_str ?_
    simp [World.setStr_apply, World.delKey_apply]

/-- The string that `Set` wrote, at a later moment. -/
lemma putStr_later (hle : now ≤ t) : (w.putStr key value ttl now).later t key =
    ⟨freshSlot key t (.entry (writtenEntry value ttl now)), (w key).obj.filter fun o => ¬ o.expired t⟩ := by
  simp only [later, putStr, setStr_apply, if_true, freshSlot, Option.filter_filter, live_and_live hle]

lemma putStr_later_of_none (hle : now ≤ t) (hnone : (w key).obj = none) : (w.putStr key value ttl now).later t key =
      ⟨freshSlot key t (.entry (writtenEntry value ttl now)), none⟩ := by
  rw [putStr_later hle, hnone]
  rfl

lemma agrees_string (hnow : 0 ≤ now) (httl : ttl < 2 ^ 63) (hfits : ¬ Cache.TooLarge S.logical.size key value)
    (hobj : (w key).obj = none ∨ ttl ≤ 0 ∧ Readable key) :
    S.Agrees now key (w.putStr key value ttl now) (some ⟨.string value, Warm.deadline ttl now⟩) := by
  rintro t ⟨hle, hclk, hdue⟩
  rw [bind_some, shown_string hfits]
  by_cases hpos : 0 < ttl
  · have hnone : (w key).obj = none := hobj.resolve_right fun h => by omega
    have hload : loadTTL t ⟨.string value, Warm.deadline ttl now⟩ = now + ttl - t := by
      simp only [loadTTL, Warm.deadline, if_pos hpos, elim_some, Store.timeUntil]
      omega
    have hne : now + ttl ≠ t := by
      have := hdue _ rfl
      simpa [Warm.deadline, hpos] using this
    rw [engineEntry_of_str (putStr_later_of_none hle hnone), hload]
    by_cases hlt : t < now + ttl
    · have hsame : writtenEntry value (now + ttl - t) t = writtenEntry value ttl now := by
        have hrest : now + ttl - t > 0 := by omega
        simp only [writtenEntry, deadline, if_pos hpos, if_pos hrest]
        congr 2
        omega
      rw [if_neg (by omega), hsame]
    · have hexp : (writtenEntry value ttl now).expired t := by
        have hdl : (deadline ttl now).toInt = now + ttl := by
          rw [Store.deadline_toInt]
          simp only [objectDeadline, if_pos hpos, wrap64]
          omega
        refine ⟨?_, ?_⟩
        · simp only [writtenEntry, hdl]
          omega
        · simp only [writtenEntry, hdl]
          omega
      rw [if_pos (by omega), Store.freshSlot_entry, if_neg fun h => h.2 hexp]
      rfl
  · have hload : loadTTL t ⟨.string value, Warm.deadline ttl now⟩ = 0 := by
      simp only [loadTTL, Warm.deadline, if_neg hpos, elim_none]
    have hsame : writtenEntry value 0 t = writtenEntry value ttl now := by
      simp only [writtenEntry, deadline, if_neg hpos, lt_irrefl, gt_iff_lt, if_false]
    rw [hload, if_neg (lt_irrefl 0), hsame]
    by_cases hread : Readable key
    · have hfresh : freshSlot key t (.entry (writtenEntry value ttl now)) = some (.entry (writtenEntry value ttl now)) := by
        rw [← hsame, Store.freshSlot_written_zero, if_pos hread]
      simp only [engineEntry, putStr_later hle, hfresh]
      rfl
    · have hnone : (w key).obj = none := hobj.resolve_right fun h => hread h.2
      exact engineEntry_of_str (putStr_later_of_none hle hnone)

lemma agrees_object {v : TypedValue} (hw : w key = ⟨none, some ⟨v, 0⟩⟩) (hv : S.RoundTrips v) :
    S.Agrees now key w (some ⟨.object v, none⟩) := by
  obtain ⟨payload, hmarshal, hunmarshal⟩ := hv
  rintro t ⟨hle, hclk, hdue⟩
  have hlater : w.later t key = ⟨none, some ⟨v, 0⟩⟩ := by
    simp [later, hw, Object.expired]
  have hloaded : S.loaded t ⟨.object v, none⟩ = some (.object v) := by
    simp only [Setup.loaded, Setup.serialize, hmarshal, map_some, loadTTL, elim_none, lt_irrefl, if_false]
    cases v <;> simp only [TypedValue.type, Store.restoredValue] at hunmarshal ⊢ <;> rw [hunmarshal] <;> rfl
  have hfresh : freshObject t ⟨v, objectDeadline 0 t⟩ = some ⟨v, 0⟩ := by
    rw [Store.freshObject_eq]
    simp [objectDeadline, Object.expired]
  have hload : loadTTL t ⟨.object v, none⟩ = 0 := rfl
  simp only [bind_some, Setup.shown, hloaded, engineEntry, hlater, restore, hload,
    hfresh, setObj_apply, delKey_apply, if_true]

end Agrees

/-! ## A key and what waits for it -/

def Waits (queue : List WriteOp) (key : Bytes) : Prop := ∃ op ∈ queue, op.key = key

/-- What memory holds under a key will be there after a restart, once the queue is flushed. Counters
and deadlines of collections are not in the queue, so there are none. -/
structure Saved (S : Setup) (now : Int) (w : World) (db : Warm) (queue : List WriteOp) (key : Bytes) :
    Prop where
  noCounter : ∀ slot ∈ (w key).str, slot.isCounter = false
  undated : ∀ o ∈ (w key).obj, o.expireAt = 0
  agrees : S.Agrees now key w (written queue (entries db) key)
  hidden : ¬ Waits queue key → ∀ item ∈ db.lookup key, ∀ t, Moment now (some item.entry) t →
    ¬ item.Visible t → (w.later t).engineEntry key t = none

section Saved

variable {S : Setup} {now t : Int} {key : Bytes} {w w' : World} {db db' : Warm}
  {queue ops : List WriteOp}

lemma written_congr {e e' : Entries} (h : e key = e' key) : written ops e key = written ops e' key := by
  by_cases hmem : ∃ op ∈ ops, op.key = key
  · exact written_of_mem hmem e e'
  · rw [written_of_not_mem hmem, written_of_not_mem hmem, h]

section

variable (h : Saved S now w db queue key) (hw : w' key = w key) (hdb : db'.lookup key = db.lookup key)
include h hw hdb

lemma Saved.frame (hops : ¬ Waits ops key) : Saved S now w' db' (queue ++ ops) key where
  noCounter := by
    rw [hw]
    exact h.noCounter
  undated := by
    rw [hw]
    exact h.undated
  agrees := by
    have hentries : entries db' key = entries db key := by rw [entries, entries, hdb]
    rw [written_append, written_of_not_mem hops, written_congr hentries]
    exact h.agrees.congr hw
  hidden := by
    intro hwaits item hitem t ht hvis
    have hqueue : ¬ Waits queue key := fun hop => hwaits (hop.imp fun _ => And.imp_left (mem_append_left _))
    rw [engineEntry_congr (later_apply_congr hw)]
    exact h.hidden hqueue item (hdb ▸ hitem) t ht hvis

lemma Saved.congr : Saved S now w' db' queue key := by
  have hnone : ¬ Waits [] key := fun ⟨_, hop, _⟩ => absurd hop not_mem_nil
  have hframe := h.frame hw hdb hnone
  rwa [append_nil] at hframe

end

lemma Saved.queued (hctr : ∀ slot ∈ (w key).str, slot.isCounter = false)
    (hundated : ∀ o ∈ (w key).obj, o.expireAt = 0) (hwaits : Waits ops key)
    (hagrees : S.Agrees now key w (leaves ops key)) : Saved S now w db (queue ++ ops) key where
  noCounter := hctr
  undated := hundated
  agrees := by
    rw [written_append, written_of_mem hwaits _ fun _ => none]
    exact hagrees
  hidden := fun hnot => absurd (hwaits.imp fun _ h => ⟨mem_append_right _ h.1, h.2⟩) hnot

lemma Saved.push (op : WriteOp) (hctr : ∀ slot ∈ (w op.key).str, slot.isCounter = false)
    (hundated : ∀ o ∈ (w op.key).obj, o.expireAt = 0) (hagrees : S.Agrees now op.key w op.entry) :
    Saved S now w db (queue ++ [op]) op.key := by
  refine .queued hctr hundated ⟨op, mem_singleton_self op, rfl⟩ ?_
  rw [← nil_append [op], leaves_append_self]
  exact hagrees

lemma Saved.later (h : Saved S now w db queue key) (hle : now ≤ t) : Saved S t (w.later t) db queue key where
  noCounter := fun slot hslot => h.noCounter slot (filter_eq_some_iff.1 hslot).1
  undated := fun o ho => h.undated o (filter_eq_some_iff.1 ho).1
  agrees := h.agrees.later hle
  hidden := by
    intro hwaits item hitem t' ht hvis
    rw [later_later ht.later]
    exact h.hidden hwaits item hitem t' ⟨hle.trans ht.later, ht.clock, ht.notDue⟩ hvis

lemma lookup_flush_eq (batch : List WriteOp) (db : Warm) (key : Bytes) :
    (Waits batch key → (flush now batch db).lookup key = (leaves batch key).map (flushedItem now)) ∧
      (¬ Waits batch key → (flush now batch db).lookup key = db.lookup key) := by
  induction batch using reverseRecOn with
  | nil => exact ⟨fun ⟨_, hop, _⟩ => absurd hop not_mem_nil, fun _ => rfl⟩
  | append_singleton batch op ih =>
    have hstep : flush now (batch ++ [op]) db = op.flush now (flush now batch db) := by
      simp [flush]
    rw [hstep]
    by_cases hkey : op.key = key
    · have hwaits : Waits (batch ++ [op]) key := ⟨op, by simp, hkey⟩
      refine ⟨fun _ => ?_, fun hnot => absurd hwaits hnot⟩
      subst hkey
      rw [leaves_append_self]
      cases op <;> simp [WriteOp.flush, WriteOp.key, WriteOp.entry, flushedItem]
    · have hsame : (op.flush now (flush now batch db)).lookup key = (flush now batch db).lookup key := by
        cases op <;> simp [WriteOp.flush, WriteOp.key] at hkey ⊢ <;> simp [Ne.symm hkey]
      have hiff : Waits (batch ++ [op]) key ↔ Waits batch key := by
        simp [Waits, or_and_right, exists_or, hkey]
      rw [hsame, hiff, leaves_append_of_ne batch op (Ne.symm hkey)]
      exact ih

/-- Once the database has dropped an entry that was flushed, a load would leave it out. -/
lemma shown_of_hidden {e : EngineEntry} (hnow : 0 ≤ now) (ht : Moment now (some e) t)
    (hvis : ¬ (flushedItem now e).Visible t) : S.shown t key e = none := by
  have hneg : loadTTL t e < 0 := by
    obtain ⟨hle, hclk, hdue⟩ := ht
    cases hdl : e.expireAt with
    | none => simp [flushedItem, Item.Visible, hdl] at hvis
    | some d =>
      have hne : d ≠ t := fun heq => hdue e rfl (heq ▸ hdl)
      simp only [flushedItem, Item.Visible, hdl, bind_some] at hvis
      simp only [loadTTL, hdl, elim_some]
      unfold Store.timeUntil at hvis ⊢
      split at hvis
      · simp only [mem_def, some.injEq, forall_eq'] at hvis
        omega
      · simp at hvis
  unfold Setup.shown Setup.loaded
  cases S.serialize e.value with
  | none => rfl
  | some p => simp [hneg]

lemma Saved.flush (h : Saved S now w db queue key) (hnow : 0 ≤ now) (n : ℕ) :
    Saved S now w (flush now (queue.take n) db) (queue.drop n) key where
  noCounter := h.noCounter
  undated := h.undated
  agrees := by
    rw [entries_flush, ← written_append, take_append_drop]
    exact h.agrees
  hidden := by
    intro hwaits item hitem t ht hvis
    obtain ⟨hflushed, hkept⟩ := @lookup_flush_eq now (queue.take n) db key
    by_cases hbatch : Waits (queue.take n) key
    · rw [hflushed hbatch] at hitem
      obtain ⟨e, he, rfl⟩ := map_eq_some_iff.1 hitem
      have himage : written queue (entries db) key = some e := by
        rw [← take_append_drop n queue, written_append, written_of_not_mem hwaits, written_of_mem hbatch _ fun _ => none]
        exact he
      have hshown := h.agrees t (himage ▸ ht)
      rw [himage, bind_some] at hshown
      exact hshown.trans (shown_of_hidden hnow ht hvis)
    · rw [hkept hbatch] at hitem
      refine h.hidden (fun ⟨op, hop, hkey⟩ => ?_) item hitem t ht hvis
      rw [← take_append_drop n queue, mem_append] at hop
      exact hop.elim (fun hop => hbatch ⟨op, hop, hkey⟩) fun hop => hwaits ⟨op, hop, hkey⟩

end Saved

/-! ## Loading -/

section Load

variable {S : Setup} {now : Int} {key : Bytes} {w w' : World} {db : Warm}

lemma loadWorld_of_ne {k : Bytes} (hk : k ≠ key) : S.loadWorld now db w key k = w k := by
  unfold Setup.loadWorld
  cases w.engineEntry key now with
  | some e => rfl
  | none =>
    cases db.get key now with
    | none => rfl
    | some entry =>
      dsimp only
      cases S.loaded now entry with
      | none => rfl
      | some value => exact restore_of_ne hk

lemma loadWorld_self (h : w key = .gone) :
    (S.loadWorld now db w key).engineEntry key now = (db.get key now).bind (S.shown now key) := by
  have hrestore (entry : EngineEntry) (value : Value) : (w.restore S.logical.size key (loadTTL now entry) now value).2 key =
        (restore (fun _ => .gone) S.logical.size key (loadTTL now entry) now value).2 key := by
    cases value with
    | string text =>
      simp only [World.restore, World.set, World.delKey_apply, if_true]
      split <;> simp [World.putStr, World.setStr_apply, World.delKey_apply]
    | object v => simp [restore, setObj_apply, delKey_apply]
  unfold Setup.loadWorld
  rw [engineEntry_gone h]
  cases db.get key now with
  | none => exact engineEntry_gone h
  | some entry =>
    simp only [bind_some, Setup.shown]
    cases S.loaded now entry with
    | none => exact engineEntry_gone h
    | some value => exact engineEntry_congr (hrestore entry value)

lemma loadKeys_engineEntry {keys : List Bytes} (hnd : keys.Nodup) (hgone : ∀ k ∈ keys, w k = .gone) :
    (keys.foldl (S.loadWorld now db) w).engineEntry key now =
      if key ∈ keys then (db.get key now).bind (S.shown now key) else w.engineEntry key now := by
  induction keys generalizing w with
  | nil => simp
  | cons k keys ih =>
    obtain ⟨hk, hnd⟩ := nodup_cons.1 hnd
    have hrest : ∀ k' ∈ keys, S.loadWorld now db w k k' = .gone := by
      intro k' hk'
      have hne : k' ≠ k := fun heq => hk (heq ▸ hk')
      rw [loadWorld_of_ne hne]
      exact hgone k' (mem_cons_of_mem _ hk')
    rw [foldl_cons, ih hnd hrest]
    by_cases hkey : key = k
    · subst hkey
      rw [if_neg hk, if_pos mem_cons_self]
      exact loadWorld_self (hgone key mem_cons_self)
    · have hsame : (S.loadWorld now db w k).engineEntry key now = w.engineEntry key now :=
        engineEntry_congr (loadWorld_of_ne hkey)
      simp [hkey, hsame]

/-- **What `LoadIntoMemory` shows**: for every key the entry of the database, if it can be loaded. -/
lemma load_run (S : Setup) (now : Int) (db : Warm) : ∃ hot, S.load now db ⟨∅, ∅, ∅⟩ = .ok ((), hot) ∧
      ∀ key, (hot.live now).engineEntry key now = (db.get key now).bind (S.shown now key) := by
  obtain ⟨hot, hrun, hlive⟩ := (@loadKeys_acts S now db (db.keys.sort (· ≤ ·))).run ⟨∅, ∅, ∅⟩
  refine ⟨hot, hrun, fun key => ?_⟩
  have hgone (k : Bytes) : (⟨∅, ∅, ∅⟩ : Store Cache).live now k = .gone := rfl
  rw [hlive]
  refine (loadKeys_engineEntry (Finset.sort_nodup _ _) fun k _ => hgone k).trans ?_
  split
  · rfl
  · next hkey =>
    have hnone : db.lookup key = none := by
      rw [Finset.mem_sort, Finmap.mem_keys] at hkey
      exact Finmap.lookup_eq_none.2 hkey
    rw [engineEntry_gone (hgone key)]
    simp [Warm.get, Warm.txnGet, hnone]

end Load

end Persistence

end AutoCache
