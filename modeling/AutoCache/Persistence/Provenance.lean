import AutoCache.Lib.Hoare
import AutoCache.Persistence.Manager

/-!
# Where what is read comes from

The same data can be in the memory, in the database, in the queue and with a goroutine, each time in
another form. `Marks` says what a copy in each place has to be like. `Closed` says what one step asks of
the marks: a copy that it makes out of another one has the mark if the other one has it. Then all copies
have the marks in every state of a run.
-/

namespace AutoCache

open List Option World Function

/-- The live copies of all keys have the marks. -/
structure World.Marked (slot : Bytes → Slot → Prop) (object : Bytes → Object → Prop) (w : World) : Prop where
  slot : ∀ key, ∀ x ∈ (w key).str, slot key x
  object : ∀ key, ∀ x ∈ (w key).obj, object key x

namespace World.Marked

variable {slot : Bytes → Slot → Prop} {object : Bytes → Object → Prop} {w : World}

lemma empty : Marked slot object fun _ => ⟨none, none⟩ :=
  ⟨fun _ _ hx => (by cases hx), fun _ _ hx => (by cases hx)⟩

lemma later (h : w.Marked slot object) (t : Int) : (w.later t).Marked slot object :=
  ⟨fun key x hx => h.slot key x (mem_filter_iff.1 hx).1, fun key x hx => h.object key x (mem_filter_iff.1 hx).1⟩

variable {key : Bytes}

section

variable (h : w.Marked slot object)
include h

lemma update {k : KeyState} (hstr : ∀ x ∈ k.str, slot key x) (hobj : ∀ x ∈ k.obj, object key x) :
    Marked slot object (Function.update w key k) := by
  constructor <;> intro key' x hx <;> rw [update_apply] at hx <;> split_ifs at hx with hk
  · exact hk ▸ hstr x hx
  · exact h.slot key' x hx
  · exact hk ▸ hobj x hx
  · exact h.object key' x hx

lemma setStr {str : Option Slot} (hstr : ∀ x ∈ str, slot key x) : (w.setStr key str).Marked slot object :=
  h.update hstr (h.object key)

lemma setObj {obj : Option Object} (hobj : ∀ x ∈ obj, object key x) : (w.setObj key obj).Marked slot object :=
  h.update (h.slot key) hobj

lemma delKey (key : Bytes) : (w.delKey key).Marked slot object :=
  (h.setStr fun _ hx => by cases hx).setObj fun _ hx => by cases hx

lemma del (keys : List Bytes) : (w.del keys).Marked slot object :=
  foldlRecOn (motive := fun w => w.Marked slot object) keys World.delKey h fun _ hw key _ => hw.delKey key

lemma set {size : RingSize} {key value : Bytes} {ttl now : Int}
    (hslot : ¬ Cache.TooLarge size key value → slot key (.entry (writtenEntry value ttl now))) :
    (w.set size key value ttl now).2.Marked slot object := by
  unfold World.set
  split
  · exact h.setStr fun x hx => h.slot key x (mem_filter_iff.1 hx).1
  · next hfits =>
    refine h.setStr fun x hx => ?_
    rw [← some.inj (mem_filter_iff.1 hx).1]
    exact hslot hfits

def Restored (slot : Bytes → Slot → Prop) (object : Bytes → Object → Prop) (key : Bytes) (ttl now : Int) :
    Value → Prop
  | .string text => slot key (.entry (writtenEntry text ttl now))
  | .object v => object key ⟨v, objectDeadline ttl now⟩

lemma restore {size : RingSize} {ttl now : Int} {value : Value} (hval : Restored slot object key ttl now value) :
    (w.restore size key ttl now value).2.Marked slot object := by
  cases value with
  | string text => exact (h.delKey key).set fun _ => hval
  | object v =>
    refine (h.delKey key).setObj fun x hx => ?_
    rw [← some.inj (mem_filter_iff.1 hx).1]
    exact hval

end

end World.Marked

namespace Persistence

open Tiered Views

/-! ## Loading, on worlds -/

/-- The time to live that `LoadIntoMemory` gives an entry. -/
def loadTTL (now : Int) (entry : EngineEntry) : Int := entry.expireAt.elim 0 (Store.timeUntil · now)

/-- The value that `LoadIntoMemory` gets from an entry, if it is restored. -/
def Setup.loaded (S : Setup) (now : Int) (entry : EngineEntry) : Option Value :=
  match S.serialize entry.value with
  | none => none
  | some (type, payload) =>
    if loadTTL now entry < 0 then none else (Store.restoredValue S.logical type payload).toOption

/-- `LoadIntoMemory` at one item. -/
def Setup.loadWorld (S : Setup) (now : Int) (db : Warm) (w : World) (key : Bytes) : World :=
  match w.engineEntry key now, db.get key now with
  | none, some entry =>
    match S.loaded now entry with
    | none => w
    | some value => (w.restore S.logical.size key (loadTTL now entry) now value).2
  | _, _ => w

variable {S : Setup} {now : Int} {db : Warm} {key : Bytes}

lemma loadKey_acts : Acts now id (S.loadKey now db key) fun w => ((), S.loadWorld now db w key) := by
  refine (Acts.bind (g := fun e w => match e, db.get key now with
    | none, some entry => ((), match S.loaded now entry with
        | none => w
        | some value => (w.restore S.logical.size key (loadTTL now entry) now value).2)
    | _, _ => ((), w)) Store.engineEntry_acts fun e => ?_).congr fun w => ?_
  · cases e with
    | some e => exact Acts.pure ()
    | none =>
      cases db.get key now with
      | none => exact Acts.pure ()
      | some entry =>
        dsimp only [id]
        unfold Setup.loaded
        cases S.serialize entry.value with
        | none => exact Acts.pure ()
        | some p =>
          obtain ⟨type, payload⟩ := p
          change Acts now id (if loadTTL now entry < 0 then _ else _) _
          by_cases hneg : loadTTL now entry < 0
          · simp only [hneg, if_true]
            exact Acts.pure ()
          · simp only [hneg, if_false]
            refine (Acts.bind (g := fun _ w => ((), w)) Store.restoreEntry_acts fun _ => Acts.pure ()).congr fun w => ?_
            cases Store.restoredValue S.logical type payload <;> rfl
  · unfold Setup.loadWorld
    cases w.engineEntry key now with
    | some e => rfl
    | none => cases db.get key now <;> rfl

lemma loadKeys_acts (keys : List Bytes) :
    Acts now id (S.loadKeys now db keys) fun w => ((), keys.foldl (S.loadWorld now db) w) := by
  induction keys with
  | nil => exact Acts.pure ()
  | cons key keys ih =>
    exact loadKey_acts.seq fun _ => ih

/-! ## Reading -/

/-- A value that is read is a string or an object of the memory, or it is in an item that the database
shows. -/
lemma reads_cases {s : Manager} {value : Value} (h : s.Reads S key value) :
    (∃ slot ∈ (s.hot.live s.now key).str, value = .string slot.text) ∨
      (∃ o ∈ (s.hot.live s.now key).obj, value = .object o.value) ∨
      ∃ item, s.loop.db.txnGet key s.now = some item ∧ value = item.entry.value := by
  have hitem : (s.tiers.view s.now).warm key = s.loop.db.txnGet key s.now := rfl
  rcases h with ⟨text, t, rfl, hget⟩ | ⟨deadline, t, hget⟩
  · obtain ⟨t', hrun, -⟩ := (@get_simulates S.logical s.now key).run s.tiers
    have hview : (s.tiers.view s.now).get key = .ok text :=
      congrArg Prod.fst (Except.ok.inj (hrun.symm.trans hget))
    unfold TierView.get World.get at hview
    rw [show (s.tiers.view s.now).hot = s.hot.live s.now from rfl, hitem] at hview
    cases hstr : (s.hot.live s.now key).str with
    | some slot =>
      rw [hstr] at hview
      cases hview
      exact .inl ⟨slot, rfl, rfl⟩
    | none =>
      have hcold : (s.loop.db.txnGet key s.now).elim (Except.error TierError.keyNotFound)
          (fun item => stringEntryValue item.entry) = .ok text := by
        rw [hstr] at hview
        dsimp only at hview
        split at hview
        · next hok => split at hok <;> cases hok
        · exact hview
      cases hget : s.loop.db.txnGet key s.now with rw [hget] at hcold
      | none =>
        cases hcold
      | some item =>
        refine .inr (.inr ⟨item, rfl, ?_⟩)
        change stringEntryValue item.entry = .ok text at hcold
        unfold stringEntryValue at hcold
        split at hcold
        · next hval =>
          cases hcold
          exact hval.symm
        · cases hcold
  · obtain ⟨t', hrun, -⟩ := (@getEntry_simulates S.logical s.now key).run s.tiers
    have hview : (s.tiers.view s.now).entry s.now key = some ⟨value, deadline⟩ :=
      congrArg Prod.fst (Except.ok.inj (hrun.symm.trans hget))
    unfold TierView.entry engineEntry at hview
    rw [show (s.tiers.view s.now).hot = s.hot.live s.now from rfl, hitem] at hview
    cases hstr : (s.hot.live s.now key).str with rw [hstr] at hview
    | some slot =>
      cases hview
      exact .inl ⟨slot, rfl, rfl⟩
    | none =>
      cases hobj : (s.hot.live s.now key).obj with rw [hobj] at hview
      | some o =>
        cases hview
        exact .inr (.inl ⟨o, rfl, rfl⟩)
      | none =>
        cases hget : s.loop.db.txnGet key s.now with rw [hget] at hview
        | none =>
          cases hview
        | some item =>
          exact .inr (.inr ⟨item, rfl, (congrArg EngineEntry.value (some.inj hview)).symm⟩)

/-! ## Flushing, item by item -/

/-- The item that a flush makes of an entry. -/
def flushedItem (now : Int) (entry : EngineEntry) : Item :=
  ⟨entry, entry.expireAt.bind fun t =>
    if Store.timeUntil t now > 0 then some (now + Store.timeUntil t now) else none⟩

/-- What the operations leave where there was nothing. -/
abbrev leaves (ops : List WriteOp) : Entries := written ops fun _ => none

lemma leaves_append_self (ops : List WriteOp) (op : WriteOp) : leaves (ops ++ [op]) op.key = op.entry := by
  rw [leaves, written_append]
  exact update_self _ _ _

lemma leaves_append_of_ne (ops : List WriteOp) (op : WriteOp) (h : key ≠ op.key) :
    leaves (ops ++ [op]) key = leaves ops key := by
  rw [leaves, written_append]
  exact update_of_ne h _ _

lemma lookup_flush {batch : List WriteOp} {item : Item} (h : (flush now batch db).lookup key = some item) :
    db.lookup key = some item ∨ ∃ entry ∈ leaves batch key, item = flushedItem now entry := by
  induction batch using reverseRecOn generalizing item with
  | nil => exact .inl h
  | append_singleton batch op ih =>
    simp only [flush, foldl_append, foldl_cons, foldl_nil] at h
    cases op with
    | set k entry =>
      by_cases hk : key = k
      · subst hk
        exact .inr ⟨entry, leaves_append_self batch (.set key entry), (some.inj ((Finmap.lookup_insert _).symm.trans h)).symm⟩
      · rw [leaves_append_of_ne batch (.set k entry) hk]
        exact ih ((Finmap.lookup_insert_of_ne _ hk).symm.trans h)
    | del k =>
      by_cases hk : key = k
      · subst hk
        cases (Finmap.lookup_erase _ _).symm.trans h
      · rw [leaves_append_of_ne batch (.del k) hk]
        exact ih ((Finmap.lookup_erase_ne hk).symm.trans h)

namespace WriteBehind

def flushed (batchSize : ℕ) (s : WriteBehind) : LoopEvent → List WriteOp
  | .receive => if (s.batch ++ s.ch.take 1).length ≥ batchSize then s.batch ++ s.ch.take 1 else []
  | .timer => s.batch
  | .drain => s.ch.take 1
  | _ => []

end WriteBehind

/-! ## Marks -/

/-- What the copies are like: strings and objects in the memory, items of the database, queued entries and
promotions. -/
structure Marks where
  slot : Bytes → Slot → Prop
  object : Bytes → Object → Prop
  item : Bytes → Item → Prop
  entry : Bytes → EngineEntry → Prop
  promotion : Promotion → Prop

namespace Marks

variable (M : Marks)

/-- The queue: what the batch leaves, and everything in the channel. -/
structure Queue (s : WriteBehind) : Prop where
  item : ∀ key, ∀ item ∈ s.db.lookup key, M.item key item
  batch : ∀ key, ∀ entry ∈ leaves s.batch key, M.entry key entry
  ch : ∀ op ∈ s.ch, ∀ entry ∈ op.entry, M.entry op.key entry

structure All (s : Manager) : Prop where
  hot : (s.hot.live s.now).Marked M.slot M.object
  queue : M.Queue s.loop
  promotions : ∀ p ∈ s.promotions, M.promotion p

/-- What a step asks of the marks. -/
def Closed (S : Setup) (s : Manager) : Event → Prop
  | .loop (.append op) => ∀ entry ∈ op.entry, M.entry op.key entry
  | .loop event =>
    ∀ key, ∀ entry ∈ leaves (s.loop.flushed S.batchSize event) key, M.entry key entry →
      M.item key (flushedItem s.now entry)
  | .set key value ttl =>
    M.slot key (.entry (writtenEntry value ttl s.now)) ∧
      M.entry key ⟨.string value, Warm.deadline ttl s.now⟩
  | .get key _ =>
    ∀ item value, s.loop.db.txnGet key s.now = some item → stringEntryValue item.entry = .ok value →
      M.item key item → M.promotion ⟨key, value, item.entry⟩
  | .promote i =>
    ∀ p, s.promotions[i]? = some p → M.promotion p → ¬ Cache.TooLarge S.logical.size p.key p.value →
      M.slot p.key (.entry (writtenEntry p.value (entryTTL s.now p.entry) s.now))
  | .load =>
    ∀ key item value, s.loop.db.txnGet key s.now = some item → S.loaded s.now item.entry = some value →
      M.item key item →
        Marked.Restored M.slot M.object key (loadTTL s.now item.entry) s.now value
  | _ => True

variable {M} {S : Setup} {now : Int}

/-! ## The queue -/

lemma item_flush {db : Warm} {batch : List WriteOp} (hdb : ∀ key, ∀ item ∈ db.lookup key, M.item key item)
    (hbatch : ∀ key, ∀ entry ∈ leaves batch key, M.entry key entry)
    (hitem : ∀ key, ∀ entry ∈ leaves batch key, M.entry key entry → M.item key (flushedItem now entry)) :
    ∀ key, ∀ item ∈ (flush now batch db).lookup key, M.item key item := by
  intro key item h
  rcases lookup_flush h with h | ⟨entry, hent, rfl⟩
  · exact hdb key item h
  · exact hitem key entry hent (hbatch key entry hent)

lemma entry_snoc {batch : List WriteOp} {op : WriteOp} (hbatch : ∀ key, ∀ entry ∈ leaves batch key, M.entry key entry)
    (hop : ∀ entry ∈ op.entry, M.entry op.key entry) :
    ∀ key, ∀ entry ∈ leaves (batch ++ [op]) key, M.entry key entry := by
  intro key entry hent
  by_cases hk : key = op.key
  · subst hk
    rw [leaves_append_self] at hent
    exact hop entry hent
  · rw [leaves_append_of_ne batch op hk] at hent
    exact hbatch key entry hent

lemma entry_nil (key : Bytes) : ∀ entry ∈ leaves [] key, M.entry key entry :=
  fun _ hent => by cases hent

lemma Queue.step {s : Manager} {loop : WriteBehind} {event : LoopEvent} (h : M.Queue s.loop)
    (hcl : M.Closed S s (.loop event)) (hstep : s.loop.step S.batchSize event = .ok loop) :
    M.Queue loop := by
  obtain ⟨hitem, hbatch, hch⟩ := h
  cases event with simp only [WriteBehind.step] at hstep
  | wait ns =>
    cases hstep
    exact ⟨hitem, hbatch, hch⟩
  | append op =>
    split at hstep
    · cases hstep
    · cases hstep
      refine ⟨hitem, hbatch, fun op' hmem => ?_⟩
      rcases mem_append.1 hmem with hmem | hmem
      · exact hch op' hmem
      · rw [mem_singleton.1 hmem]
        exact hcl
  | receive =>
    split at hstep
    · next op ch _ hcons =>
      have hop := hch op (hcons ▸ mem_cons_self)
      have htail : ∀ op ∈ ch, ∀ entry ∈ op.entry, M.entry op.key entry :=
        fun op hmem => hch op (hcons ▸ mem_cons_of_mem _ hmem)
      have hsnoc := entry_snoc hbatch hop
      have hflushed : s.loop.flushed S.batchSize .receive =
          if (s.loop.batch ++ [op]).length ≥ S.batchSize then s.loop.batch ++ [op] else [] := by
        simp only [WriteBehind.flushed, hcons, take_succ_cons, take_zero]
      simp only [Closed, hflushed] at hcl
      split at hstep
      · next hfull =>
        cases hstep
        rw [if_pos hfull] at hcl
        exact ⟨item_flush hitem hsnoc hcl, entry_nil, htail⟩
      · cases hstep
        exact ⟨hitem, hsnoc, htail⟩
    · cases hstep
  | timer =>
    split at hstep
    · cases hstep
      exact ⟨item_flush hitem hbatch hcl, entry_nil, hch⟩
    · cases hstep
  | stop =>
    split at hstep
    · cases hstep
    · cases hstep
      exact ⟨hitem, hbatch, hch⟩
  | exit =>
    split at hstep
    · cases hstep
      exact ⟨hitem, entry_nil, hch⟩
    · cases hstep
  | drain =>
    split at hstep
    · next op ch _ hcons =>
      cases hstep
      have hop := hch op (hcons ▸ mem_cons_self)
      have hflushed : s.loop.flushed S.batchSize .drain = [op] := by
        simp only [WriteBehind.flushed, hcons, take_succ_cons, take_zero]
      simp only [Closed, hflushed] at hcl
      exact ⟨item_flush hitem (entry_snoc entry_nil hop) hcl, hbatch, fun op hmem => hch op (hcons ▸ mem_cons_of_mem _ hmem)⟩
    · cases hstep
      exact ⟨hitem, hbatch, hch⟩
    · cases hstep

/-! ## Calls on the tiers -/

structure Both (M : Marks) (now : Int) (t : Tiers Cache) : Prop where
  hot : (t.hot.live now).Marked M.slot M.object
  item : ∀ key, ∀ item ∈ t.warm.lookup key, M.item key item

def Keeps {α : Type} (M : Marks) (now : Int) (x : TierM Cache α) : Prop :=
  Hoare.Triple (M.Both now) x fun _ => M.Both now

lemma Keeps.pure {α : Type} (a : α) : M.Keeps now (Pure.pure a) := Hoare.Triple.pure fun _ h => h

lemma Keeps.bind {α β : Type} {x : TierM Cache α} {y : α → TierM Cache β} (hx : M.Keeps now x)
    (hy : ∀ a, M.Keeps now (y a)) : M.Keeps now (x >>= y) := Hoare.Triple.bind hx hy

lemma keeps_hotCall {α β : Type} {π : α → β} {x : StoreM Cache α} {f : World → β × World} (hx : Acts now π x f)
    (hf : ∀ w : World, w.Marked M.slot M.object → (f w).2.Marked M.slot M.object) :
    M.Keeps now (hotCall x) := by
  intro t a t' ht hr
  obtain ⟨b, hot, hrun, hlive⟩ := hx t.hot
  change (x t.hot >>= fun p => _) = _ at hr
  rw [hrun] at hr
  cases hr
  refine ⟨?_, ht.item⟩
  have hmarked := hf _ ht.hot
  rw [hlive] at hmarked
  exact hmarked

lemma keeps_warmCall {α : Type} {f : Warm → α × Warm}
    (hf : ∀ warm key item, (f warm).2.lookup key = some item → warm.lookup key = some item) :
    M.Keeps now (warmCall f) := by
  intro t a t' ht hr
  cases hr
  exact ⟨ht.hot, fun key item hitem => ht.item key item (hf t.warm key item hitem)⟩

variable {key : Bytes}

lemma lookup_of_lookup_del {keys : List Bytes} {warm : Warm} {item : Item}
    (h : (Warm.del now keys warm).2.lookup key = some item) : warm.lookup key = some item := by
  induction keys generalizing warm with
  | nil => exact h
  | cons k keys ih =>
    rw [Warm.del] at h
    cases hget : warm.txnGet k now with rw [hget] at h
    | none =>
      exact ih h
    | some x =>
      have herase := ih h
      by_cases hk : key = k
      · subst hk
        rw [Finmap.lookup_erase] at herase
        cases herase
      · rw [Finmap.lookup_erase_ne hk] at herase
        exact herase

lemma keeps_warmGet : M.Keeps now (warmCall fun warm => (warm.get key now, warm)) :=
  keeps_warmCall fun _ _ _ h => h

lemma keeps_del (keys : List Bytes) : M.Keeps now (Tiered.del S.logical.engine now keys) :=
  .bind (keeps_hotCall (Store.del_acts keys) fun _ hw => hw.del keys) fun _ =>
    .bind (keeps_warmCall fun _ _ _ => lookup_of_lookup_del) fun _ => .pure _

lemma keeps_getEntry (key : Bytes) : M.Keeps now (Tiered.getEntry S.logical.engine now key) := by
  refine .bind (keeps_hotCall Store.engineEntry_acts fun _ hw => hw) fun entry => ?_
  cases entry with
  | none => exact keeps_warmGet
  | some entry => exact .pure _

lemma keeps_runPromotion {p : Promotion} (h : ¬ Cache.TooLarge S.logical.size p.key p.value →
      M.slot p.key (.entry (writtenEntry p.value (entryTTL now p.entry) now))) :
    M.Keeps now (S.runPromotion now p) := by
  refine .bind (keeps_hotCall Store.set_acts fun _ hw => hw.set h) fun result => ?_
  cases result with
  | error e => exact .pure _
  | ok u =>
    exact .bind (keeps_warmCall fun _ _ _ => lookup_of_lookup_del) fun _ => .pure _

lemma readForPromotion_eq_ok {t t' : Tiers Cache} {promotion : Option Promotion}
    (h : S.readForPromotion now key t = .ok (promotion, t')) :
    ∀ p ∈ promotion, ∃ item value, t.warm.txnGet key now = some item ∧
      stringEntryValue item.entry = .ok value ∧ p = ⟨key, value, item.entry⟩ := by
  obtain ⟨r, hot, hrun, -⟩ := @Store.get_acts S.logical key now t.hot
  have hcall : hotCall (Store.get S.logical.engine key now) t = .ok (r, { t with hot }) := by
    change (Store.get S.logical.engine key now t.hot >>= fun p => _) = _
    rw [hrun]
    rfl
  unfold Setup.readForPromotion at h
  rw [Views.run_bind hcall] at h
  cases r with
  | ok value =>
    cases h
    intro p hp
    cases hp
  | error e =>
    dsimp only at h
    have hwarm : warmCall (fun warm => (warm.get key now, warm)) { t with hot } =
        .ok (t.warm.get key now, { t with hot }) := rfl
    rw [Views.run_bind hwarm] at h
    unfold Warm.get at h
    cases hget : t.warm.txnGet key now with rw [hget] at h
    | none =>
      cases h
      intro p hp
      cases hp
    | some item =>
      dsimp only [map_some] at h
      cases hval : stringEntryValue item.entry with rw [hval] at h
      | error e =>
        cases h
        intro p hp
        cases hp
      | ok value =>
        cases h
        intro p hp
        cases hp
        exact ⟨item, value, rfl, hval, rfl⟩

lemma keeps_readForPromotion (key : Bytes) : M.Keeps now (S.readForPromotion now key) := by
  refine .bind (keeps_hotCall Store.get_acts fun _ hw => hw) fun result => ?_
  cases result with
  | ok value => exact .pure _
  | error e =>
    refine .bind keeps_warmGet fun entry => ?_
    cases entry with
    | none => exact .pure _
    | some entry =>
      dsimp only
      cases stringEntryValue entry <;> exact .pure _

lemma marked_load {db : Warm} {w : World}
    (hload : ∀ key item value, db.txnGet key now = some item → S.loaded now item.entry = some value →
      Marked.Restored M.slot M.object key (loadTTL now item.entry) now value)
    (hw : w.Marked M.slot M.object) (keys : List Bytes) :
    (keys.foldl (S.loadWorld now db) w).Marked M.slot M.object := by
  refine foldlRecOn (motive := Marked M.slot M.object) keys _ hw fun w hw key _ => ?_
  unfold Setup.loadWorld
  cases w.engineEntry key now with
  | some e => exact hw
  | none =>
    unfold Warm.get
    cases hget : db.txnGet key now with
    | none => exact hw
    | some item =>
      dsimp only [map_some]
      cases hval : S.loaded now item.entry with
      | none => exact hw
      | some value => exact hw.restore (hload key item value hget hval)

/-! ## Steps and runs -/

section Steps

variable {s s' : Manager}

lemma call_eq_ok {α : Type} {x : TierM Cache α} {a : α} (h : s.call x = .ok (a, s')) :
    ∃ t, x s.tiers = .ok (a, t) ∧ s' = { s with hot := t.hot, loop := { s.loop with db := t.warm } } := by
  unfold Manager.call at h
  split at h
  · next hx =>
    cases h
    exact ⟨_, hx, rfl⟩
  · cases h

variable {event : LoopEvent}

lemma queue_eq_ok (h : s.queue S event = .ok s') :
    ∃ loop, s.loop.step S.batchSize event = .ok loop ∧ s' = { s with loop } := by
  unfold Manager.queue at h
  split at h
  · next hstep =>
    cases h
    exact ⟨_, hstep, rfl⟩
  · cases h

lemma All.call {α : Type} {x : TierM Cache α} {a : α} (hs : M.All s) (hx : M.Keeps s.now x)
    (h : s.call x = .ok (a, s')) : M.All s' := by
  obtain ⟨t, ht, rfl⟩ := call_eq_ok h
  have hboth := hx s.tiers a t ⟨hs.hot, hs.queue.item⟩ ht
  exact ⟨hboth.hot, ⟨hboth.item, hs.queue.batch, hs.queue.ch⟩, hs.promotions⟩

lemma now_le_of_step {n : ℕ} {loop loop' : WriteBehind} (h : loop.step n event = .ok loop') : loop.now ≤ loop'.now := by
  cases event with
  | wait ns =>
    cases h
    exact le_add_of_nonneg_right (Int.natCast_nonneg ns)
  | _ =>
    unfold WriteBehind.step at h
    dsimp only at h
    repeat' split at h
    all_goals first | cases h; exact le_rfl | cases h

lemma All.queue_step (hs : M.All s) (hcl : M.Closed S s (.loop event)) (h : s.queue S event = .ok s') : M.All s' := by
  obtain ⟨loop, hstep, rfl⟩ := queue_eq_ok h
  refine ⟨?_, hs.queue.step hcl hstep, hs.promotions⟩
  change (s.hot.live loop.now).Marked _ _
  rw [Store.live_later (now_le_of_step hstep)]
  exact hs.hot.later _

lemma All.appendDels {keys : List Bytes} (hs : M.All s) (h : Manager.appendDels S keys s = .ok s') : M.All s' := by
  induction keys generalizing s with
  | nil =>
    cases h
    exact hs
  | cons key keys ih =>
    rw [Manager.appendDels] at h
    split at h
    · cases h
    · next t hqueue =>
      have hnone : M.Closed S s (.loop (.append (.del key))) := fun entry hent => by cases hent
      exact ih (hs.queue_step hnone hqueue) h

/-- **One step keeps the marks**, if they are closed under it. -/
lemma All.step {event : Event} (hs : M.All s) (hcl : M.Closed S s event) (h : s.step S event = .ok s') : M.All s' := by
  cases event with
  | loop event => exact hs.queue_step hcl h
  | set key value ttl =>
    obtain ⟨⟨result, t⟩, hcall, h⟩ := Go.bind_eq_ok.1 h
    have ht := hs.call (.bind (keeps_hotCall Store.set_acts fun _ hw => hw.set fun _ => hcl.1) fun _ => .pure _) hcall
    cases result with
    | error e =>
      cases h
      exact ht
    | ok u =>
      obtain ⟨t', -, rfl⟩ := call_eq_ok hcall
      have hent : M.Closed S { s with hot := t'.hot, loop := { s.loop with db := t'.warm } }
          (.loop (.append (.set key ⟨.string value, Warm.deadline ttl s.now⟩))) := by
        intro entry h
        cases h
        exact hcl.2
      exact ht.queue_step hent h
  | del keys =>
    obtain ⟨⟨n, t⟩, hcall, h⟩ := Go.bind_eq_ok.1 h
    exact (hs.call (keeps_del keys) hcall).appendDels h
  | flushDB =>
    obtain ⟨⟨u, t⟩, hcall, h⟩ := Go.bind_eq_ok.1 h
    have ht := hs.call (keeps_hotCall Store.flushDB_acts fun _ _ => .empty) hcall
    cases h
    exact ⟨ht.hot, ⟨fun key item hitem => (by cases hitem), ht.queue.batch, ht.queue.ch⟩, ht.promotions⟩
  | get key promotes =>
    obtain ⟨⟨promotion, t⟩, hcall, h⟩ := Go.bind_eq_ok.1 h
    have ht := hs.call (keeps_readForPromotion key) hcall
    obtain ⟨t', hread, rfl⟩ := call_eq_ok hcall
    cases promotion with
    | none =>
      cases h
      exact ht
    | some p =>
      cases promotes with
      | false =>
        cases h
        exact ht
      | true =>
        cases h
        obtain ⟨item, value, hget, hval, rfl⟩ := readForPromotion_eq_ok hread p rfl
        refine ⟨ht.hot, ht.queue, fun q hq => ?_⟩
        rcases mem_append.1 hq with hq | hq
        · exact hs.promotions q hq
        · rw [mem_singleton.1 hq]
          have hitem := hs.queue.item key item (mem_filter_iff.1 hget).1
          exact hcl item value hget hval hitem
  | getEntry key =>
    obtain ⟨⟨entry, t⟩, hcall, h⟩ := Go.bind_eq_ok.1 h
    cases h
    exact hs.call (keeps_getEntry key) hcall
  | promote i =>
    simp only [Manager.step] at h
    cases hp : s.promotions[i]? with rw [hp] at h
    | none =>
      cases h
    | some p =>
      obtain ⟨⟨u, t⟩, hcall, h⟩ := Go.bind_eq_ok.1 h
      have hslot := hcl p hp (hs.promotions p (mem_of_getElem? hp))
      have ht := hs.call (keeps_runPromotion hslot) hcall
      cases h
      exact ⟨ht.hot, ht.queue, fun q hq => ht.promotions q (mem_of_mem_eraseIdx hq)⟩
  | load =>
    obtain ⟨⟨u, t⟩, hcall, h⟩ := Go.bind_eq_ok.1 h
    cases h
    refine hs.call (keeps_hotCall (loadKeys_acts _) fun w hw => marked_load ?_ hw _) hcall
    intro key item value hget hval
    exact hcl key item value hget hval (hs.queue.item key item (mem_filter_iff.1 hget).1)
  | restart =>
    cases h
    exact ⟨.empty, ⟨hs.queue.item, entry_nil, fun op hmem => by cases hmem⟩, fun p hp => by cases hp⟩

/-- **A run keeps the marks**, if they are closed under its steps. -/
lemma All.run {program : List Event} (hs : M.All s) (hcl : Runs.Along (Manager.step S) (M.Closed S) s program)
    (h : Runs.run (Manager.step S) s program = .ok s') : M.All s' :=
  hcl.run_invariant (fun _ _ _ hs hcl h => hs.step hcl h) hs h

end Steps

end Marks

end Persistence

end AutoCache
