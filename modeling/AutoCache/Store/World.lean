import AutoCache.Lib.Views
import AutoCache.Store.Logical

/-!
# What the calls of a store do to the live copies

Lazy expiry, the slot index and entries no read finds make two stores differ that show the same.
Here the calls are described by what they do to the live copies of the keys at the moment they
run: a *world* gives these for every key, and `Acts now π x f` says that the program `x` always
returns and takes the world at `now` as the function `f` says, which also gives its result (as far
as `π` tells it).
-/

namespace AutoCache

open AutoCache.Ring Cache Slot Function Option Object Finmap

namespace World

variable (w : World)

def setStr (key : Bytes) (str : Option Slot) : World :=
  update w key { w key with str := str }

def setObj (key : Bytes) (obj : Option Object) : World :=
  update w key { w key with obj := obj }

@[simp] lemma setStr_self (key : Bytes) : w.setStr key (w key).str = w := by
  simp [setStr]

@[simp] lemma setObj_self (key : Bytes) : w.setObj key (w key).obj = w := by
  simp [setObj]

variable {w} in
lemma setStr_of_eq {key : Bytes} {str : Option Slot} (h : (w key).str = str) : w.setStr key str = w := by
  rw [← h, setStr_self]

variable {w} in
lemma setObj_of_eq {key : Bytes} {obj : Option Object} (h : (w key).obj = obj) : w.setObj key obj = w := by
  rw [← h, setObj_self]

@[simp] lemma setStr_setStr (key : Bytes) (str str' : Option Slot) :
    (w.setStr key str).setStr key str' = w.setStr key str' := by
  simp [setStr]

@[simp] lemma setObj_setObj (key : Bytes) (obj obj' : Option Object) :
    (w.setObj key obj).setObj key obj' = w.setObj key obj' := by
  simp [setObj]

lemma setStr_apply (key k : Bytes) (str : Option Slot) :
    w.setStr key str k = if k = key then { w key with str := str } else w k := by
  simp [setStr, update_apply]

lemma setStr_key (key : Bytes) (str : Option Slot) : w.setStr key str key = ⟨str, (w key).obj⟩ := by
  simp [setStr]

lemma setObj_key (key : Bytes) (obj : Option Object) : w.setObj key obj key = ⟨(w key).str, obj⟩ := by
  simp [setObj]

lemma setObj_apply (key k : Bytes) (obj : Option Object) :
    w.setObj key obj k = if k = key then { w key with obj := obj } else w k := by
  simp [setObj, update_apply]

/-- What is still live at a later moment. -/
def later (t : Int) : World := fun key =>
  { str := (w key).str.filter (Slot.Live key t)
    obj := (w key).obj.filter (¬ expired · t) }

/-- Some copy of the key is live. -/
def has (key : Bytes) : Bool := (w key).str.isSome || (w key).obj.isSome

end World

lemma Slot.Live.mono {key : Bytes} {now t : Int} (h : now ≤ t) {slot : Slot}
    (hlive : Slot.Live key t slot) : Slot.Live key now slot := by
  cases slot with
  | counter n hn => trivial
  | entry e =>
    refine ⟨hlive.1, fun hexp => hlive.2 ⟨hexp.1, ?_⟩⟩
    have := hexp.2
    omega

lemma Object.expired.mono {now t : Int} (h : now ≤ t) {o : Object} (hexp : o.expired now) : o.expired t := by
  refine ⟨hexp.1, ?_⟩
  have := hexp.2
  omega

/-- A slot, unless it is already gone. -/
def freshSlot (key : Bytes) (now : Int) (slot : Slot) : Option Slot :=
  (some slot).filter (Slot.Live key now)

/-- An object, unless it is already gone. -/
def freshObject (now : Int) (o : Object) : Option Object :=
  (some o).filter (¬ expired · now)

/-- **Refinement.** From every store the program returns; its effect on the live copies and its
result, seen through `π`, are those of `f`. -/
def Acts {α β : Type} (now : Int) (π : α → β) (x : StoreM Cache α) (f : World → β × World) : Prop :=
  ∀ s, ∃ a s', x s = .ok (a, s') ∧ f (s.live now) = (π a, s'.live now)

namespace Acts

variable {α β γ δ : Type} {now : Int} {π : α → β} {ρ : γ → δ} {x : StoreM Cache α}
  {f : World → β × World}

lemma pure (a : α) : Acts now π (Pure.pure a) fun w => (π a, w) := Views.Simulates.pure a

lemma bind {y : α → StoreM Cache γ} {g : β → World → δ × World} (hx : Acts now π x f) (hy : ∀ a, Acts now ρ (y a) (g (π a))) :
    Acts now ρ (x >>= y) fun w => g (f w).1 (f w).2 := Views.Simulates.bind hx hy

lemma congr {g : World → β × World} (hx : Acts now π x f) (h : ∀ w, f w = g w) : Acts now π x g := Views.Simulates.congr hx h

lemma seq {π : α → Unit} {y : α → StoreM Cache γ} {e : World → World} {g : World → δ × World}
    (hx : Acts now π x fun w => ((), e w)) (hy : ∀ a, Acts now ρ (y a) g) :
    Acts now ρ (x >>= y) fun w => g (e w) := Views.Simulates.seq hx hy

lemma run {f : World → α × World} (hx : Acts now id x f) (s : Store Cache) :
    ∃ s', x s = .ok ((f (s.live now)).1, s') ∧ s'.live now = (f (s.live now)).2 :=
  Views.Simulates.run hx s

lemma of_run {s s' : Store Cache} {a : α} (hx : Acts now π x f) (h : x s = .ok (a, s')) :
    f (s.live now) = (π a, s'.live now) := by
  obtain ⟨b, t, hb, hf⟩ := hx s
  cases hb.symm.trans h
  exact hf

lemma map {γ : Type} (q : β → γ) (hx : Acts now π x f) : Acts now (q ∘ π) x fun w => (q (f w).1, (f w).2) := by
  intro s
  obtain ⟨a, s', hs, hf⟩ := hx s
  exact ⟨a, s', hs, by simp only [hf, comp]⟩

end Acts

namespace Store

variable (L : LogicalConfig) (key newkey value : Bytes) (ttl now : Int)

/-! ## Worlds of changed stores -/

section Worlds

variable {s : Store Cache} {now}

lemma live_later {t : Int} (h : now ≤ t) (s : Store Cache) : s.live t = (s.live now).later t := by
  funext key
  ext1
  · change _ = ((s.shards.lookup key).filter (Slot.Live key now)).filter (Slot.Live key t)
    rw [filter_filter]
    refine congrArg (Option.filter · _) (funext fun slot => ?_)
    by_cases hlive : Slot.Live key t slot
    · simp [hlive, hlive.mono h]
    · simp [hlive]
  · change _ = ((s.objects.lookup key).filter (¬ expired · now)).filter (¬ expired · t)
    rw [filter_filter]
    refine congrArg (Option.filter · _) (funext fun o => ?_)
    by_cases hexp : o.expired t
    · simp [hexp]
    · have hnow : ¬ o.expired now := fun hnow => hexp (hnow.mono h)
      simp [hexp, hnow]

lemma live_shards (c : Cache) (h : ∀ k, k ≠ key → c.lookup k = s.shards.lookup k) :
    ({ s with shards := c } : Store Cache).live now =
      (s.live now).setStr key ((c.lookup key).filter (Slot.Live key now)) := by
  funext k
  by_cases hk : k = key
  · subst hk
    simp only [World.setStr, update_self, live]
  · simp only [World.setStr, update_of_ne hk, live, h k hk]

lemma live_insert_slot (slot : Slot) : ({ s with shards := s.shards.insert key slot } : Store Cache).live now =
      (s.live now).setStr key (freshSlot key now slot) := by
  rw [live_shards key _ fun k hk => lookup_insert_of_ne _ hk, lookup_insert]
  rfl

lemma live_erase_slot : ({ s with shards := s.shards.erase key } : Store Cache).live now = (s.live now).setStr key none := by
  rw [live_shards key _ fun k hk => lookup_erase_ne hk, lookup_erase]
  rfl

lemma live_objects (m : GoMap Bytes Object) (h : ∀ k, k ≠ key → m.lookup k = s.objects.lookup k) :
    ({ s with objects := m } : Store Cache).live now = (s.live now).setObj key ((m.lookup key).filter (¬ expired · now)) := by
  funext k
  by_cases hk : k = key
  · subst hk
    simp only [World.setObj, update_self, live]
  · simp only [World.setObj, update_of_ne hk, live, h k hk]

lemma live_insert_object (o : Object) : ({ s with objects := s.objects.insert key o } : Store Cache).live now =
      (s.live now).setObj key (freshObject now o) := by
  rw [live_objects key _ fun k hk => lookup_insert_of_ne _ hk, lookup_insert]
  rfl

lemma live_erase_object : ({ s with objects := s.objects.erase key } : Store Cache).live now =
      (s.live now).setObj key none := by
  rw [live_objects key _ fun k hk => lookup_erase_ne hk, lookup_erase]
  rfl

/-- A store that holds at most one key. -/
def single (key : Bytes) (str : Option Slot) (obj : Option Object) : Store Cache where
  shards := str.elim ∅ fun slot => (∅ : Cache).insert key slot
  slotIndex := ∅
  objects := obj.elim ∅ fun o => (∅ : GoMap Bytes Object).insert key o

lemma live_single (str : Option Slot) (obj : Option Object) (k : Bytes) : (single key str obj).live now k =
      if k = key then ⟨str.filter (Slot.Live key now), obj.filter (¬ expired · now)⟩
      else ⟨none, none⟩ := by
  have hstr : (single key str obj).shards.lookup k = if k = key then str else none := by
    cases str with
    | none | some slot => simp [single]
  have hobj : (single key str obj).objects.lookup k = if k = key then obj else none := by
    cases obj with
    | none | some o => simp [single]
  unfold live
  rw [hstr, hobj]
  by_cases hk : k = key
  · simp only [hk, if_true]
  · simp only [hk, if_false, filter_none]

end Worlds

/-! ## Steps that do not show -/

section Quiet

variable {L key now}

lemma trackKey_acts : Acts now id (trackKey L.engine key) fun w => ((), w) := by
  intro s
  obtain ⟨index, hrun⟩ := trackKey_run L.engine key s
  exact ⟨(), _, hrun, rfl⟩

lemma untrackKey_acts : Acts now id (untrackKey L.engine key) fun w => ((), w) := by
  intro s
  obtain ⟨index, hrun⟩ := untrackKey_run L.engine key s
  exact ⟨(), _, hrun, rfl⟩

lemma trackAppended_acts {outcome : WriteOutcome} :
    Acts now id (trackAppended L.engine key outcome) fun w => (outcome, w) := by
  unfold trackAppended
  split
  · exact trackKey_acts.seq fun _ => Acts.pure outcome
  · exact Acts.pure outcome

lemma cacheGet_acts : Acts now id (cacheGet L.engine key now) fun w => ((w key).str.map text, w) := by
  intro s
  refine ⟨(Cache.get s.shards key now).2, { s with shards := (Cache.get s.shards key now).1 }, rfl, ?_⟩
  unfold Cache.get
  cases hl : s.shards.lookup key with
  | none => simp [live, hl]
  | some slot =>
    cases slot with
    | counter n h =>
      have hlive : Slot.Live key now (.counter n h) := trivial
      simp [live, hl, hlive, text]
    | entry e =>
      by_cases hr : Readable key
      · by_cases he : e.expired now
        · have hlive : ¬ Slot.Live key now (.entry e) := fun h => h.2 he
          have hgone : (s.live now key).str = none := by simp [live, hl, hlive]
          simp only [hr, he, not_true_eq_false, if_false, if_true, hgone, live_erase_slot, World.setStr_of_eq hgone]
          rfl
        · have hlive : Slot.Live key now (.entry e) := ⟨hr, he⟩
          simp [live, hl, hlive, hr, he, text]
      · have hlive : ¬ Slot.Live key now (.entry e) := fun h => hr h.1
        simp [live, hl, hlive, hr]

lemma cacheExists_acts : Acts now id (cacheExists L.engine key now) fun w => ((w key).str.isSome, w) := by
  refine (Acts.bind (g := fun v w => (v.isSome, w)) cacheGet_acts fun value => Acts.pure value.isSome).congr fun w => ?_
  simp

lemma objectGet_acts : Acts now id (objectGet (σ := Cache) key now) fun w => ((w key).obj, w) := by
  intro s
  unfold objectGet
  cases hl : s.objects.lookup key with
  | none => exact ⟨none, s, rfl, by simp [live, hl]⟩
  | some o =>
    by_cases he : o.expired now
    · refine ⟨none, { s with objects := s.objects.erase key }, by simp [he], ?_⟩
      have hgone : (s.live now key).obj = none := by simp [live, hl, he]
      simp only [hgone, live_erase_object, World.setObj_of_eq hgone, id]
    · exact ⟨some o, s, by simp [he], by simp [live, hl, he]⟩

lemma getObjectValue_acts : Acts now id (getObjectValue (σ := Cache) key now) fun w => ((w key).obj.map Object.value, w) :=
  Acts.bind (g := fun o w => (o.map value, w)) objectGet_acts fun o => Acts.pure (o.map value)

lemma hasObjectKey_acts : Acts now id (hasObjectKey (σ := Cache) key now) fun w => ((w key).obj.isSome, w) := by
  refine (Acts.bind (g := fun v w => (v.isSome, w)) getObjectValue_acts fun value => Acts.pure value.isSome).congr fun w => ?_
  simp

end Quiet

end Store

/-! ## Writes -/

/-- The live entry that makes `SetNX` refuse. -/
def holdsNX (now : Int) : Option Slot → Bool
  | some (.entry e) => decide (e.expireAt = 0 ∨ now ≤ e.expireAt.toInt)
  | _ => false

/-- The live entry that `SetXX` and `Expire` ask for. -/
def holdsXX : Option Slot → Bool
  | some (.entry _) => true
  | _ => false

namespace World

variable (w : World) (size : RingSize) (key newkey value : Bytes) (ttl now : Int)

/-- The error of an entry that does not fit. -/
def tooLarge : StoreError := .ring .entryTooLarge

/-- A string is written: the object copy stays. -/
def putStr : World := w.setStr key (freshSlot key now (.entry (writtenEntry value ttl now)))

/-- A failed `Set` has removed a counter. -/
def set : Except StoreError Unit × World :=
  if TooLarge size key value then
    (.error tooLarge, w.setStr key ((w key).str.filter (!·.isCounter)))
  else (.ok (), w.putStr key value ttl now)

def cacheSetNX : Except StoreError Bool × World :=
  if holdsNX now (w key).str then (.ok false, w)
  else if TooLarge size key value then (.error tooLarge, w)
  else (.ok true, w.putStr key value ttl now)

def cacheSetXX : Except StoreError Bool × World :=
  if holdsXX (w key).str then
    if TooLarge size key value then (.error tooLarge, w)
    else (.ok true, w.putStr key value ttl now)
  else (.ok false, w)

def cacheExpire : Bool × World :=
  match (w key).str with
  | some (.entry e) =>
    (true, w.setStr key (freshSlot key now (.entry { e with expireAt := deadline ttl now })))
  | _ => (false, w)

def objectExpire : Bool × World :=
  match (w key).obj with
  | some o => (true, w.setObj key (freshObject now { o with expireAt := objectDeadline ttl now }))
  | none => (false, w)

def objectPut (v : TypedValue) : World :=
  match (w key).obj with
  | some o => w.setObj key (freshObject now { o with value := v })
  | none => w

end World

namespace Store

section Writes

variable {L : LogicalConfig} {key value : Bytes} {ttl now : Int} {s : Store Cache}

lemma lookup_of_live {slot : Slot} (h : (s.live now key).str = some slot) :
    s.shards.lookup key = some slot ∧ Slot.Live key now slot := by
  simp only [live, filter_eq_some_iff, decide_eq_true_eq] at h
  exact h

lemma live_str_of_lookup {slot : Slot} (h : s.shards.lookup key = some slot) :
    (s.live now key).str = freshSlot key now slot := by
  simp only [live, h, freshSlot]

lemma live_str_of_none (h : s.shards.lookup key = none) : (s.live now key).str = none := by
  simp only [live, h, filter_none]

lemma freshSlot_counter {n : ℕ} {h : n < 2 ^ 63} : freshSlot key now (.counter n h) = some (.counter n h) := by
  have hlive : Slot.Live key now (.counter n h) := trivial
  simp [freshSlot, hlive]

lemma freshSlot_entry {e : Entry} : freshSlot key now (.entry e) = if Readable key ∧ ¬ e.expired now then some (.entry e)
      else none := by
  by_cases h : Readable key ∧ ¬ e.expired now
  · have hlive : Slot.Live key now (.entry e) := h
    simp [freshSlot, hlive, h]
  · have hlive : ¬ Slot.Live key now (.entry e) := h
    rw [if_neg h]
    simp [freshSlot, hlive]

lemma deadline_toInt (ttl now : Int) : (deadline ttl now).toInt = objectDeadline ttl now := by
  unfold deadline objectDeadline wrap64
  split
  · rw [Int64.toInt_ofInt, Int.bmod_def]
    norm_num
    omega
  · rfl

lemma deadline_zero : deadline 0 now = 0 := rfl

lemma freshSlot_written_zero : freshSlot key now (.entry (writtenEntry value 0 now)) =
      if Readable key then some (.entry (writtenEntry value 0 now)) else none := by
  have hexp : ¬ (writtenEntry value 0 now).expired now := fun h => by
    have := h.1
    simp [writtenEntry, deadline_zero] at this
  rw [freshSlot_entry]
  simp [hexp]

lemma holdsForNX_iff : HoldsForNX s.shards key now ↔ holdsNX now (s.live now key).str = true := by
  cases hl : s.shards.lookup key with
  | none => simp [HoldsForNX, hl, live_str_of_none hl, holdsNX]
  | some slot =>
    rw [live_str_of_lookup hl]
    cases slot with
    | counter n h => simp [HoldsForNX, hl, freshSlot_counter, holdsNX]
    | entry e =>
      rw [freshSlot_entry]
      by_cases hr : Readable key
      · by_cases he : e.expired now
        · -- an expired entry has a positive deadline that is past
          have h0 : e.expireAt ≠ 0 := fun h => by
            have := he.1
            simp [h] at this
          have h1 : ¬ now ≤ e.expireAt.toInt := by
            have := he.2
            omega
          simp [HoldsForNX, hl, he, holdsNX, h0, h1]
        · simp [HoldsForNX, hl, hr, he, holdsNX]
      · simp [HoldsForNX, hl, hr, holdsNX]

lemma holdsForXX_iff : HoldsForXX s.shards key now ↔ holdsXX (s.live now key).str = true := by
  cases hl : s.shards.lookup key with
  | none => simp [HoldsForXX, hl, live_str_of_none hl, holdsXX]
  | some slot =>
    rw [live_str_of_lookup hl]
    cases slot with
    | counter n h => simp [HoldsForXX, hl, freshSlot_counter, holdsXX]
    | entry e =>
      rw [freshSlot_entry]
      split <;> rename_i h <;> simp [HoldsForXX, hl, h, holdsXX]

/-- An entry that fits over an old one is not too large: both parts of the old one are short. -/
lemma not_tooLarge_of_inPlace {e : Entry} (h : key.length + value.length ≤ key.length % 65536 + e.value.length) :
    ¬ TooLarge L.size key value := by
  have hmin := L.size.min_le
  have he := e.short
  simp only [TooLarge, headerSize, minRingBufferSize] at hmin ⊢
  omega

lemma not_tooLarge_of_short {size : RingSize} (hr : Readable key) (h : value.length < 65536) : ¬ TooLarge size key value := by
  have := size.min_le
  unfold Readable at hr
  simp only [TooLarge, headerSize, minRingBufferSize] at this ⊢
  omega

open World

lemma put_acts (s : Store Cache) : (if TooLarge L.size key value then (Except.error tooLarge, s.live now)
      else (.ok (), (s.live now).putStr key value ttl now)) =
    (writeError (put L.size s.shards key value ttl now).2,
      ({ s with shards := (put L.size s.shards key value ttl now).1 } : Store Cache).live now) := by
  unfold put
  split
  · rfl
  · rw [live_insert_slot]
    rfl

lemma onShards_set_acts : Acts now writeError (onShards fun c => L.engine.set c key value ttl now)
      fun w => w.set L.size key value ttl now := by
  intro s
  refine ⟨(Cache.set L.size s.shards key value ttl now).2,
    { s with shards := (Cache.set L.size s.shards key value ttl now).1 }, rfl, ?_⟩
  have hput := @put_acts L key value ttl now
  unfold Cache.set World.set
  cases hl : s.shards.lookup key with
  | none =>
    simp only [live_str_of_none hl, filter_none, setStr_of_eq (live_str_of_none hl)]
    exact hput s
  | some slot =>
    cases slot with
    | counter n h =>
      have hgone := hput { s with shards := s.shards.erase key }
      simp only [live_erase_slot, putStr, setStr_setStr] at hgone
      simp only [live_str_of_lookup hl, freshSlot_counter, filter_some, isCounter,
        Bool.not_true, Bool.false_eq_true, if_false, putStr]
      exact hgone
    | entry e =>
      have hkeep : ((s.live now key).str.filter fun slot => !slot.isCounter) = (s.live now key).str := by
        rw [live_str_of_lookup hl, freshSlot_entry]
        split <;> simp [isCounter]
      simp only [hkeep, setStr_self]
      by_cases hin : key.length + value.length ≤ key.length % 65536 + e.value.length
      · simp only [hin, if_true, if_neg (not_tooLarge_of_inPlace (L := L) hin), live_insert_slot]
        rfl
      · simp only [hin, if_false]
        exact hput s

open Acts

lemma tracked_acts {β : Type} {π : WriteOutcome → β} {x : StoreM Cache WriteOutcome}
    {f : World → β × World} (hx : Acts now π x f) :
    Acts now π (x >>= trackAppended L.engine key) f :=
  bind (g := fun b w => (b, w)) hx fun _ => trackAppended_acts.map π

lemma cacheSet_acts : Acts now writeError (cacheSet L.engine key value ttl now) fun w => w.set L.size key value ttl now :=
  tracked_acts onShards_set_acts

lemma cacheSetNX_acts : Acts now writeDone (cacheSetNX L.engine key value ttl now)
      fun w => w.cacheSetNX L.size key value ttl now := by
  refine tracked_acts fun s => ⟨(Cache.setNX L.size s.shards key value ttl now).2,
    { s with shards := (Cache.setNX L.size s.shards key value ttl now).1 }, rfl, ?_⟩
  simp only [Cache.setNX, World.cacheSetNX, holdsForNX_iff]
  split
  · rfl
  · simp only [put]
    split
    · rfl
    · rw [live_insert_slot]
      rfl

lemma cacheSetXX_acts : Acts now writeDone (cacheSetXX L.engine key value ttl now)
      fun w => w.cacheSetXX L.size key value ttl now := by
  refine fun s => ⟨(Cache.setXX L.size s.shards key value ttl now).2,
    { s with shards := (Cache.setXX L.size s.shards key value ttl now).1 }, rfl, ?_⟩
  simp only [Cache.setXX, World.cacheSetXX, holdsForXX_iff]
  split
  · simp only [put]
    split
    · rfl
    · rw [live_insert_slot]
      rfl
  · rfl

lemma cacheExpire_acts : Acts now id (cacheExpire L.engine key ttl now) fun w => w.cacheExpire key ttl now := by
  intro s
  refine ⟨(Cache.expire s.shards key ttl now).2, { s with shards := (Cache.expire s.shards key ttl now).1 }, rfl, ?_⟩
  dsimp only
  unfold Cache.expire World.cacheExpire
  cases hl : s.shards.lookup key with
  | none =>
    rw [live_str_of_none hl]
    rfl
  | some slot =>
    rw [live_str_of_lookup hl]
    cases slot with
    | counter n h =>
      rfl
    | entry e =>
      rw [freshSlot_entry]
      by_cases he : Readable key ∧ ¬ e.expired now
      · simp only [if_pos he, live_insert_slot]
        rfl
      · simp only [if_neg he]
        rfl

lemma cacheDelete_acts : Acts now (fun _ => ()) (cacheDelete L.engine key) fun w => ((), w.setStr key none) := by
  have hdelete : Acts now (fun _ : Bool => ()) (onShards fun c => (return L.engine.delete c key : Go (Cache × Bool)))
      fun w => ((), w.setStr key none) := by
    intro s
    refine ⟨(delete s.shards key).2, { s with shards := (delete s.shards key).1 }, rfl, ?_⟩
    unfold delete
    by_cases hk : key ∈ s.shards
    · simp only [hk, if_true, live_erase_slot]
    · simp only [hk, if_false, setStr_of_eq (live_str_of_none (lookup_eq_none.2 hk))]
  refine bind (g := fun _ w => ((), w)) hdelete fun deleted => ?_
  split
  · exact untrackKey_acts.seq fun _ => pure true
  · exact pure false

lemma objectDel_acts : Acts now (fun _ => ()) (objectDel (σ := Cache) key) fun w => ((), w.setObj key none) :=
  fun s => ⟨_, _, objectDel_run key s, by rw [live_erase_object]⟩

lemma deleteObjectKey_acts : Acts now (fun _ => ()) (deleteObjectKey L.engine key) fun w => ((), w.setObj key none) := by
  refine bind (g := fun _ w => ((), w)) objectDel_acts fun deleted => ?_
  split
  · exact untrackKey_acts.seq fun _ => pure true
  · exact pure false

lemma removeObjectKey_acts : Acts now id (removeObjectKey L.engine key) fun w => ((), w.setObj key none) :=
  deleteObjectKey_acts.seq fun _ => pure ()

lemma objectSetEntry_acts {o : Object} : Acts now id (objectSetEntry (σ := Cache) key o)
      fun w => ((), w.setObj key (freshObject now o)) :=
  fun s => ⟨(), { s with objects := s.objects.insert key o }, rfl, by rw [live_insert_object]⟩

lemma live_obj_of_lookup {o : Object} (h : s.objects.lookup key = some o) : (s.live now key).obj = freshObject now o := by
  simp only [live, h, freshObject]

lemma freshObject_eq {o : Object} : freshObject now o = if o.expired now then none else some o := by
  unfold freshObject
  split <;> simp [*]

lemma objectExpire_acts : Acts now id (objectExpire (σ := Cache) key ttl now) fun w => w.objectExpire key ttl now := by
  intro s
  unfold objectExpire World.objectExpire
  cases hl : s.objects.lookup key with
  | none => exact ⟨false, s, rfl, by simp [live, hl]⟩
  | some o =>
    by_cases he : o.expired now
    · refine ⟨false, s, by simp [he], ?_⟩
      simp only [live_obj_of_lookup hl, freshObject_eq, he, if_true, id]
    · refine ⟨true, _, by simp only [he, if_false]; rfl, ?_⟩
      simp only [live_obj_of_lookup hl, freshObject_eq, he, if_false, live_insert_object, id]

lemma objectPut_acts {v : TypedValue} : Acts now id (objectPut (σ := Cache) key v) fun w => ((), w.objectPut key now v) := by
  intro s
  unfold objectPut World.objectPut
  cases hl : s.objects.lookup key with
  | none => exact ⟨(), s, rfl, by simp [live, hl]⟩
  | some o =>
    refine ⟨(), _, rfl, ?_⟩
    by_cases he : o.expired now
    · have hput : ({ o with value := v } : Object).expired now := he
      have hgone : (s.live now key).obj = none := by rw [live_obj_of_lookup hl, freshObject_eq, if_pos he]
      simp only [hgone, live_insert_object, freshObject_eq, hput, if_true, setObj_of_eq hgone, id]
    · simp only [live_obj_of_lookup hl, live_insert_object, freshObject_eq, he, if_false, id]

end Writes

end Store

end AutoCache
