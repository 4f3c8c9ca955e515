import AutoCache.Tiered.Demoted

/-!
# Operations before and after a demotion

An operation is transparent for a key if it gives the same reply, and leaves the same entries for
`GetEntry`, whether or not the key was demoted before it. Operations that read, and those that delete
both copies before they write, always are. The others see only one tier, or what was behind the string.
-/

namespace AutoCache

open World Slot Cache Function

/-- The number that `Incr` finds in a slot. -/
def Slot.number : Slot → Option Int
  | .counter n _ => some n
  | .entry e => parseInt e.value

namespace Tiered

open Views

/-- `GetEntry` reports the same for every key. -/
def SameEntries (L : LogicalConfig) (now : Int) (s t : Tiers Cache) : Prop :=
  ∀ k, ∃ entry s' t', getEntry L.engine now k s = .ok (entry, s') ∧ getEntry L.engine now k t = .ok (entry, t')

/-- **Tier transparency** of an operation: with the same reply it leaves the same entries after
`demoteKey` as without it. -/
def Transparent {α : Type} (L : LogicalConfig) (now : Int) (key : Bytes) (x : TierM Cache α)
    (s : Tiers Cache) : Prop :=
  match x s, (demoteKey L.engine now key >>= fun _ => x) s with
  | .ok (a, t), .ok (b, u) => a = b ∧ SameEntries L now t u
  | .error f, .error g => f = g
  | _, _ => False

/-- The first value that `MSet` tries to write under a key. -/
def msetReaches (size : RingSize) (key : Bytes) : List Bytes → Option Bytes
  | k :: value :: pairs =>
    if k = key then some value
    else if TooLarge size k value then none
    else msetReaches size key pairs
  | _ => none

/-- When an operation is transparent for a key whose string is `slot`: a condition on what both tiers
show before. `(v.evict key).entry` is what `GetEntry` would report without the string. -/
def TransparentWhen (L : LogicalConfig) (now : Int) (key : Bytes) (slot : Slot) (v : TierView) :
    TierOp → Prop
  | .incr _ | .decr _ => slot.number = some 0
  | .setXX _ value ttl =>
    (if TooLarge L.size key value then slot.isCounter
      else freshSlot key now (.entry (writtenEntry value ttl now)) = none) →
    (v.evict key).entry now key = some (slot.shown now)
  | .mset pairs =>
    pairs.length % 2 = 0 → ∀ value ∈ msetReaches L.size key pairs,
      (if TooLarge L.size key value then slot.isCounter else ¬ Readable key) →
      (v.evict key).entry now key = some (slot.shown now)
  | .ttl _ => (slot.ttl now).elim (v.hiddenTTL now key = -1) (· ≠ 0)
  | .expire _ ttl => 0 < ttl ∧
    match slot with
    | .counter _ _ => (v.hot key).obj.isSome ∨ (v.warm key).isSome
    | .entry e =>
      match freshSlot key now (.entry { e with expireAt := deadline ttl now }) with
      | some later => later.reported now = (entry e).reported now
      | none => (v.evict key).entry now key = some ((entry e).shown now)
  | .persist _ => slot.isCounter ∧ (v.hot key).obj = none ∧ ∀ item ∈ v.warm key, item.expiresAt = none
  | .rename source target =>
    source = key → slot.ttl now = none → Readable target → ¬ TooLarge L.size target slot.text →
      (freshSlot target now (.entry (writtenEntry slot.text (v.hiddenTTL now key) now))).map
        (reported now) = some none
  | _ => True

/-! ## On views -/

/-- Two outcomes that a client cannot tell apart. -/
def Alike {α : Type} (now : Int) (p q : α × TierView) : Prop :=
  p.1 = q.1 ∧ ∀ k, p.2.entry now k = q.2.entry now k

section Views

variable {L : LogicalConfig} {now : Int} {key : Bytes} {s t : Tiers Cache} {slot : Slot}

lemma sameEntries_iff : SameEntries L now s t ↔ ∀ k, (s.view now).entry now k = (t.view now).entry now k := by
  refine forall_congr' fun k => ?_
  obtain ⟨s', hs, -⟩ := (@getEntry_simulates L now k).run s
  obtain ⟨t', ht, -⟩ := (@getEntry_simulates L now k).run t
  constructor
  · rintro ⟨entry, s'', t'', hs', ht'⟩
    rw [hs] at hs'
    rw [ht] at ht'
    exact (congrArg Prod.fst (Except.ok.inj hs')).trans (congrArg Prod.fst (Except.ok.inj ht')).symm
  · intro h
    refine ⟨_, s', t', hs, ?_⟩
    rw [ht, ← h]

lemma transparent_iff_of_runs {α : Type} {x : TierM Cache α} {p q : α × Tiers Cache}
    {u : Tiers Cache} {moved : Bool} (hdem : demoteKey L.engine now key s = .ok (moved, u))
    (hp : x s = .ok p) (hq : x u = .ok q) :
    Transparent L now key x s ↔ Alike now (p.1, p.2.view now) (q.1, q.2.view now) := by
  unfold Transparent
  rw [run_bind hdem, hp, hq]
  exact and_congr Iff.rfl sameEntries_iff

lemma transparent_iff_alike {α : Type} {x : TierM Cache α} {f : TierView → α × TierView}
    (hx : Simulates (Tiers.view now) id x f) (h : (s.hot.live now key).str = some slot) :
    Transparent L now key x s ↔ Alike now (f (s.view now)) (f ((s.view now).demoted now key slot)) := by
  obtain ⟨u, hdem, hview, -⟩ := @demoteKey_run L now key s slot h
  obtain ⟨s', hs, hview'⟩ := hx.run s
  obtain ⟨u', hu, hview''⟩ := hx.run u
  rw [transparent_iff_of_runs hdem hs hu, hview', hview'', hview]

lemma transparent_map {α β : Type} {x : TierM Cache α} {f : α → β} (hf : Injective f) :
    Transparent L now key (f <$> x) s ↔ Transparent L now key x s := by
  have hmap (t : Tiers Cache) : (f <$> x) t = (x t).map fun p => (f p.1, p.2) := rfl
  have hdemoted : (demoteKey L.engine now key >>= fun _ => f <$> x) s =
      ((demoteKey L.engine now key >>= fun _ => x) s).map fun p => (f p.1, p.2) := by
    change (demoteKey L.engine now key s >>= fun p => (f <$> x) p.2) = (demoteKey L.engine now key s >>= fun p => x p.2).map _
    cases demoteKey L.engine now key s <;> rfl
  unfold Transparent
  rw [hmap, hdemoted]
  cases x s <;> cases (demoteKey L.engine now key >>= fun _ => x) s <;> simp [Except.map, hf.eq_iff]

end Views

namespace TierView

/-- The string of a key in the hot tier is replaced. -/
def withStr (v : TierView) (key : Bytes) (str : Option Slot) : TierView := { v with hot := v.hot.setStr key str }

def withItem (v : TierView) (key : Bytes) (item : Option Item) : TierView :=
  { v with warm := update v.warm key item }

end TierView

section Operations

variable {L : LogicalConfig} {now : Int} {key value : Bytes} {v : TierView} {slot : Slot}

lemma Alike.of_entries {α : Type} {a : α} {w : TierView} (h : ∀ k, w.entry now k = v.entry now k) :
    Alike now (a, v) (a, w) := ⟨rfl, fun k => (h k).symm⟩

open TierView

lemma mgetBytes_congr {w : TierView} (h : ∀ k, w.get k = v.get k) (keys : List Bytes) :
    w.mgetBytes keys = v.mgetBytes keys := by
  induction keys with
  | nil => rfl
  | cons k keys ih => simp only [TierView.mgetBytes, h, ih]

lemma alike_rewrite {α : Type} (h : (v.hot key).str = some slot) (next : Option Bytes → Except TierError (Bytes × α)) :
    Alike now (v.rewrite now key L.size next) ((v.demoted now key slot).rewrite now key L.size next) := by
  unfold TierView.rewrite
  rw [demoted_get h, get_hot h, demoted_del (List.mem_singleton_self key)]
  dsimp only
  rcases next (some slot.text) with e | ⟨value, reply⟩
  · exact .of_entries (demoted_entry h)
  · exact ⟨rfl, fun _ => rfl⟩

lemma alike_setNX (h : (v.hot key).str = some slot) {ttl : Int} :
    Alike now (v.setNX now key L.size value ttl) ((v.demoted now key slot).setNX now key L.size value ttl) := by
  unfold TierView.setNX
  rw [demoted_entry h, entry_of_str h]
  exact .of_entries (demoted_entry h)

/-! ### Writes that see one tier -/

section OneTier

variable {α : Type} {a b : α} {p q : TierView} {str str' : Option Slot}

/-- What `GetEntry` reports when the string of the key is replaced. -/
lemma entry_replaced (hhot : p.hot key = ⟨str, (v.hot key).obj⟩) (hwarm : p.warm = v.warm) :
    p.entry now key = str.elim ((v.evict key).entry now key) fun slot => some (slot.shown now) := by
  cases str with
  | none => exact entry_congr (by simp [TierView.evict, hhot, setStr_apply]) (congrFun hwarm key)
  | some slot => exact entry_of_str (by rw [hhot])

/-- What `GetEntry` reports when a string is written after the demotion. -/
lemma entry_rewritten (hhot : p.hot key = ⟨str, none⟩) (hwarm : p.warm = (v.demoted now key slot).warm) :
    p.entry now key = str.elim (some (slot.shown now)) fun slot => some (slot.shown now) := by
  cases str with
  | none =>
    rw [entry_cold hhot, hwarm, demoted_warm]
    rfl
  | some slot => exact entry_of_str (by rw [hhot])

lemma alike_iff_key (hoff : ∀ k, k ≠ key → q.hot k = p.hot k ∧ q.warm k = p.warm k) :
    Alike now (a, p) (b, q) ↔ a = b ∧ p.entry now key = q.entry now key := by
  refine and_congr Iff.rfl ⟨fun h => h key, fun h k => ?_⟩
  by_cases hk : k = key
  · rw [hk, h]
  · exact (entry_congr (hoff k hk).1 (hoff k hk).2).symm

lemma alike_iff_hot (hp : p.hot key = ⟨str, (v.hot key).obj⟩) (hpwarm : p.warm = v.warm)
    (hq : q.hot key = ⟨str', none⟩) (hqwarm : q.warm = (v.demoted now key slot).warm)
    (hoff : ∀ k, k ≠ key → q.hot k = p.hot k) :
    Alike now (a, p) (b, q) ↔ a = b ∧ str.elim ((v.evict key).entry now key) (fun slot => some (slot.shown now)) =
        str'.elim (some (slot.shown now)) fun slot => some (slot.shown now) := by
  rw [← entry_replaced hp hpwarm, ← entry_rewritten hq hqwarm]
  refine alike_iff_key fun k hk => ⟨hoff k hk, ?_⟩
  rw [hpwarm, hqwarm, demoted_warm_of_ne hk]

lemma entry_withStr : (v.withStr key str).entry now key =
    str.elim ((v.evict key).entry now key) fun slot => some (slot.shown now) :=
  entry_replaced (by simp [withStr, setStr_apply]) rfl

lemma alike_withStr : Alike now (a, v.withStr key str) (b, (v.demoted now key slot).withStr key str') ↔
    a = b ∧ str.elim ((v.evict key).entry now key) (fun slot => some (slot.shown now)) =
      str'.elim (some (slot.shown now)) fun slot => some (slot.shown now) := by
  refine alike_iff_hot ?_ rfl ?_ rfl fun k hk => ?_
  · simp [withStr, setStr_apply]
  · simp [withStr, setStr_apply, demoted_hot, KeyState.gone]
  · simp [withStr, setStr_apply, hk, demoted_hot_of_ne hk]

lemma alike_withItem {item : Option Item} (hoff : ∀ k, k ≠ key → p.hot k = v.hot k ∧ p.warm k = v.warm k) :
    Alike now (a, p) (b, (v.demoted now key slot).withItem key item) ↔ a = b ∧ p.entry now key = item.map Item.entry := by
  have hhot (k : Bytes) (hk : k ≠ key) : ((v.demoted now key slot).withItem key item).hot k = p.hot k :=
    (@demoted_hot_of_ne v now key slot k hk).trans (hoff k hk).1.symm
  have hwarm (k : Bytes) (hk : k ≠ key) : ((v.demoted now key slot).withItem key item).warm k = p.warm k := by
    simp [withItem, hk, demoted_warm_of_ne hk, (hoff k hk).2]
  have hgone : ((v.demoted now key slot).withItem key item).hot key = .gone := @demoted_hot v now key slot
  rw [alike_iff_key fun k hk => ⟨hhot k hk, hwarm k hk⟩, entry_cold hgone]
  simp [withItem]

end OneTier

lemma alike_setXX (h : (v.hot key).str = some slot) {ttl : Int} :
    Alike now (v.setXX now key L.size value ttl) ((v.demoted now key slot).setXX now key L.size value ttl) ↔
      TransparentWhen L now key slot v (.setXX key value ttl) := by
  unfold TierView.setXX TransparentWhen
  rw [demoted_entry h, entry_of_str h]
  simp only [Option.isSome_some, if_true, TierView.set, World.set, demoted_hot, h]
  by_cases hlarge : TooLarge L.size key value
  · simp only [if_pos hlarge]
    refine alike_withStr.trans ?_
    cases hctr : slot.isCounter <;> simp [Option.filter, hctr, KeyState.gone]
  · simp only [if_neg hlarge, World.putStr]
    refine alike_withStr.trans ?_
    cases freshSlot key now (.entry (writtenEntry value ttl now)) <;> simp

lemma wrap64_add_eq_iff {n delta : Int} (hmin : -2 ^ 63 ≤ n) (hmax : n < 2 ^ 63)
    (hdelta : delta = 1 ∨ delta = -1) : wrap64 (n + delta) = delta ↔ n = 0 := by
  unfold wrap64
  omega

lemma Slot.number_range {n : Int} (h : slot.number = some n) : -2 ^ 63 ≤ n ∧ n < 2 ^ 63 := by
  cases slot with
  | counter k hk =>
    cases h
    omega
  | entry e => exact parseInt_range h

lemma hotIncrBy_eq (h : (v.hot key).str = some slot) {delta : Int} : v.incrBy key delta = match slot.number with
      | none => (.error (.hot .notInteger), v)
      | some n =>
        (.ok (wrap64 (n + delta)), v.withStr key (some (counterSlot (wrap64 (n + delta))))) := by
  unfold TierView.incrBy World.incrBy
  rw [h]
  cases slot with
  | counter n hn => rfl
  | entry e =>
    dsimp only [number]
    cases parseInt e.value <;> rfl

lemma alike_incr (h : (v.hot key).str = some slot) {delta : Int} (hdelta : delta = 1 ∨ delta = -1) :
    Alike now (v.incrBy key delta) ((v.demoted now key slot).incrBy key delta) ↔ slot.number = some 0 := by
  have hcold : (v.demoted now key slot).incrBy key delta =
      (.ok delta, (v.demoted now key slot).withStr key (some (counterSlot delta))) := by
    simp only [TierView.incrBy, World.incrBy, demoted_hot, KeyState.gone]
    rfl
  rw [hotIncrBy_eq h, hcold]
  cases hnumber : slot.number with
  | none => simp [Alike]
  | some n =>
    obtain ⟨hmin, hmax⟩ := Slot.number_range hnumber
    rw [alike_withStr, Except.ok.injEq, wrap64_add_eq_iff hmin hmax hdelta, Option.some.injEq]
    refine ⟨And.left, fun hzero => ⟨hzero, ?_⟩⟩
    have hwrap : wrap64 (n + delta) = delta := (wrap64_add_eq_iff hmin hmax hdelta).2 hzero
    rw [hwrap]
    rfl

/-! ### `MSet` -/

section MSet

variable {size : RingSize}

/-- What `MSet` makes of the string of a key. -/
def msetStr (size : RingSize) (key : Bytes) : List Bytes → Option Slot → Option Slot
  | k :: value :: pairs, str =>
    if TooLarge size k value then if k = key then str.filter (!·.isCounter) else str
    else if k = key then msetStr size key pairs (if Readable key then some (plain value) else none)
    else msetStr size key pairs str
  | _, str => str

lemma mset_apply (w : World) (k : Bytes) (pairs : List Bytes) :
    (w.mset size now pairs).2 k = ⟨msetStr size k pairs (w k).str, (w k).obj⟩ := by
  induction pairs using List.twoStepInduction generalizing w with
  | nil | singleton => rfl
  | cons_cons key value pairs ih =>
    unfold World.mset msetStr
    by_cases hlarge : TooLarge size key value
    · simp only [World.set, if_pos hlarge, World.setStr_apply]
      by_cases hk : k = key
      · simp [hk]
      · simp [hk, Ne.symm hk]
    · rw [set_of_fits hlarge]
      simp only [if_neg hlarge]
      rw [ih, setStr_apply]
      by_cases hk : k = key
      · simp [hk]
      · simp [hk, Ne.symm hk]

lemma mset_reply (w w' : World) (pairs : List Bytes) : (w.mset size now pairs).1 = (w'.mset size now pairs).1 := by
  induction pairs using List.twoStepInduction generalizing w w' with
  | nil | singleton => rfl
  | cons_cons key value pairs ih =>
    unfold World.mset World.set
    by_cases hlarge : TooLarge size key value
    · simp only [if_pos hlarge]
    · simp only [if_neg hlarge]
      exact ih _ _

lemma msetStr_of_not_reached {str : Option Slot} : ∀ pairs : List Bytes,
    msetReaches size key pairs = none → msetStr size key pairs str = str
  | [], _ => rfl
  | [_], _ => rfl
  | k :: value :: pairs, h => by
    unfold msetReaches at h
    unfold msetStr
    by_cases hk : k = key
    · simp [hk] at h
    · rw [if_neg hk] at h
      by_cases hlarge : TooLarge size k value
      · simp [hlarge, hk]
      · rw [if_neg hlarge] at h
        simp only [if_neg hlarge, if_neg hk]
        exact msetStr_of_not_reached pairs h

lemma msetStr_of_tooLarge {str : Option Slot} (hlarge : TooLarge size key value) :
    ∀ pairs : List Bytes, msetReaches size key pairs = some value → msetStr size key pairs str = str.filter (!·.isCounter)
  | [], h => by cases h
  | [_], h => by cases h
  | k :: x :: pairs, h => by
    unfold msetReaches at h
    unfold msetStr
    by_cases hk : k = key
    · rw [if_pos hk] at h
      cases h
      simp [hk, hlarge]
    · rw [if_neg hk] at h
      by_cases hx : TooLarge size k x
      · rw [if_pos hx] at h
        cases h
      · rw [if_neg hx] at h
        simp only [if_neg hx, if_neg hk]
        exact msetStr_of_tooLarge hlarge pairs h

lemma msetStr_plain (hr : Readable key) : ∀ (pairs : List Bytes) (x : Bytes),
    ∃ y, msetStr size key pairs (some (plain x)) = some (plain y)
  | [], x => ⟨x, rfl⟩
  | [_], x => ⟨x, rfl⟩
  | k :: value :: pairs, x => by
    unfold msetStr
    split
    · split
      · exact ⟨x, rfl⟩
      · exact ⟨x, rfl⟩
    · split
      · exact msetStr_plain hr pairs value
      · exact msetStr_plain hr pairs x

lemma msetStr_unreadable (hr : ¬ Readable key) (pairs : List Bytes) : msetStr size key pairs none = none := by
  induction pairs using List.twoStepInduction with
  | nil | singleton => rfl
  | cons_cons k value pairs ih =>
    unfold msetStr
    split
    · split <;> rfl
    · rw [ih, ite_self]

lemma msetStr_of_fits (hfits : ¬ TooLarge size key value) : ∀ pairs : List Bytes, msetReaches size key pairs = some value →
      ∃ str', (str' = none ↔ ¬ Readable key) ∧ ∀ str, msetStr size key pairs str = str'
  | [], h => by cases h
  | [_], h => by cases h
  | k :: x :: pairs, h => by
    unfold msetReaches at h
    unfold msetStr
    by_cases hk : k = key
    · rw [if_pos hk] at h
      cases h
      simp only [hk, if_neg hfits, if_true]
      by_cases hr : Readable key
      · obtain ⟨y, hy⟩ := @msetStr_plain key size hr pairs value
        exact ⟨some (plain y), by simp [hr], fun _ => by rw [if_pos hr, hy]⟩
      · exact ⟨none, by simp [hr], fun _ => by rw [if_neg hr, msetStr_unreadable hr]⟩
    · rw [if_neg hk] at h
      by_cases hx : TooLarge size k x
      · rw [if_pos hx] at h
        cases h
      · rw [if_neg hx] at h
        simp only [if_neg hx, if_neg hk]
        exact msetStr_of_fits hfits pairs h

end MSet

lemma alike_mset (h : (v.hot key).str = some slot) {pairs : List Bytes} :
    Alike now (v.mset now L.size pairs) ((v.demoted now key slot).mset now L.size pairs) ↔
      TransparentWhen L now key slot v (.mset pairs) := by
  unfold TierView.mset
  by_cases hodd : pairs.length % 2 = 0
  · simp only [hodd, ne_eq, not_true, if_false]
    have hcold : ((v.demoted now key slot).hot.mset L.size now pairs).2 key = ⟨msetStr L.size key pairs none, none⟩ := by
      rw [mset_apply, demoted_hot]
      rfl
    rw [mset_reply v.hot (v.demoted now key slot).hot, alike_iff_hot (p := ⟨(v.hot.mset L.size now pairs).2, v.warm⟩)
        (q := ⟨((v.demoted now key slot).hot.mset L.size now pairs).2, (v.demoted now key slot).warm⟩)
        (mset_apply v.hot key pairs) rfl hcold rfl
        fun k hk => by simp only [mset_apply, demoted_hot_of_ne hk], h]
    simp only [true_and, TransparentWhen, hodd, forall_const]
    cases hreach : msetReaches L.size key pairs with
    | none => simp [msetStr_of_not_reached pairs hreach]
    | some value =>
      simp only [Option.mem_def, Option.some.injEq, forall_eq']
      by_cases hlarge : TooLarge L.size key value
      · simp only [msetStr_of_tooLarge hlarge pairs hreach, if_pos hlarge]
        cases hctr : slot.isCounter <;> simp [Option.filter, hctr]
      · obtain ⟨str', hnone, hstr⟩ := msetStr_of_fits hlarge pairs hreach
        simp only [hstr, if_neg hlarge, ← hnone]
        cases str' <;> simp
  · simp only [TransparentWhen, ne_eq, hodd, not_false_iff, if_true, IsEmpty.forall_iff, iff_true]
    exact .of_entries (demoted_entry h)

/-! ### Deadlines -/

section Deadlines

variable {n : ℕ} {hn : n < 2 ^ 63} {e : Entry} {ttl : Int}

lemma expire_demoted : (v.demoted now key slot).expire now key ttl = (true, (v.demoted now key slot).withItem key
      (if 0 < ttl then some ⟨slot.shown now, some (now + ttl)⟩ else none)) := by
  simp only [TierView.expire, World.expire, World.cacheExpire, World.objectExpire, demoted_hot, KeyState.gone,
    seenExpire, demoted_warm]
  rfl

lemma persist_demoted : (v.demoted now key slot).persist now key =
    ((slot.reported now).isSome, (v.demoted now key slot).withItem key (some ⟨slot.shown now, none⟩)) := by
  simp only [TierView.persist, World.expire, World.cacheExpire, World.objectExpire, demoted_hot,
    KeyState.gone, seenPersist, demoted_warm]
  rfl

lemma expire_entry (h : (v.hot key).str = some (.entry e)) : v.expire now key ttl =
    (true, v.withStr key (freshSlot key now (.entry { e with expireAt := deadline ttl now }))) := by
  simp only [TierView.expire, World.expire, World.cacheExpire, h, if_true, TierView.withStr]

lemma persist_entry (h : (v.hot key).str = some (.entry e)) : v.persist now key =
    (true, v.withStr key (freshSlot key now (.entry { e with expireAt := deadline 0 now }))) := by
  simp only [TierView.persist, World.expire, World.cacheExpire, h, if_true, TierView.withStr]

/-- `Expire` and `Persist` on a counter; `seen` is what they do to the warm tier. -/
lemma deadline_counter (h : (v.hot key).str = some (.counter n hn)) {seen : Bool × (Bytes → Option Item)}
    (hseen : ∀ k, k ≠ key → seen.2 k = v.warm k) :
    ∃ p : TierView, (match v.hot.expire key ttl now with
        | (true, hot) => (true, { v with hot })
        | (false, hot) => (seen.1, ⟨hot, seen.2⟩)) = ((v.hot key).obj.isSome || seen.1, p) ∧
      (p.hot key).str = some (.counter n hn) ∧ ∀ k, k ≠ key → p.hot k = v.hot k ∧ p.warm k = v.warm k := by
  simp only [World.expire, World.cacheExpire, World.objectExpire, h]
  cases (v.hot key).obj with
  | some o => exact ⟨_, rfl, by simp [World.setObj_apply, h], fun k hk => by simp [World.setObj_apply, hk]⟩
  | none => exact ⟨_, rfl, h, fun k hk => ⟨rfl, hseen k hk⟩⟩

lemma freshSlot_persisted (hlive : Live key now (.entry e)) (httl : ¬ 0 < ttl) :
    freshSlot key now (.entry { e with expireAt := deadline ttl now }) = some (.entry { e with expireAt := 0 }) := by
  have hzero : deadline ttl now = 0 := if_neg httl
  have hfresh : Readable key ∧ ¬ Entry.expired { e with expireAt := 0 } now :=
    ⟨hlive.1, fun hexp => by simp [Entry.expired] at hexp⟩
  rw [hzero, Store.freshSlot_entry, if_pos hfresh]

lemma withStr_of_ne {str : Option Slot} (k : Bytes) (hk : k ≠ key) :
    (v.withStr key str).hot k = v.hot k ∧ (v.withStr key str).warm k = v.warm k :=
  ⟨by simp [withStr, setStr_apply, hk], rfl⟩

lemma alike_expire (h : (v.hot key).str = some slot) (hlive : Live key now slot) :
    Alike now (v.expire now key ttl) ((v.demoted now key slot).expire now key ttl) ↔
      TransparentWhen L now key slot v (.expire key ttl) := by
  rw [expire_demoted]
  cases slot with
  | counter n hn =>
    have hseen (k : Bytes) (hk : k ≠ key) : (seenExpire now key ttl v.warm).2 k = v.warm k := by
      unfold seenExpire
      cases v.warm key <;> simp [hk]
    obtain ⟨p, hp, hstr, hkeep⟩ := deadline_counter h hseen
    rw [show v.expire now key ttl = _ from hp, alike_withItem hkeep, entry_of_str hstr]
    by_cases httl : 0 < ttl <;> cases hi : v.warm key <;> simp [TransparentWhen, httl, seenExpire, hi]
  | entry e =>
    rw [expire_entry h, alike_withItem withStr_of_ne, entry_withStr]
    by_cases httl : 0 < ttl
    · simp only [TransparentWhen, httl, true_and, if_true, Option.map_some]
      rw [Store.freshSlot_entry]
      split <;> simp [shown, text]
    · simp [TransparentWhen, httl, freshSlot_persisted hlive httl]

lemma alike_persist (h : (v.hot key).str = some slot) (hlive : Live key now slot) :
    Alike now (v.persist now key) ((v.demoted now key slot).persist now key) ↔
      TransparentWhen L now key slot v (.persist key) := by
  rw [persist_demoted]
  cases slot with
  | counter n hn =>
    have hseen (k : Bytes) (hk : k ≠ key) : (seenPersist key v.warm).2 k = v.warm k := by
      unfold seenPersist
      cases v.warm key <;> simp [hk]
    obtain ⟨p, hp, hstr, hkeep⟩ := deadline_counter h hseen
    rw [show v.persist now key = _ from hp, alike_withItem hkeep, entry_of_str hstr, TransparentWhen]
    cases (v.hot key).obj <;> cases hi : v.warm key <;> simp [Slot.reported, Slot.ttl, Slot.isCounter, seenPersist, hi]
  | entry e =>
    rw [persist_entry h, alike_withItem withStr_of_ne, entry_withStr, freshSlot_persisted hlive (lt_irrefl 0)]
    simp only [TransparentWhen, isCounter, Bool.false_eq_true, false_and, iff_false, not_and]
    intro hreply hent
    -- the reply tells of a deadline, the entry of none
    have hreported : (entry e).reported now = none := by
      have := congrArg EngineEntry.expireAt (Option.some.inj hent)
      simpa [Slot.shown, Slot.reported, Slot.ttl] using this.symm
    simp [hreported] at hreply

end Deadlines

end Operations

end Tiered

end AutoCache
