import AutoCache.Store.Lasting
import AutoCache.Tiered.Adapter

/-!
# What a demotion changes

The tiers after the demotion of a key with a live string: reads and `GetEntry` find the same for every
key, and once the key is deleted nothing tells the two apart. What was behind the string, an object in the
hot tier or an older copy in the warm tier, is gone. So is a time to live of zero: the item has no
deadline.
-/

namespace AutoCache

open Store Slot Function Option

/-- The deadline that `GetEntry` reports for a string. -/
def Slot.reported (now : Int) (slot : Slot) : Option Int :=
  (slot.ttl now).bind fun ttl => if ttl > 0 then some (now + ttl) else none

lemma Slot.ttl_range {slot : Slot} {now t : Int} (h : slot.ttl now = some t) : -1 ≤ t ∧ t < 2 ^ 63 := by
  cases slot with
  | counter n hn =>
    cases h
    decide
  | entry e =>
    simp only [ttl] at h
    split at h
    · cases h
      decide
    split at h
    · cases h
    · next hnonneg =>
      obtain rfl := some.inj h
      constructor
      · omega
      · unfold wrap64
        omega

lemma Object.ttl_ge {o : Object} {now t : Int} (h : o.ttl now = some t) : -1 ≤ t := by
  simp only [Object.ttl] at h
  split at h
  · cases h
    decide
  · split at h
    · cases h
    · obtain rfl := some.inj h
      omega

/-- What `GetEntry` reports for a string. -/
def Slot.shown (now : Int) (slot : Slot) : Tiered.EngineEntry := ⟨.string slot.text, slot.reported now⟩

namespace Tiered

open Views

/-- The time an item has left, as `TTL` tells it. -/
def Item.ttl (now : Int) (item : Item) : Option Int :=
  match item.expiresAt with
  | none => some (-1)
  | some t => if Store.timeUntil t now < 0 then none else some (Store.timeUntil t now)

lemma Warm.ttl_eq {warm : Warm} {key : Bytes} {now : Int} : warm.ttl key now = (warm.seen now key).bind (Item.ttl now) := by
  unfold Warm.ttl Warm.seen
  cases warm.txnGet key now <;> rfl

namespace TierView

variable (v : TierView) (now : Int) (key : Bytes)

/-- The time to live of what is behind the string of a key. -/
def hiddenTTL : Int :=
  (((v.hot key).obj.bind (Object.ttl now)).or ((v.warm key).bind (Item.ttl now))).getD (-2000000000)

/-- The tiers after the demotion of a string. -/
def demoted (slot : Slot) : TierView where
  hot := v.hot.del [key]
  warm := update v.warm key
    (some ⟨slot.shown now, slot.reported now⟩)

end TierView

section Demoted

variable {v : TierView} {now : Int} {key : Bytes} {slot : Slot}

lemma entry_of_str (h : (v.hot key).str = some slot) : v.entry now key = some (slot.shown now) := by
  simp [TierView.entry, World.engineEntry, h, Slot.shown, reported]

lemma entry_congr {w : TierView} (hhot : w.hot key = v.hot key) (hwarm : w.warm key = v.warm key) :
    w.entry now key = v.entry now key := by
  simp only [TierView.entry, World.engineEntry, hhot, hwarm]

lemma deadline_reported : Warm.deadline (entryTTL now (slot.shown now)) now = slot.reported now := by
  unfold Slot.shown reported
  cases h : slot.ttl now with
  | none => rfl
  | some t =>
    have hmax := (ttl_range h).2
    by_cases ht : t > 0
    · have huntil : timeUntil (now + t) now = t := by
        unfold timeUntil
        omega
      simp only [bind_some, if_pos ht, entryTTL, huntil, Warm.deadline, max_eq_right (le_of_lt ht)]
    · simp [ht, entryTTL, Warm.deadline]

lemma shown_not_due : ¬ ∃ t ∈ (slot.shown now).expireAt, Store.timeUntil t now ≤ 0 := by
  rintro ⟨t, ht, hdue⟩
  simp only [Slot.shown, reported] at ht
  cases h : slot.ttl now with
  | none => simp [h] at ht
  | some r =>
    rw [h, bind_some] at ht
    split at ht
    · obtain rfl := some.inj ht
      unfold timeUntil at hdue
      omega
    · cases ht

lemma demote_of_str (h : (v.hot key).str = some slot) : v.demote now key = (true, v.demoted now key slot) := by
  have hent : v.hot.engineEntry key now = some (slot.shown now) := by
    simp [World.engineEntry, h, Slot.shown, reported]
  unfold TierView.demote
  rw [hent]
  dsimp only
  rw [if_neg shown_not_due, deadline_reported]
  rfl

lemma demoted_hot : (v.demoted now key slot).hot key = .gone := del_gone

lemma demoted_warm : (v.demoted now key slot).warm key = some ⟨slot.shown now, slot.reported now⟩ := update_self ..

lemma demoted_hot_of_ne {k : Bytes} (hk : k ≠ key) : (v.demoted now key slot).hot k = v.hot k := by
  simp [TierView.demoted, World.del_apply, hk]

lemma demoted_warm_of_ne {k : Bytes} (hk : k ≠ key) : (v.demoted now key slot).warm k = v.warm k :=
  update_of_ne hk ..

/-- **`GetEntry` does not tell that a key was demoted.** -/
lemma demoted_entry (h : (v.hot key).str = some slot) (k : Bytes) : (v.demoted now key slot).entry now k = v.entry now k := by
  by_cases hk : k = key
  · rw [hk, entry_of_str h, TierView.entry_cold demoted_hot, demoted_warm]
    rfl
  · exact entry_congr (demoted_hot_of_ne hk) (demoted_warm_of_ne hk)

/-- **Neither does `Get`.** -/
lemma demoted_get (h : (v.hot key).str = some slot) (k : Bytes) : (v.demoted now key slot).get k = v.get k := by
  by_cases hk : k = key
  · rw [hk, TierView.get_hot h, TierView.get_cold demoted_hot, demoted_warm]
    rfl
  · simp only [TierView.get, World.get, demoted_hot_of_ne hk, demoted_warm_of_ne hk]

lemma demoted_del {keys : List Bytes} (hkey : key ∈ keys) : (v.demoted now key slot).del keys = v.del keys := by
  refine TierView.ext ?_ ?_
  · funext k
    by_cases hk : k = key
    · simp [TierView.del, TierView.demoted, World.del_apply, hk, hkey]
    · simp [TierView.del, TierView.demoted, World.del_apply, hk]
  · funext k
    by_cases hk : k = key
    · simp [TierView.del, hk, hkey]
    · simp [TierView.del, demoted_warm_of_ne hk]

end Demoted

/-! ## The time to live -/

/-- What `TTL` returns. In the hot tier it also sees entries that no read finds. -/
def Tiers.timeLeft (s : Tiers Cache) (now : Int) (key : Bytes) : Int :=
  ((s.hot.shards.lookup key).bind (Slot.ttl now)).getD ((s.view now).hiddenTTL now key)

lemma cacheTTL_eq {c : Cache} {key : Bytes} {now : Int} : c.ttl key now = (c.lookup key).bind (Slot.ttl now) := by
  unfold Cache.ttl
  cases c.lookup key with
  | none => rfl
  | some slot => cases slot <;> rfl

section TimeLeft

variable {L : LogicalConfig} {now : Int} {key : Bytes}

lemma hotTTL_run (s : Store Cache) : ∃ s', Store.ttl L.engine key now s = .ok ((((s.shards.lookup key).bind (Slot.ttl now)).or
        ((s.live now key).obj.bind (Object.ttl now))).getD (-2000000000), s') ∧
      s'.live now = s.live now := by
  have hcache : cacheTTL L.engine key now s = .ok ((s.shards.lookup key).bind (Slot.ttl now), s) := by
    rw [← cacheTTL_eq]
    rfl
  unfold Store.ttl
  rw [Views.run_bind hcache]
  cases (s.shards.lookup key).bind (Slot.ttl now) with
  | some t => exact ⟨s, rfl, rfl⟩
  | none =>
    obtain ⟨s', hobj, hlive⟩ := (@objectTTL_acts key now).run s
    dsimp only at hobj hlive ⊢
    rw [Views.run_bind hobj]
    refine ⟨s', ?_, hlive⟩
    cases (s.live now key).obj.bind (Object.ttl now) <;> rfl

lemma ttl_of_hot {s : Tiers Cache} {hot : Store Cache} {t : Int}
    (h : Store.ttl L.engine key now s.hot = .ok (t, hot)) : ttl L.engine now key s = (do
      if t ≠ -2000000000 then return t
      else
        match ← warmCall fun warm => (warm.ttl key now, warm) with
        | some ttl => return ttl
        | none => return -2000000000 : TierM Cache Int) { s with hot } :=
  run_bind (hotCall_run h)

lemma ttl_run (s : Tiers Cache) : ∃ s', ttl L.engine now key s = .ok (s.timeLeft now key, s') ∧ s'.view now = s.view now := by
  obtain ⟨hot, hhot, hlive⟩ := @hotTTL_run L now key s.hot
  rw [show s.hot.live now key = (s.view now).hot key from rfl] at hhot
  have hcall (t : Int) (ht : (((s.hot.shards.lookup key).bind (Slot.ttl now)).or
      (((s.view now).hot key).obj.bind (Object.ttl now))).getD (-2000000000) = t) :=
    @ttl_of_hot L now key s hot t (ht ▸ hhot)
  refine ⟨{ s with hot }, ?_, by simp only [Tiers.view, hlive]⟩
  rw [Tiers.timeLeft, TierView.hiddenTTL]
  cases hcache : (s.hot.shards.lookup key).bind (Slot.ttl now) with
  | some t =>
    have ht : t ≠ -2000000000 := by
      obtain ⟨slot, -, hslot⟩ := bind_eq_some_iff.1 hcache
      have := (ttl_range hslot).1
      omega
    rw [hcall t (by rw [hcache]; rfl), if_pos ht]
    rfl
  | none =>
    cases hobj : ((s.view now).hot key).obj.bind (Object.ttl now) with
    | some t =>
      have ht : t ≠ -2000000000 := by
        obtain ⟨o, -, ho⟩ := bind_eq_some_iff.1 hobj
        have := Object.ttl_ge ho
        omega
      rw [hcall t (by rw [hcache, hobj]; rfl), if_pos ht]
      rfl
    | none =>
      rw [hcall (-2000000000) (by rw [hcache, hobj]; rfl), if_neg (by simp),
        run_bind (show warmCall _ _ = .ok (s.warm.ttl key now, { s with hot }) from rfl), Warm.ttl_eq,
        show (s.view now).warm key = Warm.seen now s.warm key from rfl]
      cases (Warm.seen now s.warm key).bind (Item.ttl now) <;> rfl

/-- The slots of a cache. -/
def slots (s : Store Cache) (k : Bytes) : Option Slot := s.shards.lookup k

lemma untrackKey_slots : Simulates slots id (Store.untrackKey L.engine key) fun c => ((), c) := by
  intro s
  obtain ⟨index, hrun⟩ := untrackKey_run L.engine key s
  exact ⟨(), _, hrun, rfl⟩

open Simulates

lemma del_slots : Simulates slots (fun _ => ()) (Store.del L.engine [key]) fun c => ((), update c key none) := by
  have hshards : Simulates slots (fun _ => ()) (onShards fun c => return L.engine.delete c key)
      fun c => ((), update c key none) := by
    intro s
    refine ⟨_, _, rfl, Prod.ext rfl (funext fun k => ?_)⟩
    change update (slots s) key none k = (Cache.delete s.shards key).1.lookup k
    unfold Cache.delete
    by_cases hk : k = key
    · subst hk
      split
      · simp
      · next hmem => simp [Finmap.lookup_eq_none.2 hmem]
    · split
      · simp [hk, slots, Finmap.lookup_erase_ne hk]
      · simp [hk, slots]
  have hcache : Simulates slots (fun _ => ()) (cacheDelete L.engine key) fun c => ((), update c key none) := by
    refine bind (g := fun _ c => ((), c)) hshards fun deleted => ?_
    cases deleted with
    | true => exact untrackKey_slots.seq fun _ => .pure true
    | false => exact .pure false
  have hobjects : Simulates slots (fun _ => ()) (deleteObjectKey L.engine key) fun c => ((), c) := by
    have hdel : Simulates slots (fun _ => ()) (objectDel (σ := Cache) key) fun c => ((), c) :=
      fun s => ⟨_, _, objectDel_run key s, rfl⟩
    refine bind (g := fun _ c => ((), c)) hdel fun deleted => ?_
    cases deleted with
    | true => exact untrackKey_slots.seq fun _ => .pure true
    | false => exact .pure false
  have hkey : Simulates slots (fun _ => ()) (delKey L.engine key) fun c => ((), update c key none) :=
    hcache.seq fun inCache => hobjects.seq fun inObjects => .pure (inCache || inObjects)
  exact hkey.seq fun deleted => .pure ((if deleted then 1 else 0) + 0)

lemma demoteKey_run {s : Tiers Cache} {slot : Slot} (h : (s.hot.live now key).str = some slot) :
    ∃ t, demoteKey L.engine now key s = .ok (true, t) ∧ t.view now = (s.view now).demoted now key slot ∧
      slots t.hot = update (slots s.hot) key none := by
  obtain ⟨t, ht, hview⟩ := (@demote_simulates L now key).run s
  rw [demote_of_str h] at ht hview
  refine ⟨t, ht, hview, ?_⟩
  obtain ⟨n, hot, hdel, hsl⟩ := @del_slots L key s.hot
  have hent : (s.hot.live now).engineEntry key now = some (slot.shown now) := by
    simp [World.engineEntry, h, Slot.shown, reported]
  have hread : hotCall (engineEntry L.engine key now) s = .ok (some (slot.shown now), s) :=
    hotCall_run (by rw [engineEntry_of_live h, hent])
  have hrun : demoteKey L.engine now key s =
      .ok (true, ⟨hot, s.warm.set key now (.string slot.text) (entryTTL now (slot.shown now))⟩) := by
    unfold demoteKey
    rw [run_bind hread]
    dsimp only
    rw [if_neg shown_not_due]
    change (Store.del L.engine [key] s.hot >>= _) >>= _ = _
    rw [hdel]
    rfl
  rw [hrun] at ht
  cases ht
  exact (Prod.mk.inj hsl).2.symm

end TimeLeft

end Tiered

end AutoCache
