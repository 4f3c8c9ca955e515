import AutoCache.Tiered.OneTier

/-!
# Tier transparency

`TTL` and `Rename`, whose time to live also comes from slots that no read finds, and the theorem on all
operations.
-/

namespace AutoCache.Tiered

open Views TierReply Store List Option Tiers Function

section Operations

variable {now : Int} {key : Bytes} {v : TierView} {slot : Slot}

/-! ## `TTL` and `Rename` -/

lemma hiddenTTL_demoted : (v.demoted now key slot).hiddenTTL now key =
    (slot.ttl now).elim (-1) fun t => if t > 0 then t else -1 := by
  rw [TierView.hiddenTTL, demoted_hot, demoted_warm, bind_some, Item.ttl, Slot.reported]
  cases h : slot.ttl now with
  | none => rfl
  | some t =>
    have hmax := (Slot.ttl_range h).2
    by_cases ht : t > 0
    · have huntil : timeUntil (now + t) now = t := by
        unfold timeUntil
        omega
      have hpos : ¬ t < 0 := by omega
      simp [ht, huntil, hpos, KeyState.gone]
    · simp [ht, KeyState.gone]

end Operations

section States

variable {L : LogicalConfig} {now : Int} {key : Bytes} {s : Tiers Cache} {slot : Slot}

section

variable (h : (s.hot.live now key).str = some slot)
include h

lemma transparent_read {α : Type} {x : TierM Cache α} {f : TierView → α} (hx : Simulates (view now) id x fun v => (f v, v))
    (hf : ∀ v w : TierView, (∀ k, w.get k = v.get k) → (∀ k, w.entry now k = v.entry now k) → f w = f v) :
    Transparent L now key x s := by
  rw [transparent_iff_alike hx h, hf _ _ (demoted_get h) (demoted_entry h)]
  exact .of_entries (demoted_entry h)

lemma transparent_rewrite {α : Type} {next : Option Bytes → Except TierError (Bytes × α)} :
    Transparent L now key (rewrite L.engine now key next) s :=
  (transparent_iff_alike rewrite_simulates h).2 (alike_rewrite h next)

lemma transparent_ttl : Transparent L now key (ttl L.engine now key) s ↔
      TransparentWhen L now key slot (s.view now) (.ttl key) := by
  obtain ⟨u, hdem, hview, hsl⟩ := @demoteKey_run L now key s slot h
  obtain ⟨s', hs, hview'⟩ := @ttl_run L now key s
  obtain ⟨u', hu, hview''⟩ := @ttl_run L now key u
  have hbefore : s.timeLeft now key = (slot.ttl now).getD ((s.view now).hiddenTTL now key) := by
    rw [timeLeft, (lookup_of_live h).1, bind_some]
  have hafter : u.timeLeft now key = (slot.ttl now).elim (-1) fun t => if t > 0 then t else -1 := by
    rw [timeLeft, show u.hot.shards.lookup key = none by
      rw [← slots, hsl, update_self], hview, hiddenTTL_demoted]
    rfl
  rw [transparent_iff_of_runs hdem hs hu, Alike, hview', hview'', hview, hbefore, hafter, TransparentWhen]
  have hentries : ∀ k, (s.view now).entry now k = ((s.view now).demoted now key slot).entry now k :=
    fun k => (demoted_entry h k).symm
  cases hslot : slot.ttl now with
  | none => simp [hentries]
  | some t =>
    have hmin := (Slot.ttl_range hslot).1
    simp only [getD_some, elim_some, hentries, implies_true, and_true]
    split <;> omega

end

/-- What a read leaves of a slot: an entry that has expired goes. -/
def afterGet (key : Bytes) (now : Int) : Option Slot → Option Slot
  | some (.entry e) => if Readable key ∧ e.expired now then none else some (.entry e)
  | slot => slot

lemma afterGet_of_live (hlive : Slot.Live key now slot) : afterGet key now (some slot) = some slot := by
  cases slot with
  | counter n hn => rfl
  | entry e => exact if_neg fun h => hlive.2 h.2

lemma engineEntry_slot : Simulates (fun s : Store Cache => slots s key) (fun _ => ())
    (Store.engineEntry L.engine key now) fun c => ((), afterGet key now c) := by
  have hget : Simulates (fun s : Store Cache => slots s key) (fun _ => ())
      (cacheGet L.engine key now) fun c => ((), afterGet key now c) := by
    intro s
    refine ⟨(Cache.get s.shards key now).2, { s with shards := (Cache.get s.shards key now).1 }, rfl, ?_⟩
    simp only [slots, Cache.get]
    cases hl : s.shards.lookup key with
    | none => simp [afterGet, hl]
    | some slot =>
      cases slot with
      | counter n hn => simp [afterGet, hl]
      | entry e =>
        by_cases hr : Readable key
        · by_cases hexp : e.expired now <;> simp [afterGet, hl, hr, hexp]
        · simp [afterGet, hl, hr]
  have hobject : Simulates (fun s : Store Cache => slots s key) (fun _ => ())
      (objectGet (σ := Cache) key now) fun c => ((), c) := by
    intro s
    unfold objectGet
    split
    · exact ⟨_, _, rfl, rfl⟩
    · split <;> exact ⟨_, _, rfl, rfl⟩
  refine Simulates.bind (g := fun _ c => ((), c)) hget fun value => ?_
  cases value with
  | some value =>
    have httl : Simulates (fun s : Store Cache => slots s key) (fun _ => ())
        (cacheTTL L.engine key now) fun c => ((), c) := fun s => ⟨_, _, rfl, rfl⟩
    refine Simulates.bind (g := fun _ c => ((), c)) httl fun ttl => ?_
    cases ttl <;> exact .pure _
  | none => exact hobject.seq fun o => .pure _

lemma getEntry_slot (t : Tiers Cache) : ∃ entry t', getEntry L.engine now key t = .ok (entry, t') ∧
    slots t'.hot key = afterGet key now (slots t.hot key) := by
  obtain ⟨entry, hot, hread, hslot⟩ := @engineEntry_slot L now key t.hot
  have hafter := (Prod.mk.inj hslot).2.symm
  unfold getEntry
  rw [run_bind (hotCall_run hread)]
  cases entry with
  | some entry | none => exact ⟨_, _, rfl, hafter⟩

/-- The time to live that `Rename` takes along. -/
def Tiers.renameTTL (t : Tiers Cache) (now : Int) (source : Bytes) : Int :=
  ((afterGet source now (slots t.hot source)).bind (Slot.ttl now)).getD ((t.view now).hiddenTTL now source)

variable {marshal : TypedValue → Go Bytes} {source target : Bytes}

/-- The end of `Rename`. -/
def putRenamed (L : LogicalConfig) (marshal : TypedValue → Go Bytes) (now : Int) (target : Bytes)
    (value : Value) (ttl : Int) : TierM Cache (Except TierError Unit) :=
  match value with
  | .object value => do
    let payload ← marshal value
    let result ← hotCall (Store.restoreEntry L.engine target value.type payload ttl now)
    return result.mapError .hot
  | .string text => set L.engine now target text ttl

lemma rename_missing (t : Tiers Cache) (h : (t.view now).entry now source = none) :
    ∃ t', rename L.engine now marshal source target t = .ok (.error .keyNotFound, t') ∧ t'.view now = t.view now := by
  obtain ⟨t', hget, hview⟩ := (@getEntry_simulates L now source).run t
  refine ⟨t', ?_, hview⟩
  unfold rename
  rw [run_bind hget]
  rw [h]
  rfl

lemma rename_found (t : Tiers Cache) {entry : EngineEntry} (h : (t.view now).entry now source = some entry) :
    ∃ t', rename L.engine now marshal source target t =
        putRenamed L marshal now target entry.value (t.renameTTL now source) t' ∧
      t'.view now = ((t.view now).del [target]).del [source] := by
  obtain ⟨t₁, hget, hview₁⟩ := (@getEntry_simulates L now source).run t
  obtain ⟨_, t₁', hget', hslot⟩ := @getEntry_slot L now source t
  obtain rfl : t₁ = t₁' := congrArg Prod.snd (Except.ok.inj (hget.symm.trans hget'))
  obtain ⟨t₂, httl, hview₂⟩ := @ttl_run L now source t₁
  obtain ⟨_, t₃, hdel, hview₃⟩ := @del_simulates L now [target] t₂
  obtain ⟨_, t₄, hdel', hview₄⟩ := @del_simulates L now [source] t₃
  have htime : t₁.timeLeft now source = t.renameTTL now source := by
    rw [timeLeft, ← slots, hslot, hview₁, renameTTL]
  refine ⟨t₄, ?_, ?_⟩
  · unfold rename
    rw [run_bind hget]
    rw [h]
    dsimp only
    rw [run_bind httl, run_bind hdel, run_bind hdel', htime]
    cases entry.value <;> rfl
  · rw [← (Prod.mk.inj hview₄).2, ← (Prod.mk.inj hview₃).2, hview₂, hview₁]

/-- The end of `Rename` is the same on tiers that look the same. -/
lemma putRenamed_agree {value : Value} {ttl : Int} {a b : Tiers Cache} (hview : a.view now = b.view now) :
    (∃ fault, putRenamed L marshal now target value ttl a = .error fault ∧
        putRenamed L marshal now target value ttl b = .error fault) ∨
      ∃ r a' b', putRenamed L marshal now target value ttl a = .ok (r, a') ∧
        putRenamed L marshal now target value ttl b = .ok (r, b') ∧ a'.view now = b'.view now := by
  have hagree {f : TierView → Except TierError Unit × TierView} {x : TierM Cache (Except TierError Unit)}
      (hx : Simulates (view now) id x f) :
      ∃ r a' b', x a = .ok (r, a') ∧ x b = .ok (r, b') ∧ a'.view now = b'.view now := by
    obtain ⟨a', ha, hva⟩ := hx.run a
    obtain ⟨b', hb, hvb⟩ := hx.run b
    exact ⟨_, a', b', ha, by rw [hb, hview], by rw [hva, hvb, hview]⟩
  cases value with
  | string text => exact .inr (hagree set_simulates)
  | object o =>
    cases hm : marshal o with
    | error fault =>
      have hpayload (c : Tiers Cache) : (liftM (marshal o) : TierM Cache Bytes) c = .error fault := by
        rw [hm]
        rfl
      exact .inl ⟨fault, run_bind_error (hpayload a), run_bind_error (hpayload b)⟩
    | ok payload =>
      have hpayload (c : Tiers Cache) : (liftM (marshal o) : TierM Cache Bytes) c = .ok (payload, c) := by
        rw [hm]
        rfl
      have hrun (c : Tiers Cache) : putRenamed L marshal now target (.object o) ttl c = _ :=
        run_bind (hpayload c)
      rw [hrun, hrun]
      exact .inr (hagree ((hotCall_simulates restoreEntry_acts).andThen _))

/-- **`Rename` to the demoted key**: it is deleted first. -/
lemma transparent_rename_to (h : (s.hot.live now key).str = some slot) (hne : source ≠ key) :
    Transparent L now key (rename L.engine now marshal source key) s := by
  obtain ⟨u, hdem, hview, hsl⟩ := @demoteKey_run L now key s slot h
  have hent : (u.view now).entry now source = (s.view now).entry now source := by
    rw [hview, demoted_entry h]
  have httl : u.renameTTL now source = s.renameTTL now source := by
    rw [renameTTL, renameTTL, hsl, update_of_ne hne, hview, TierView.hiddenTTL, TierView.hiddenTTL, demoted_hot_of_ne hne, demoted_warm_of_ne hne]
  cases hsrc : (s.view now).entry now source with
  | none =>
    obtain ⟨s', hs, hview'⟩ := @rename_missing L now marshal source key s hsrc
    obtain ⟨u', hu, hview''⟩ := @rename_missing L now marshal source key u (hent.trans hsrc)
    rw [transparent_iff_of_runs hdem hs hu, hview', hview'', hview]
    exact .of_entries (demoted_entry h)
  | some entry =>
    obtain ⟨s', hs, hview'⟩ := @rename_found L now marshal source key s entry hsrc
    obtain ⟨u', hu, hview''⟩ := @rename_found L now marshal source key u entry (hent.trans hsrc)
    rw [hview, demoted_del (mem_singleton_self key)] at hview''
    rw [httl] at hu
    rcases putRenamed_agree (hview'.trans hview''.symm) with ⟨fault, hfs, hfu⟩ | ⟨r, s'', u'', hrs, hru, hend⟩
    · unfold Transparent
      rw [run_bind hdem, hs, hu, hfs, hfu]
    · rw [transparent_iff_of_runs hdem (hs.trans hrs) (hu.trans hru), hend]
      exact ⟨rfl, fun _ => rfl⟩

lemma alike_set {w : TierView} {text : Bytes} {ttl ttl' : Int} (hhot : w.hot target = .gone) (hwarm : w.warm target = none) :
    Alike now (w.set now target L.size text ttl) (w.set now target L.size text ttl') ↔ (¬ Cache.TooLarge L.size target text →
        (freshSlot target now (.entry (writtenEntry text ttl now))).map (Slot.reported now) =
          (freshSlot target now (.entry (writtenEntry text ttl' now))).map (Slot.reported now)) := by
  by_cases hlarge : Cache.TooLarge L.size target text
  · simp [TierView.set, World.set, hlarge, Alike]
  have hset (ttl : Int) : w.set now target L.size text ttl = (.ok (),
      w.withStr target (freshSlot target now (.entry (writtenEntry text ttl now)))) := by
    simp only [TierView.set, World.set, if_neg hlarge]
    rfl
  have hshadow : (w.evict target).entry now target = none := by
    rw [TierView.entry_cold (by simp [TierView.evict, World.setStr_apply, hhot, KeyState.gone])]
    simp [TierView.evict, hwarm]
  have hoff (str str' : Option Slot) (k : Bytes) (hk : k ≠ target) :
      (w.withStr target str').hot k = (w.withStr target str).hot k ∧
        (w.withStr target str').warm k = (w.withStr target str).warm k := by
    rw [(withStr_of_ne k hk).1, (withStr_of_ne k hk).1]
    exact ⟨rfl, rfl⟩
  rw [hset, hset, alike_iff_key (hoff _ _), entry_withStr, entry_withStr, hshadow]
  simp only [true_and, hlarge, not_false_iff, forall_const]
  rw [freshSlot_entry, freshSlot_entry]
  split <;> split <;> simp [Slot.shown, Slot.text, writtenEntry]

lemma del_del {v : TierView} {a b : Bytes} : (v.del [a]).del [b] = v.del [a, b] := by
  refine TierView.ext (funext fun k => ?_) (funext fun k => ?_)
  · simp only [TierView.del, World.del_apply, mem_cons, not_mem_nil, or_false]
    by_cases ha : k = a <;> by_cases hb : k = b <;> simp [ha, hb]
  · simp only [TierView.del, mem_cons, not_mem_nil, or_false]
    by_cases ha : k = a <;> by_cases hb : k = b <;> simp [ha, hb]

/-- **`Rename` of the demoted key.** -/
lemma transparent_rename_from (h : (s.hot.live now key).str = some slot) :
    Transparent L now key (rename L.engine now marshal key target) s ↔
      TransparentWhen L now key slot (s.view now) (.rename key target) := by
  obtain ⟨u, hdem, hview, hsl⟩ := @demoteKey_run L now key s slot h
  obtain ⟨hlk, hlive⟩ := lookup_of_live h
  have hent : (s.view now).entry now key = some (slot.shown now) := entry_of_str h
  obtain ⟨s', hs, hview'⟩ := @rename_found L now marshal key target s _ hent
  obtain ⟨u', hu, hview''⟩ := @rename_found L now marshal key target u (slot.shown now) (by rw [hview, demoted_entry h, hent])
  rw [hview, del_del, demoted_del (by simp)] at hview''
  rw [del_del] at hview'
  have httl : s.renameTTL now key = (slot.ttl now).getD ((s.view now).hiddenTTL now key) := by
    rw [renameTTL, slots, hlk, afterGet_of_live hlive, bind_some]
  have httl' : u.renameTTL now key = (slot.ttl now).elim (-1) fun t => if t > 0 then t else -1 := by
    rw [renameTTL, hsl, update_self, hview, hiddenTTL_demoted]
    rfl
  obtain ⟨s'', hset, hend⟩ := (@set_simulates L now target slot.text (s.renameTTL now key)).run s'
  obtain ⟨u'', hset', hend'⟩ := (@set_simulates L now target slot.text (u.renameTTL now key)).run u'
  rw [transparent_iff_of_runs hdem (hs.trans hset) (hu.trans hset'), hend, hend', hview', hview'']
  rw [alike_set (by simp [TierView.del, World.del_apply, KeyState.gone]) (by simp [TierView.del]), httl, httl',
    TransparentWhen]
  cases hslot : slot.ttl now with
  | none =>
    simp only [getD_none, elim_none, forall_const]
    rw [show writtenEntry slot.text (-1) now = writtenEntry slot.text 0 now from rfl, freshSlot_written_zero]
    by_cases hr : Readable target
    · simp [hr, Slot.reported, Slot.ttl, writtenEntry, deadline_zero]
    · simp [hr, freshSlot_entry]
  | some t =>
    simp only [getD_some, elim_some, reduceCtorEq, IsEmpty.forall_iff, implies_true, iff_true]
    intro _
    split
    · rfl
    · next ht =>
      have hdl : deadline t now = deadline (-1) now := by
        rw [deadline, if_neg ht]
        rfl
      simp only [writtenEntry, hdl]

end States

end AutoCache.Tiered
