import AutoCache.Store.Counts
import AutoCache.Tiered.Collections

/-!
# Collections before and after a demotion

An operation on a demoted collection gives the same reply and leaves the same entries only when there
is nothing in the collection that it could miss. What a demotion changes is proved for each kind of
operation; the operations are then instances.
-/

namespace AutoCache.Tiered

open Views CollectionReply Store TierView TypedValue Option World Object Function

/-! ## The three kinds of operations -/

/-- The tiers after the demotion of a key that is Object.shown as `e`. -/
def TierView.movedAs (v : TierView) (now : Int) (key : Bytes) (e : EngineEntry) : TierView where
  hot := v.hot.del [key]
  warm := update v.warm key (some ⟨e.moved now, (e.moved now).expireAt⟩)

def TierView.withObj (v : TierView) (key : Bytes) (obj : Option Object) : TierView :=
  { v with hot := v.hot.setObj key obj }

/-- An operation on the hot tier, as a function on views. -/
def TierView.onHot {β : Type} (v : TierView) (f : World → β × World) : β × TierView :=
  ((f v.hot).1, { v with hot := (f v.hot).2 })

section Kinds

variable {v : TierView} {now : Int} {key : Bytes} {o : Object} {e : EngineEntry}

lemma Shown.demote_of_due (h : Shown v now key o e) (hdue : e.Due now) : v.demote now key = (false, v) := by
  unfold demote
  rw [h.entry]
  exact if_pos hdue

lemma Shown.demote_of_not_due (h : Shown v now key o e) (hdue : ¬ e.Due now) :
    v.demote now key = (true, v.movedAs now key e) := by
  unfold demote
  rw [h.entry]
  exact if_neg hdue

lemma movedAs_hot : (v.movedAs now key e).hot key = .gone := del_gone

lemma movedAs_hot_of_ne {k : Bytes} (hk : k ≠ key) : (v.movedAs now key e).hot k = v.hot k := by
  simp [movedAs, del_apply, hk]

lemma movedAs_warm : (v.movedAs now key e).warm key = some ⟨e.moved now, (e.moved now).expireAt⟩ :=
  update_self ..

lemma movedAs_warm_of_ne {k : Bytes} (hk : k ≠ key) : (v.movedAs now key e).warm k = v.warm k :=
  update_of_ne hk ..

/-- What `GetEntry` reports after the object of the key was replaced. -/
lemma entry_withObj {obj : Option Object} (hstr : (v.hot key).str = none) :
    (v.withObj key obj).entry now key = (obj.map Object.shown).or ((v.warm key).map Item.entry) := by
  simp only [TierView.entry, withObj, World.engineEntry, World.setObj_apply, if_true, hstr]
  rfl

/-- The object of the key is replaced in the hot tier, without and with the demotion. -/
lemma alike_withObj {β : Type} {a b : β} {obj obj' : Option Object} (hstr : (v.hot key).str = none) :
    Alike now (a, v.withObj key obj) (b, (v.movedAs now key e).withObj key obj') ↔
      a = b ∧ (obj.map Object.shown).or ((v.warm key).map Item.entry) =
        some ((obj'.map Object.shown).getD (e.moved now)) := by
  have hgone : ((v.movedAs now key e).hot key).str = none := by rw [movedAs_hot, KeyState.gone]
  have hoff (k : Bytes) (hk : k ≠ key) : ((v.movedAs now key e).withObj key obj').hot k = (v.withObj key obj).hot k := by
    simp [withObj, setObj_apply, hk, movedAs_hot_of_ne hk]
  rw [alike_iff_key fun k hk => ⟨hoff k hk, movedAs_warm_of_ne hk⟩, entry_withObj hstr, entry_withObj hgone, movedAs_warm]
  cases obj' <;> rfl

variable {α : Type}

lemma Shown.typed_eq (h : Shown v now key o e) (as : TypedValue → Option α) :
    v.hot.typed key as = .error .wrongType ∧ (¬ ∃ a, (v.hot key).str = none ∧ as o.value = some a) ∨
      ∃ a, v.hot.typed key as = .ok a ∧ (v.hot key).str = none ∧ as o.value = some a := by
  unfold typed
  rw [h.obj]
  cases (v.hot key).str with
  | some slot => simp
  | none => cases h : as o.value <;> simp [h]

lemma typed_movedAs {as : TypedValue → Option α} : (v.movedAs now key e).hot.typed key as = .error .keyNotFound := by
  simp [typed, movedAs_hot, KeyState.gone]

section

variable (h : Shown v now key o e)
include h

lemma Shown.eq_of_single (hstr : (v.hot key).str = none) : e = o.shown := by
  have := h.entry
  simp only [World.engineEntry, hstr, h.obj, map_some, some.injEq] at this
  exact this.symm

lemma Shown.alike_still {β : Type} {a b : β} : Alike now (a, v) (b, v.movedAs now key e) ↔ a = b ∧ e.moved now = e := by
  have hcold : (v.movedAs now key e).entry now key = some (e.moved now) := by
    rw [entry_cold movedAs_hot, movedAs_warm]
    rfl
  have hhot : v.entry now key = some e := by
    rw [TierView.entry, h.entry]
    rfl
  rw [alike_iff_key fun k hk => ⟨movedAs_hot_of_ne hk, movedAs_warm_of_ne hk⟩, hhot, hcold, some.injEq, eq_comm (a := e)]

lemma Shown.objectPut_eq (value : TypedValue) :
    v.hot.objectPut key now value = v.hot.setObj key (some { o with value := value }) := by
  have hlive : ¬ expired { o with value := value } now := h.live
  simp only [World.objectPut, h.obj, freshObject_eq, hlive, if_false]

/-- **Operations that add.** After the demotion they begin with an empty collection. -/
lemma Shown.alike_add {as : TypedValue → Option α} {empty : α} {f : α → TypedValue × Int}
    (hf : ∀ a, f a = f empty → a = empty) :
    Alike now (v.onHot fun w => w.add key as now empty f) ((v.movedAs now key e).onHot fun w => w.add key as now empty f) ↔
      ((v.hot key).str = none ∧ as o.value = some empty) ∧ o.expireAt ≤ 0 := by
  have hcold : (v.movedAs now key e).onHot (fun w => w.add key as now empty f) =
      (.ok (f empty).2, (v.movedAs now key e).withObj key (some ⟨(f empty).1, 0⟩)) := by
    simp only [onHot, add, typed_movedAs, withObj]
  rw [hcold]
  obtain ⟨hty, hnone⟩ | ⟨a, hty, hfnd⟩ := h.typed_eq as
  · simp only [onHot, add, hty]
    exact ⟨fun hg => absurd hg.1 (by simp), fun hg => absurd ⟨empty, hg.1⟩ hnone⟩
  simp only [onHot, add, hty, h.objectPut_eq]
  refine (alike_withObj hfnd.1).trans ?_
  have hfresh : (some { o with value := (f a).1 } : Option Object).map Object.shown =
      some (Object.shown ⟨(f empty).1, 0⟩) ↔ (f a).1 = (f empty).1 ∧ o.expireAt ≤ 0 := by
    simp [Object.shown]
  rw [Except.ok.injEq]
  constructor
  · rintro ⟨hcnt, hentry⟩
    obtain ⟨hval, hdl⟩ := hfresh.1 hentry
    obtain rfl := hf a (Prod.ext hval hcnt)
    exact ⟨hfnd, hdl⟩
  · rintro ⟨hempty, hdl⟩
    obtain rfl : a = empty := some.inj (hfnd.2.symm.trans hempty.2)
    exact ⟨rfl, hfresh.2 ⟨rfl, hdl⟩⟩

/-- **Operations that take out.** -/
lemma Shown.alike_change {α β : Type} {as : TypedValue → Option α} {absent : StoreError → Except StoreError β}
    {f : α → Except StoreError β × Option (Bool × TypedValue)}
    (hwrong : absent .wrongType ≠ absent .keyNotFound) :
    Alike now (v.onHot fun w => w.change key as now absent f)
        ((v.movedAs now key e).onHot fun w => w.change key as now absent f) ↔
      ∃ a, ((v.hot key).str = none ∧ as o.value = some a) ∧ (f a).1 = absent .keyNotFound ∧ match (f a).2 with
        | none => e.moved now = e
        | some (true, _) => (v.warm key).map Item.entry = some (e.moved now)
        | some (false, value) => value = o.value ∧ e.moved now = e := by
  have hcold : (v.movedAs now key e).onHot (fun w => w.change key as now absent f) =
      (absent .keyNotFound, v.movedAs now key e) := by
    simp only [onHot, change, typed_movedAs]
  have hself : v.movedAs now key e = (v.movedAs now key e).withObj key none := by
    have hobj : ((v.movedAs now key e).hot key).obj = none := by rw [movedAs_hot, KeyState.gone]
    simp only [withObj, ← hobj, setObj_self]
  rw [hcold]
  obtain ⟨hty, hnone⟩ | ⟨a, hty, hfnd⟩ := h.typed_eq as
  · simp only [onHot, change, hty]
    exact ⟨fun hg => absurd hg.1 hwrong, fun hg => absurd (hg.imp fun _ => And.left) hnone⟩
  have hunique : ∀ b, ((v.hot key).str = none ∧ as o.value = some b) ↔ b = a := fun b =>
    ⟨fun hb => some.inj (hb.2.symm.trans hfnd.2), fun hb => hb ▸ hfnd⟩
  simp only [hunique, exists_eq_left]
  simp only [onHot, change, hty]
  rcases hnext : (f a).2 with _ | ⟨_ | _, value⟩
  · exact h.alike_still
  · simp only [World.putOrDelete, h.objectPut_eq, Bool.false_eq_true, if_false]
    rw [hself]
    refine (alike_withObj hfnd.1).trans (and_congr Iff.rfl ?_)
    rw [h.eq_of_single hfnd.1]
    simp only [Object.shown, EngineEntry.moved, map_some, map_none, some_or,
      getD_none, some.injEq, EngineEntry.mk.injEq, Value.object.injEq, true_and]
    exact and_congr Iff.rfl eq_comm
  · rw [hself]
    exact alike_withObj hfnd.1

end

end Kinds

/-! ## Every operation -/

section Transparent

variable {L : LogicalConfig} {sorted : GoMap Bytes Score → List Bytes} {now : Int} {key : Bytes}
  {s : Tiers Cache} {o : Object} {e : EngineEntry} {α β : Type} {as : TypedValue → Option α}

lemma read_acts {g : Except StoreError α → β} {k : Except StoreError α → StoreM Cache β} (hk : ∀ r, k r = pure (g r)) :
    Acts now id (getTyped L.engine as key now >>= k) fun w => (g (w.typed key as), w) := by
  refine Acts.bind (g := fun r w => (g r, w)) getTyped_acts fun r => ?_
  rw [hk]
  exact Acts.pure (g r)

lemma asHash_eq_some {value : TypedValue} {hash : Option (GoMap Bytes Bytes)} :
    value.asHash? = some hash ↔ value = .hash hash := by
  cases value <;> simp [asHash?]

lemma asFields_eq_some {value : TypedValue} {fields : GoMap Bytes Bytes} :
    asFields? value = some fields ↔ value = .hash (some fields) := by
  cases value <;> simp [asFields?]

lemma asList_eq_some {value : TypedValue} {items : List Bytes} : value.asList? = some items ↔ value = .list items := by
  cases value <;> simp [asList?]

lemma asSet_eq_some {value : TypedValue} {set : Finset Bytes} : value.asSet? = some set ↔ value = .set set := by
  cases value <;> simp [asSet?]

lemma asZSet_eq_some {value : TypedValue} {scores : GoMap Bytes Score} :
    value.asZSet? = some scores ↔ value = .zset scores := by
  cases value <;> simp [asZSet?]

lemma sort_eq_nil_iff {set : Finset Bytes} : set.sort (· ≤ ·) = [] ↔ set = ∅ := by
  rw [← List.length_eq_zero_iff, Finset.length_sort, Finset.card_eq_zero]

lemma normalizeIndex_lt {length i : ℕ} {index : Int} (h : normalizeIndex length index = some i) : i < length := by
  simp only [normalizeIndex, ite_none_left_eq_some, some.injEq] at h
  omega

lemma index_eq_none_iff {items : List Bytes} {index : Int} :
    (normalizeIndex items.length index).bind (items[·]?) = none ↔ normalizeIndex items.length index = none := by
  cases h : normalizeIndex items.length index with
  | none => simp
  | some i => simpa using normalizeIndex_lt h

lemma range_eq_nil_iff {items : List Bytes} {start stop : Int} : (match normalizeRange items.length start stop with
      | none => []
      | some (i, j) => slice items i j) = [] ↔
      normalizeRange items.length start stop = none := by
  cases h : normalizeRange items.length start stop with
  | none => simp
  | some range => simpa using slice_ne_nil h

section

variable (h : Shown (s.view now) now key o e)
include h

lemma Shown.transparent_iff_of_returns {x : TierM Cache α} {f : World → α × World}
    (hx : ∀ t : Tiers Cache, t.view now = s.view now ∨ t.view now = (s.view now).movedAs now key e →
      ∃ t', x t = .ok (((t.view now).onHot f).1, t') ∧ t'.view now = ((t.view now).onHot f).2) :
    Transparent L now key x s ↔ e.Due now ∨ Alike now ((s.view now).onHot f) (((s.view now).movedAs now key e).onHot f) := by
  obtain ⟨u, hdem, hview⟩ := (@demote_simulates L now key).run s
  obtain ⟨s', hs, hview'⟩ := hx s (.inl rfl)
  by_cases hdue : e.Due now
  · rw [h.demote_of_due hdue] at hview
    obtain ⟨u', hu, hview''⟩ := hx u (.inl hview)
    rw [transparent_iff_of_runs hdem hs hu, hview', hview'', hview]
    exact ⟨fun _ => .inl hdue, fun _ => ⟨rfl, fun _ => rfl⟩⟩
  · rw [h.demote_of_not_due hdue] at hview
    obtain ⟨u', hu, hview''⟩ := hx u (.inr hview)
    rw [transparent_iff_of_runs hdem hs hu, hview', hview'', hview]
    exact ⟨.inr, fun hor => hor.resolve_left hdue⟩

lemma Shown.transparent_iff {x : StoreM Cache α} {f : World → α × World} (hx : Acts now id x f) :
    Transparent L now key (hotCall x) s ↔ e.Due now ∨
      Alike now ((s.view now).onHot f) (((s.view now).movedAs now key e).onHot f) :=
  h.transparent_iff_of_returns fun t _ => (hotCall_simulates hx).run t

/-- **Operations that read.** -/
lemma Shown.transparent_read {g : Except StoreError α → β} {k : Except StoreError α → StoreM Cache β}
    (hk : ∀ r, k r = pure (g r)) (hwrong : g (.error .wrongType) ≠ g (.error .keyNotFound)) :
    Transparent L now key (hotCall (getTyped L.engine as key now >>= k)) s ↔
      e.Due now ∨ e.moved now = e ∧ ∃ a, (((s.view now).hot key).str = none ∧ as o.value = some a) ∧
        g (.ok a) = g (.error .keyNotFound) := by
  refine (h.transparent_iff (read_acts hk)).trans (or_congr Iff.rfl (h.alike_still.trans ?_))
  dsimp only
  rw [typed_movedAs, and_comm]
  refine and_congr Iff.rfl ?_
  obtain ⟨hty, hnone⟩ | ⟨a, hty, hfnd⟩ := h.typed_eq as
  · rw [hty]
    exact ⟨fun hg => absurd hg hwrong, fun hg => absurd (hg.imp fun _ => And.left) hnone⟩
  · rw [hty]
    refine ⟨fun hg => ⟨a, hfnd, hg⟩, fun ⟨b, hb, hg⟩ => ?_⟩
    obtain rfl : a = b := some.inj (hfnd.2.symm.trans hb.2)
    exact hg

lemma Shown.transparent_orAbsent {φ : α → β} {absent : β} :
    Transparent L now key (hotCall (getTyped L.engine as key now >>= fun r =>
        pure (orAbsent absent (r.map φ)))) s ↔
      e.Due now ∨ e.moved now = e ∧ ∃ a, (((s.view now).hot key).str = none ∧ as o.value = some a) ∧ φ a = absent := by
  rw [h.transparent_read (fun _ => rfl) (by simp [orAbsent, Except.map])]
  simp only [orAbsent, Except.map, Except.ok.injEq]

lemma Shown.transparent_lookup (ψ : α → Option β) {k : Except StoreError α → StoreM Cache (Except StoreError β)}
    (herr : ∀ e, k (.error e) = pure (.error e))
    (hok : ∀ a, k (.ok a) = pure ((ψ a).elim (.error .keyNotFound) .ok)) :
    Transparent L now key (hotCall (getTyped L.engine as key now >>= k)) s ↔ e.Due now ∨ e.moved now = e ∧
        ∃ a, (((s.view now).hot key).str = none ∧ as o.value = some a) ∧ ψ a = none := by
  have hk (r : Except StoreError α) : k r = pure (r.bind fun a => (ψ a).elim (.error .keyNotFound) .ok) := by
    cases r with
    | error e => exact herr e
    | ok a => exact hok a
  have hnone (a : α) : (ψ a).elim (Except.error StoreError.keyNotFound) .ok = .error .keyNotFound ↔ ψ a = none := by
    cases ψ a <;> simp
  rw [h.transparent_read hk (by simp [Except.bind])]
  simp only [Except.bind, hnone]

lemma Shown.transparent_still {a : α} : Transparent L now key (hotCall (pure a)) s ↔ e.Due now ∨ e.moved now = e := by
  refine (h.transparent_iff (Acts.pure a)).trans (or_congr Iff.rfl (h.alike_still.trans ?_))
  simp

/-- `HSet` on a hash that is a nil map faults, and does not after the demotion. -/
lemma Shown.transparent_hset {pairs : List Bytes} (hpairs : ¬ (pairs.length = 0 ∨ pairs.length % 2 ≠ 0)) :
    Transparent L now key (hotCall (hset L.engine key pairs now)) s ↔ e.Due now ∨
      (((s.view now).hot key).str = none ∧ o.value = .hash (some ∅)) ∧ o.expireAt ≤ 0 := by
  have hgone : ¬ HoldsNil ((s.view now).movedAs now key e).hot key := by
    simp [HoldsNil, typed_movedAs]
  have hreturns (t : Tiers Cache) (ht : ¬ HoldsNil (t.view now).hot key) : ∃ t', hotCall (hset L.engine key pairs now) t =
          .ok (((t.view now).onHot fun w => w.add key asFields? now ∅ fun fields =>
            (.hash (some (setFields fields pairs).1), (setFields fields pairs).2)).1, t') ∧
        t'.view now = ((t.view now).onHot fun w => w.add key asFields? now ∅ fun fields =>
            (.hash (some (setFields fields pairs).1), (setFields fields pairs).2)).2 := by
    obtain ⟨result, hot, hrun, hlive⟩ := @hset_run L key now pairs hpairs t.hot ht
    refine ⟨{ t with hot }, ?_, ?_⟩
    · simp only [onHot, Tiers.view, hlive]
      exact hotCall_run hrun
    · simp only [onHot, Tiers.view, hlive]
  have hfault (t : Tiers Cache) (ht : HoldsNil (t.view now).hot key) :
      hotCall (hset L.engine key pairs now) t = .error .nilMap := by
    unfold hotCall
    rw [hset_of_nil hpairs ht]
    rfl
  by_cases hnil : HoldsNil (s.view now).hot key
  · obtain ⟨u, hdem, hview⟩ := (@demote_simulates L now key).run s
    unfold Transparent
    rw [run_bind hdem, hfault s hnil]
    by_cases hdue : e.Due now
    · rw [h.demote_of_due hdue] at hview
      rw [hfault u (by rw [hview]; exact hnil)]
      simp [hdue]
    · rw [h.demote_of_not_due hdue] at hview
      obtain ⟨u', hu, -⟩ := hreturns u (by rw [hview]; exact hgone)
      rw [hu]
      obtain ⟨hty, -⟩ | ⟨a, hty, -, hval⟩ := h.typed_eq asHash?
      · cases hty.symm.trans hnil
      · cases hty.symm.trans hnil
        simp [hdue, asHash_eq_some.1 hval]
  · rw [h.transparent_iff_of_returns fun t ht => hreturns t ?_, h.alike_add fun m hm => ?_]
    · simp only [asFields_eq_some]
    · simp only [Prod.mk.injEq, hash.injEq, some.injEq] at hm
      exact eq_empty_of_added (·.keys.card) (card_setFields pairs) (fun h => GoMap.keys_eq_empty.1 (Finset.card_eq_zero.1 h)) (Prod.ext hm.1 hm.2)
    · rcases ht with ht | ht
      · rwa [ht]
      · rwa [ht]

/-- The calls that take members out differ in the collection `m a` they see, the loop and the value
they put back. -/
lemma Shown.transparent_take {μ : Type} (m : α → μ) (value : μ → TypedValue)
    (empty : μ → Prop) [DecidablePred empty] [Membership Bytes μ] [∀ (x : Bytes) (m : μ), Decidable (x ∈ m)]
    (del : μ → Bytes → μ) {loop : μ → List Bytes → μ × Int} {members : List Bytes}
    {x : StoreM Cache (Except StoreError Int)}
    (hx : Acts now id x fun w => w.change key as now noneTaken fun a =>
      (.ok (loop (m a) members).2, some (empty (loop (m a) members).1, value (loop (m a) members).1)))
    (hdel : ∀ m x, x ∉ m → del m x = m) (hnil : ∀ m, loop m [] = (m, 0))
    (hcons : ∀ m x xs, loop m (x :: xs) = ((loop (del m x) xs).1, (if x ∈ m then 1 else 0) + (loop (del m x) xs).2))
    (hval : ∀ a, as o.value = some a → ¬ empty (m a) → value (m a) = o.value) :
    Transparent L now key (hotCall x) s ↔ e.Due now ∨
      ∃ a, (((s.view now).hot key).str = none ∧ as o.value = some a) ∧ (∀ x ∈ members, x ∉ m a) ∧
        if empty (m a) then ((s.view now).warm key).map Item.entry = some (e.moved now)
        else e.moved now = e := by
  rw [h.transparent_iff hx, h.alike_change (by simp [noneTaken])]
  refine or_congr Iff.rfl (exists_congr fun a => and_congr_right fun hfnd => ?_)
  -- what the client sees, from what is left
  let P (left : μ) : Prop :=
    if empty left then ((s.view now).warm key).map Item.entry = some (e.moved now)
    else value left = o.value ∧ e.moved now = e
  have hleft (left : μ) : (match some (decide (empty left), value left) with
      | none => e.moved now = e
      | some (true, _) => ((s.view now).warm key).map Item.entry = some (e.moved now)
      | some (false, v) => v = o.value ∧ e.moved now = e) ↔ P left := by
    by_cases hempty : empty left <;> simp [P, hempty]
  rw [noneTaken, Except.ok.injEq, hleft, taken_zero_iff (· ∈ ·) del hnil hcons hdel (m a) members P]
  refine and_congr_right fun _ => ?_
  by_cases hempty : empty (m a)
  · simp only [P, if_pos hempty]
  · simp only [P, if_neg hempty, hval a hfnd.2 hempty, true_and]

lemma Shown.transparent_push {left : Bool} {values : List Bytes} :
    Transparent L now key (hotCall (pushList L.engine key left values now)) s ↔ e.Due now ∨
      if values = [] then e.moved now = e
      else (((s.view now).hot key).str = none ∧ o.value = .list []) ∧ o.expireAt ≤ 0 := by
  by_cases hvalues : values = []
  · unfold pushList
    rw [if_pos hvalues, if_pos hvalues, h.transparent_still]
  · rw [if_neg hvalues, h.transparent_iff (pushList_acts hvalues), h.alike_add fun items hitems => ?_]
    · simp only [asList_eq_some]
    · have hlength := congrArg Prod.snd hitems
      refine List.eq_nil_of_length_eq_zero ?_
      cases left <;> simpa using hlength

lemma Shown.transparent_pop {left : Bool} : Transparent L now key (hotCall (popList L.engine key left now)) s ↔ e.Due now ∨
      e.moved now = e ∧ ((s.view now).hot key).str = none ∧ o.value = .list [] := by
  have hpopped (items : List Bytes) (hitems : items ≠ []) : (popped left items).1 ≠ .error .keyNotFound := by
    obtain ⟨value, hval⟩ : ∃ value, (if left then items.head? else items.getLast?) = some value := by
      cases left
      · exact ⟨_, List.getLast?_eq_some_getLast hitems⟩
      · exact ⟨_, List.head?_eq_some_head hitems⟩
    simp [popped, hval]
  have hnil : popped left [] = (.error .keyNotFound, none) := by
    cases left <;> rfl
  rw [h.transparent_iff popList_acts, h.alike_change (by simp)]
  refine or_congr Iff.rfl ⟨?_, ?_⟩
  · rintro ⟨items, ⟨hstr, hval⟩, hreply, hkept⟩
    by_cases hitems : items = []
    · subst hitems
      rw [hnil] at hkept
      exact ⟨hkept, hstr, asList_eq_some.1 hval⟩
    · exact absurd hreply (hpopped items hitems)
  · rintro ⟨hkept, hstr, hval⟩
    refine ⟨[], ⟨hstr, asList_eq_some.2 hval⟩, ?_⟩
    rw [hnil]
    exact ⟨rfl, hkept⟩

end

end Transparent

def oneField : Tiers Cache :=
  ⟨single [104] none (some ⟨.hash (some ((∅ : GoMap Bytes Bytes).insert [97] [49])), 0⟩), ∅⟩

lemma oneField_shown : Shown (oneField.view 0) 0 [104] ⟨.hash (some ((∅ : GoMap Bytes Bytes).insert [97] [49])), 0⟩
    ⟨.object (.hash (some ((∅ : GoMap Bytes Bytes).insert [97] [49]))), none⟩ where
  obj := rfl
  live := by simp [expired]
  entry := rfl

end AutoCache.Tiered
