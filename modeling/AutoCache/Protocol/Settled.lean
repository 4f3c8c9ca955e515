import AutoCache.Lib.Checkpoint
import AutoCache.Protocol.SlotEffects

/-!
# Operations over a newer copy

When the replay starts, the copy of a key already has the effect of the operations that were logged
before it was made. Running these again leaves the copy as it is. If one of them deletes the key, what
comes before it does not matter. Otherwise the key keeps its kind: a string is overwritten as a whole, the
fields of a hash one by one, and a deadline by the next one.
-/

namespace AutoCache

open Checkpoint List KeyState Option

/-! ## Fields -/

namespace Store

lemma lookup_setFields (key : Bytes) : ∀ (pairs : List Bytes) (fields : GoMap Bytes Bytes),
    (setFields fields pairs).1.lookup key = (lastValue key pairs).or (fields.lookup key)
  | [], _ | [_], _ => rfl
  | field :: value :: pairs, fields => by
    simp only [setFields, lastValue, lookup_setFields key pairs]
    by_cases hkey : field = key
    · subst hkey
      cases lastValue field pairs <;> simp
    · rw [Finmap.lookup_insert_of_ne _ (Ne.symm hkey), if_neg hkey, or_none]

lemma setFields_again (fields : GoMap Bytes Bytes) (pairs pairs' : List Bytes) :
    (setFields (setFields (setFields fields pairs).1 pairs').1 pairs).1 =
      (setFields (setFields fields pairs').1 pairs).1 := by
  refine Finmap.ext_lookup fun key => ?_
  simp only [lookup_setFields]
  cases lastValue key pairs <;> rfl

end Store

namespace TypedValue

lemma withFields_again (v : TypedValue) (pairs pairs' : List Bytes) :
    ((v.withFields pairs).withFields pairs').withFields pairs = (v.withFields pairs').withFields pairs := by
  cases v with
  | hash fields =>
    cases fields with
    | none => rfl
    | some fields => simp only [withFields, Store.setFields_again]
  | _ => rfl

lemma withFields_twice (v : TypedValue) (pairs : List Bytes) :
    (v.withFields pairs).withFields pairs = v.withFields pairs := by
  have hnil (v : TypedValue) : v.withFields [] = v := by
    cases v with
    | hash fields => cases fields <;> rfl
    | _ => rfl
  simpa only [hnil] using withFields_again v pairs []

end TypedValue

/-! ## Changes of one key -/

namespace Protocol

/-- What an operation other than a deletion does to a key. -/
inductive Change where
  | nothing
  | string (slot : Slot)
  | fields (pairs : List Bytes)
  | deadline (d : Int)

namespace Change

def run (k : KeyState) : Change → KeyState
  | nothing => k
  | string slot => k.withStr slot
  | fields pairs => k.withFields pairs
  | deadline d => k.withDeadline d

def IsQuiet : Change → Prop
  | string _ => False
  | _ => True

variable {c c' : Change} {k : KeyState}

lemma overwrite_string (l : List Change) : Overwrite run (fun k => ∃ slot, k = ⟨some slot, none⟩) l where
  keeps := by
    rintro _ ⟨slot, rfl⟩ c -
    rcases c with _ | slot' | _ | d
    · exact ⟨slot, rfl⟩
    · exact ⟨slot', rfl⟩
    · exact ⟨slot, rfl⟩
    · cases slot <;> exact ⟨_, rfl⟩
  twice := by
    rintro _ ⟨slot, rfl⟩ c -
    rcases c with _ | _ | _ | _
    case deadline d => cases slot <;> rfl
    all_goals rfl
  again := by
    rintro _ ⟨slot, rfl⟩ c - c' -
    rcases c with _ | slot' | _ | _ <;> rcases c' with _ | _ | _ | _
    case string.deadline => cases slot <;> cases slot' <;> rfl
    all_goals cases slot <;> rfl

variable {l : List Change}

lemma overwrite_object (hl : ∀ c ∈ l, c.IsQuiet) : Overwrite run (fun k => ∃ o, k = ⟨none, some o⟩) l where
  keeps := by
    rintro _ ⟨o, rfl⟩ c hc
    rcases c with _ | slot | _ | _
    case string => exact (hl _ hc).elim
    all_goals exact ⟨_, rfl⟩
  twice := by
    rintro _ ⟨o, rfl⟩ c hc
    rcases c with _ | slot | pairs | _
    case string => exact (hl _ hc).elim
    case fields => simp only [run, withFields, TypedValue.withFields_twice]
    all_goals rfl
  again := by
    rintro _ ⟨o, rfl⟩ c hc c' hc'
    rcases c with _ | slot | pairs | d
    case string => exact (hl _ hc).elim
    all_goals rcases c' with _ | slot' | pairs' | d'
    case fields.fields => simp only [run, withFields, TypedValue.withFields_again]
    case fields.nothing | fields.deadline =>
      simp [run, withFields, withDeadline, TypedValue.withFields_twice]
    all_goals first | exact (hl _ hc').elim | rfl

def Legal (k : KeyState) : Change → Prop
  | nothing => True
  | string _ => k.obj = none
  | fields _ => k.str = none
  | deadline _ => k ≠ .gone

lemma quiet_of_trace {o : Object} (h : Trace run Legal ⟨none, some o⟩ l) : ∀ c ∈ l, c.IsQuiet := by
  induction l generalizing o with
  | nil => exact nofun
  | cons c l ih =>
    obtain ⟨hc, hl⟩ := h
    rcases c with _ | _ | _ | _
    case string => cases hc
    all_goals exact forall_mem_cons.2 ⟨trivial, ih hl⟩

lemma settled_gone (h : Trace run Legal .gone l) : l.foldl run (l.foldl run .gone) = l.foldl run .gone := by
  induction l with
  | nil => rfl
  | cons c l ih =>
    obtain ⟨hc, hl⟩ := h
    have hsub : l ⊆ c :: l := subset_cons_self c l
    rcases c with _ | slot | pairs | _
    case nothing => exact ih hl
    case string =>
      have hstring : (string slot :: l).foldl run (l.foldl run ⟨some slot, none⟩) = _ :=
        (overwrite_string _).foldl_foldl hsub ⟨slot, rfl⟩
      exact hstring
    case fields =>
      let created : KeyState := gone.withFields pairs
      have hquiet : ∀ c ∈ fields pairs :: l, c.IsQuiet :=
        forall_mem_cons.2 ⟨trivial, quiet_of_trace hl⟩
      have hflds : (fields pairs :: l).foldl run (l.foldl run created) = _ :=
        (overwrite_object hquiet).foldl_foldl hsub ⟨_, rfl⟩
      have htwice : run created (fields pairs) = created :=
        congrArg (fun v : TypedValue => (⟨none, some ⟨v, 0⟩⟩ : KeyState)) (TypedValue.withFields_twice (.hash (some ∅)) pairs)
      rw [foldl_cons, foldl_cons, htwice] at hflds
      exact hflds
    case deadline => exact absurd rfl hc

/-- **Changes that are made again** over the key that they have led to leave it. -/
lemma settled {k : KeyState} (hk : k.Single) (h : Trace run Legal k l) : l.foldl run (l.foldl run k) = l.foldl run k := by
  obtain ⟨str, obj⟩ := k
  cases str with
  | some slot =>
    obtain rfl : obj = none := by simpa [Single] using hk
    exact (overwrite_string l).foldl_foldl (List.Subset.refl l) ⟨slot, rfl⟩
  | none =>
    cases obj with
    | some o => exact (overwrite_object (quiet_of_trace h)).foldl_foldl (List.Subset.refl l) ⟨o, rfl⟩
    | none => exact settled_gone h

end Change

namespace LoggedOp

variable {key newkey : Bytes} {k : KeyState} {op : LoggedOp} {l : List LoggedOp}

def change (key : Bytes) : LoggedOp → Option Change
  | set key' value expireAtNs =>
    some (if key = key' then .string (stringSlot value expireAtNs) else .nothing)
  | mset pairs =>
    some (((lastValue key pairs).map fun value => .string (stringSlot value 0)).getD .nothing)
  | hset key' pairs => some (if key = key' then .fields pairs else .nothing)
  | del keys => if key ∈ keys then none else some .nothing
  | rename _ _ => some .nothing
  | expire key' expireAtNs => some (if key = key' then .deadline expireAtNs else .nothing)
  | persist key' => some (if key = key' then .deadline 0 else .nothing)

lemma act_eq (key : Bytes) (k : KeyState) (op : LoggedOp) : op.act key k = (op.change key).elim .gone (Change.run k) := by
  cases op with
  | mset pairs => cases h : lastValue key pairs <;> simp [act, change, h, Change.run]
  | rename _ _ => rfl
  | _ =>
    simp only [act, change]
    split <;> rfl

lemma mem_pairKeys_of_lastValue {value : Bytes} : ∀ {pairs : List Bytes},
    lastValue key pairs = some value → key ∈ StoreOp.pairKeys pairs
  | [], h | [_], h => nomatch h
  | key' :: value' :: pairs, h => by
    rw [StoreOp.pairKeys, mem_cons]
    rw [lastValue] at h
    cases hlast : lastValue key pairs with
    | some _ => exact .inr (mem_pairKeys_of_lastValue hlast)
    | none =>
      rw [hlast, none_or, ite_none_right_eq_some] at h
      exact .inl h.1.symm

lemma Legal.change {c : Change} (h : op.Legal key k) (hc : op.change key = some c) : c.Legal k := by
  cases op with
  | mset pairs =>
    cases hlast : lastValue key pairs with simp only [LoggedOp.change, hlast] at hc
    | none =>
      cases hc
      trivial
    | some value =>
      cases hc
      exact h (mem_pairKeys_of_lastValue hlast)
  | rename _ _ =>
    cases hc
    trivial
  | del keys =>
    rw [LoggedOp.change, ite_none_left_eq_some] at hc
    cases hc.2
    trivial
  | _ =>
    simp only [LoggedOp.change, some.injEq] at hc
    split at hc
    · next hkey =>
      subst hc
      exact h hkey
    · subst hc
      trivial

lemma foldl_act (h : ∀ op ∈ l, op.change key ≠ none) (k : KeyState) :
    l.foldl (act key) k = (l.filterMap (change key)).foldl Change.run k := by
  induction l generalizing k with
  | nil => rfl
  | cons op l ih =>
    obtain ⟨hop, hl⟩ := forall_mem_cons.1 h
    obtain ⟨c, hc⟩ := ne_none_iff_exists'.1 hop
    rw [foldl_cons, ih hl, filterMap_cons_some hc, foldl_cons, act_eq, hc]
    rfl

lemma trace_changes (h : ∀ op ∈ l, op.change key ≠ none) (htrace : Trace (act key) (Legal key) k l) :
    Trace Change.run Change.Legal k (l.filterMap (change key)) := by
  induction l generalizing k with
  | nil => trivial
  | cons op l ih =>
    obtain ⟨hop, hl⟩ := forall_mem_cons.1 h
    obtain ⟨c, hc⟩ := ne_none_iff_exists'.1 hop
    obtain ⟨hlegal, hrest⟩ := htrace
    have hact : act key k op = c.run k := by rw [act_eq, hc]; rfl
    rw [filterMap_cons_some hc]
    exact ⟨hlegal.change hc, ih hl (hact ▸ hrest)⟩

/-- **A copy settles.** The operations that a copy has, run over it once more, leave it. -/
lemma settled (hk : k.Single) (h : Trace (act key) (Legal key) k l) :
    l.foldl (act key) (l.foldl (act key) k) = l.foldl (act key) k := by
  by_cases hdel : ∃ op ∈ l, op.change key = none
  · obtain ⟨op, hop, hnone⟩ := hdel
    refine foldl_eq_of_reset hop fun k k' => ?_
    rw [act_eq, act_eq, hnone]
    rfl
  · have hkept : ∀ op ∈ l, op.change key ≠ none := fun op hop hnone => hdel ⟨op, hop, hnone⟩
    rw [foldl_act hkept, foldl_act hkept]
    exact Change.settled hk (trace_changes hkept h)

lemma single_act (hk : k.Single) (h : op.Legal key k) : (op.act key k).Single := by
  rw [act_eq]
  cases hc : op.change key with
  | none => exact .inl rfl
  | some c =>
    have hlegal := h.change hc
    obtain ⟨str, obj⟩ := k
    cases c with
    | nothing => exact hk
    | string slot => exact .inr hlegal
    | fields pairs =>
      obtain rfl : str = none := hlegal
      cases obj <;> exact .inl rfl
    | deadline d =>
      rcases hk with rfl | rfl
      · exact .inl rfl
      · rcases str with _ | _ | _ <;> exact .inr rfl

lemma single_foldl (hk : k.Single) (h : Trace (act key) (Legal key) k l) : (l.foldl (act key) k).Single := by
  induction l generalizing k with
  | nil => exact hk
  | cons op l ih => exact ih (single_act hk h.1) h.2

/-! ## What an operation looks at -/

/-- The keys that decide what the operation does to `key`. -/
def reads (op : LoggedOp) (key : Bytes) : Set Bytes :=
  match op with
  | rename a b => {k | k = key ∨ (key = a ∨ key = b) ∧ (k = a ∨ k = b)}
  | _ => {key}

end LoggedOp

end Protocol

namespace World

variable {w w' : World} {a b k : Bytes} {t : Int}

lemma moved_of_ne (ha : k ≠ a) (hb : k ≠ b) : w.moved a b k = w k := by
  unfold moved
  cases hstr : (w a).str with
  | some slot => simp [setStr_apply, setObj_apply, ha, hb]
  | none => cases hobj : (w a).obj <;> simp [setStr_apply, setObj_apply, ha, hb]

lemma moved_congr (ha : w a = w' a) (hb : w b = w' b) (hk : k = a ∨ k = b) : w.moved a b k = w'.moved a b k := by
  unfold moved
  rw [ha]
  cases hstr : (w' a).str with
  | some slot =>
    rcases hk with rfl | rfl <;> simp only [setStr_apply, setObj_apply, ha, hb]
  | none =>
    cases hobj : (w' a).obj with
    | none => rcases hk with rfl | rfl <;> assumption
    | some o => rcases hk with rfl | rfl <;> simp only [setStr_apply, setObj_apply, ha, hb]

/-- The copies that `RENAME` leaves under a key were there, or they are those of the old key. -/
lemma moved_cases (w : World) (a b k : Bytes) : ((w.moved a b k).str = none ∨ (w.moved a b k).str = (w k).str ∨
        k = b ∧ (w.moved a b k).str = (w a).str) ∧
      ((w.moved a b k).obj = none ∨ (w.moved a b k).obj = (w k).obj ∨ k = b ∧ (w.moved a b k).obj = (w a).obj) := by
  unfold moved
  cases hstr : (w a).str with
  | some slot => by_cases ha : k = a <;> by_cases hb : k = b <;> simp_all [setStr_apply, setObj_apply]
  | none =>
    cases hobj : (w a).obj with
    | none => simp
    | some o => by_cases ha : k = a <;> by_cases hb : k = b <;> simp_all [setStr_apply, setObj_apply]

end World

namespace Protocol.LoggedOp

variable {w w' : World} {key : Bytes} {op : LoggedOp} {t : Int}

lemma on_congr (h : ∀ j ∈ op.reads key, w j = w' j) : op.on w key = op.on w' key := by
  cases op with
  | rename a b =>
    by_cases hkey : key = a ∨ key = b
    · exact World.moved_congr (h a (.inr ⟨hkey, .inl rfl⟩)) (h b (.inr ⟨hkey, .inr rfl⟩)) hkey
    · obtain ⟨ha, hb⟩ := not_or.1 hkey
      change w.moved a b key = w'.moved a b key
      rw [World.moved_of_ne ha hb, World.moved_of_ne ha hb]
      exact h key (.inl rfl)
  | _ =>
    have hkey : w key = w' key := h key rfl
    simp only [on, hkey]

lemma on_eq_act (h : ∀ a b, op = rename a b → key ≠ a ∧ key ≠ b) (w : World) : op.on w key = op.act key (w key) := by
  cases op with
  | rename a b => exact World.moved_of_ne (h a b rfl).1 (h a b rfl).2
  | _ => rfl

lemma reads_subset {S : Set Bytes} (hop : ∀ k ∈ op.keys, k ∈ S) (hkey : key ∈ S) : op.reads key ⊆ S := by
  intro j hj
  cases op with
  | rename a b =>
    rcases hj with rfl | ⟨-, rfl | rfl⟩
    · exact hkey
    · exact hop _ mem_cons_self
    · exact hop _ (mem_cons_of_mem _ mem_cons_self)
  | _ =>
    rw [Set.mem_singleton_iff.1 hj]
    exact hkey

end Protocol.LoggedOp

/-! ## Calm keys -/

namespace KeyState

variable {t d : Int} {k : KeyState}

lemma Calm.withStr {value : Bytes} (h : k.Calm t) (ht : 0 ≤ t) (hd : Ahead t d) :
    (k.withStr (stringSlot value d)).Calm t where
  str slot hslot := by
    cases hslot
    refine ⟨rfl, ?_⟩
    change Ahead t (Int64.ofInt d).toInt
    rwa [hd.toInt_ofInt ht]
  obj := h.obj

lemma Calm.withFields {pairs : List Bytes} (h : k.Calm t) : (k.withFields pairs).Calm t := by
  unfold KeyState.withFields
  split
  · refine ⟨nofun, fun o ho => ?_⟩
    cases ho
    exact .inl rfl
  · next o _ ho =>
    refine ⟨nofun, fun o' ho' => ?_⟩
    cases ho'
    exact h.obj o ho
  · exact h

lemma Calm.withDeadline (h : k.Calm t) (ht : 0 ≤ t) (hd : Ahead t d) : (k.withDeadline d).Calm t := by
  unfold KeyState.withDeadline
  split
  · next e he =>
    refine ⟨fun slot hslot => ?_, h.obj⟩
    cases hslot
    refine ⟨rfl, ?_⟩
    change Ahead t (Int64.ofInt d).toInt
    rwa [hd.toInt_ofInt ht]
  · refine ⟨h.str, fun o ho => ?_⟩
    obtain ⟨o', -, rfl⟩ := map_eq_some_iff.1 ho
    exact hd

end KeyState

namespace Protocol.LoggedOp

variable {w : World} {key : Bytes} {op : LoggedOp} {t : Int} {k : KeyState}

lemma calm_act (h : k.Calm t) (ht : 0 ≤ t) (hop : op.Ahead t) : (op.act key k).Calm t := by
  have hzero : AutoCache.Ahead t 0 := .inl rfl
  cases op with simp only [act]
  | set key' value d =>
    split
    · exact h.withStr ht hop
    · exact h
  | mset pairs =>
    cases lastValue key pairs with
    | none => exact h
    | some value => exact h.withStr ht hzero
  | hset key' pairs =>
    split
    · exact h.withFields
    · exact h
  | del keys =>
    split
    · exact calm_gone
    · exact h
  | rename _ _ => exact h
  | expire key' d =>
    split
    · exact h.withDeadline ht (.inr hop)
    · exact h
  | persist key' =>
    split
    · exact h.withDeadline ht hzero
    · exact h

lemma calm_on (h : ∀ j ∈ op.reads key, (w j).Calm t) (ht : 0 ≤ t) (hop : op.Ahead t) : (op.on w key).Calm t := by
  cases op with
  | rename a b =>
    have hkey : (w key).Calm t := h key (.inl rfl)
    obtain ⟨hstr, hobj⟩ := w.moved_cases a b key
    refine ⟨fun slot hslot => ?_, fun o ho => ?_⟩
    · change (w.moved a b key).str = some slot at hslot
      rcases hstr with hnone | hsame | ⟨rfl, hold⟩
      · exact nomatch hnone.symm.trans hslot
      · exact hkey.str slot (hsame.symm.trans hslot)
      · exact (h a (.inr ⟨.inr rfl, .inl rfl⟩)).str slot (hold.symm.trans hslot)
    · change (w.moved a b key).obj = some o at ho
      rcases hobj with hnone | hsame | ⟨rfl, hold⟩
      · exact nomatch hnone.symm.trans ho
      · exact hkey.obj o (hsame.symm.trans ho)
      · exact (h a (.inr ⟨.inr rfl, .inl rfl⟩)).obj o (hold.symm.trans ho)
  | _ => exact calm_act (h key rfl) ht hop

/-! ## Runs of operations within a slot -/

variable {S : Set Bytes} {w' : World} {ops : List LoggedOp}

lemma foldl_congr (hops : ∀ op ∈ ops, ∀ k ∈ op.keys, k ∈ S) (h : ∀ k ∈ S, w k = w' k) :
    ∀ k ∈ S, ops.foldl on w k = ops.foldl on w' k := by
  induction ops generalizing w w' with
  | nil => exact h
  | cons op ops ih =>
    obtain ⟨hop, hrest⟩ := forall_mem_cons.1 hops
    exact ih hrest fun k hk => on_congr fun j hj => h j (reads_subset hop hk hj)

lemma calm_foldl (hops : ∀ op ∈ ops, ∀ k ∈ op.keys, k ∈ S) (ht : 0 ≤ t) (hahead : ∀ op ∈ ops, op.Ahead t)
    (h : ∀ k ∈ S, (w k).Calm t) : ∀ k ∈ S, (ops.foldl on w k).Calm t := by
  induction ops generalizing w with
  | nil => exact h
  | cons op ops ih =>
    obtain ⟨hop, hrest⟩ := forall_mem_cons.1 hops
    obtain ⟨hnext, hlater⟩ := forall_mem_cons.1 hahead
    exact ih hrest hlater fun k hk => calm_on (fun j hj => h j (reads_subset hop hk hj)) ht hnext

end Protocol.LoggedOp

lemma Store.live_of_calm {s : Store Cache} {now t : Int} {key : Bytes} (h : now ≤ t)
    (hcalm : (s.live now key).Calm t) : s.live t key = s.live now key := by
  rw [Store.live_later h]
  ext1
  · change (s.live now key).str.filter (Slot.Live key t) = _
    cases hstr : (s.live now key).str with
    | none => rfl
    | some slot =>
      obtain ⟨e, rfl, hahead⟩ := hcalm.entry hstr
      exact filter_some_pos (decide_eq_true ⟨(Store.lookup_of_live hstr).2.1, hahead.not_expired⟩)
  · change (s.live now key).obj.filter (¬ Object.expired · t) = _
    cases hobj : (s.live now key).obj with
    | none => rfl
    | some o => exact filter_some_pos (decide_eq_true (hcalm.obj o hobj).not_expired_object)

end AutoCache
