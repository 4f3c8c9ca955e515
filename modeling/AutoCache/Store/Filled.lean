import AutoCache.Lib.Runs
import AutoCache.Store.CollectionCalls
import AutoCache.Store.Reads

/-!
# Stored collections are not empty

A call that adds to a collection stores an empty one first, when the key is new, and looks at its
arguments one by one after that. Called from Go they can have any type; the call ends at the first that is
no string, and what it has stored stays. `RestoreEntry` stores whatever its payload decodes to. All other
calls leave only collections that have elements.
-/

namespace AutoCache

open AutoCache.Ring TypedValue GoMap Store

/-- The collection has elements, and its map is not nil. -/
def TypedValue.Filled : TypedValue → Prop
  | .hash none => False
  | .hash (some fields) => fields ≠ ∅
  | .list items => items ≠ []
  | .set members => members ≠ ∅
  | .zset scores => scores ≠ ∅

/-- All collections of the dictionary have elements, also those that have expired. -/
def Store.Filled {σ : Type} (s : Store σ) : Prop :=
  ∀ key o, s.objects.lookup key = some o → o.value.Filled

namespace Store

open Hoare Hoare.Keeps

variable {σ α β : Type} {E : Engine σ}

/-! ## Programs that keep collections filled -/

namespace Filled

variable {x : StoreM σ α} {key value : Bytes} {ttl now : Int}

/-- A program that stores nothing in the dictionary. -/
lemma of_objects (h : ∀ s a s', x s = .ok (a, s') → ∀ key o, s'.objects.lookup key = some o →
    s.objects.lookup key = some o) : Keeps Filled x :=
  ⟨fun s a s' hs hr key o ho => hs key o (h s a s' hr key o ho)⟩

instance onShards (call : σ → Go (σ × α)) : Keeps Filled (onShards call) := by
  refine of_objects fun s a s' h => ?_
  obtain ⟨⟨shards, a'⟩, -, hs⟩ := Go.bind_eq_ok.1 h
  cases hs
  exact fun _ _ ho => ho

instance trackKey (key : Bytes) : Keeps Filled (trackKey E key) := by
  refine of_objects fun s a s' h => ?_
  obtain ⟨index, hrun⟩ := trackKey_run E key s
  cases hrun.symm.trans h
  exact fun _ _ ho => ho

instance untrackKey (key : Bytes) : Keeps Filled (untrackKey E key) := by
  refine of_objects fun s a s' h => ?_
  obtain ⟨index, hrun⟩ := untrackKey_run E key s
  cases hrun.symm.trans h
  exact fun _ _ ho => ho

instance objectGet (key : Bytes) (now : Int) : Keeps Filled (objectGet key now : StoreM σ _) := by
  refine of_objects fun s a s' h => ?_
  rcases objectGet_cases key now s with hget | ⟨o, -, -, hget⟩ <;> cases hget.symm.trans h
  · exact fun _ _ ho => GoMap.lookup_of_erase ho
  · exact fun _ _ ho => ho

instance objectDel (key : Bytes) : Keeps Filled (objectDel key : StoreM σ _) := by
  refine of_objects fun s a s' h => ?_
  cases (objectDel_run key s).symm.trans h
  exact fun _ _ ho => GoMap.lookup_of_erase ho

instance clear : Keeps Filled (flushDB E) :=
  of_objects fun _ _ _ h => by
    cases h
    exact fun _ _ ho => by simp at ho

lemma insert {s : Store σ} {o : Object} (hs : s.Filled) (ho : o.value.Filled) :
    ({ s with objects := s.objects.insert key o } : Store σ).Filled := by
  intro k o' hk
  rw [lookup_insert_eq] at hk
  split at hk
  · cases hk
    exact ho
  · exact hs k o' hk

lemma objectSetEntry {o : Object} (h : o.value.Filled) : Keeps Filled (objectSetEntry key o : StoreM σ _) :=
  ⟨fun s a s' hs hr => by
    cases hr
    exact insert hs h⟩

lemma objectPut {v : TypedValue} (h : v.Filled) : Keeps Filled (objectPut key v : StoreM σ _) := by
  refine ⟨fun s a s' hs hr => ?_⟩
  unfold Store.objectPut at hr
  split at hr <;> cases hr
  · exact hs
  · exact insert hs h

instance objectExpire (key : Bytes) (ttl now : Int) :
    Keeps Filled (objectExpire key ttl now : StoreM σ _) := by
  refine ⟨fun s a s' hs hr => ?_⟩
  unfold Store.objectExpire at hr
  split at hr
  · cases hr
    exact hs
  · next o ho =>
    split at hr <;> cases hr
    · exact hs
    · exact insert hs (hs key o ho)

/-! ## The calls that store no collection -/

instance : Keeps Filled (cacheGet E key now) := onShards _
instance : Keeps Filled (cacheTTL E key now) := onShards _
instance : Keeps Filled (cacheExpire E key ttl now) := onShards _
instance : Keeps Filled (cacheSetXX E key value ttl now) := onShards _
instance (o : WriteOutcome) : Keeps Filled (trackAppended E key o) := ite
instance : Keeps Filled (cacheSet E key value ttl now) := bind
instance : Keeps Filled (cacheSetNX E key value ttl now) := bind
instance : Keeps Filled (cacheDelete E key) := bind
instance : Keeps Filled (deleteObjectKey E key) := bind
instance : Keeps Filled (setXX E key value ttl now) := bind
instance : Keeps Filled (getSet E key value now) := bind
instance : Keeps Filled (append E key value now) := bind

instance (delta : Int) : Keeps Filled (cacheIncrBy E key delta now) := by
  refine then_ fun o => ?_
  split <;> infer_instance

/-- The collection that moves was there before. -/
instance (newkey : Bytes) : Keeps Filled (rename E key newkey now) := by
  refine then_ fun v => ?_
  split
  · infer_instance
  refine ⟨Triple.bind (Q := fun r s => s.Filled ∧ ∀ o ∈ r, o.value.Filled) ?_ fun r => ?_⟩
  · intro s r s' hs hr
    refine ⟨(objectGet key now).triple s r s' hs hr, ?_⟩
    rcases objectGet_cases key now s with hget | ⟨o, ho, -, hget⟩ <;> cases hget.symm.trans hr
    · exact nofun
    · rintro _ ⟨⟩
      exact hs key o ho
  · intro s a s' ⟨hs, hr⟩
    cases r with
    | none => exact triple s a s' hs
    | some o =>
      have := @objectSetEntry σ newkey o (hr o rfl)
      exact triple s a s' hs

/-! ## The calls that take something out -/

lemma putOrDelete {empty : Bool} {v : TypedValue} (h : empty = false → v.Filled) :
    Keeps Filled (putOrDelete E key empty v) := by
  cases empty with
  | true => exact bind
  | false => exact objectPut (h rfl)

instance (fields : List Bytes) : Keeps Filled (hdel E key fields now) := by
  refine then_ fun r => ?_
  split <;> try infer_instance
  rename_i hash
  have := @putOrDelete σ E key _ (.hash (some (delFields (hash.getD ∅) fields).1)) of_decide_eq_false
  exact bind

instance (values : List Bytes) : Keeps Filled (srem E key values now) := by
  refine then_ fun r => ?_
  split <;> try infer_instance
  rename_i members
  have := @putOrDelete σ E key _ (.set (remMembers members values).1) of_decide_eq_false
  exact bind

instance (values : List Bytes) : Keeps Filled (zrem E key values now) := by
  refine then_ fun r => ?_
  split <;> try infer_instance
  rename_i scores
  have := @putOrDelete σ E key _ (.zset (remScores scores values).1) of_decide_eq_false
  exact bind

instance (left : Bool) : Keeps Filled (popList E key left now) := by
  refine then_ fun r => ?_
  split
  · infer_instance
  · next items =>
    split
    · infer_instance
    · have := @putOrDelete σ E key _ (.list (if left then items.tail else items.dropLast))
        of_decide_eq_false
      exact bind

/-- What `normalizeIndex` finds is inside. -/
instance (index : Int) : Keeps Filled (lset E key index value now) := by
  refine then_ fun r => ?_
  split
  · infer_instance
  rename_i items
  split
  · infer_instance
  · next i hi =>
    have hfilled : (list (items.set i value)).Filled := by
      intro hnil
      rw [List.set_eq_nil_iff] at hnil
      simp [normalizeIndex, hnil] at hi
    have := @objectPut σ key _ hfilled
    exact bind

instance (start stop : Int) : Keeps Filled (ltrim E key start stop now) := by
  refine then_ fun r => ?_
  split <;> try infer_instance
  split
  · infer_instance
  · next items _ i j hij =>
    have := @objectPut σ key (.list (slice items i j)) (slice_ne_nil hij)
    exact bind

end Filled

/-! ## Arguments of any type -/

/-- An argument of a call from Go: a string, or something else. -/
inductive Arg where
  | text (s : Bytes)
  | other

def counted : Option Int → Except StoreError Int
  | some count => .ok count
  | none => .error .invalidArgs

/-- The loop of `HSet`: what it leaves in the map, and how many fields are new. -/
def setArgs (fields : GoMap Bytes Bytes) : List Arg → GoMap Bytes Bytes × Option Int
  | .text field :: .text value :: args =>
    let r := setArgs (fields.insert field value) args
    (r.1, r.2.map ((if field ∈ fields then 0 else 1) + ·))
  | [] => (fields, some 0)
  | _ => (fields, none)

/-- The loop of `SAdd`. -/
def addArgs (members : Finset Bytes) : List Arg → Finset Bytes × Option Int
  | [] => (members, some 0)
  | .text member :: args =>
    let r := addArgs (insert member members) args
    (r.1, r.2.map ((if member ∈ members then 0 else 1) + ·))
  | .other :: _ => (members, none)

/-- The loop of `SRem`. -/
def remArgs (members : Finset Bytes) : List Arg → Finset Bytes × Option Int
  | [] => (members, some 0)
  | .text member :: args =>
    let r := remArgs (members.erase member) args
    (r.1, r.2.map ((if member ∈ members then 1 else 0) + ·))
  | .other :: _ => (members, none)

def texts : List Arg → Option (List Bytes)
  | [] => some []
  | .text item :: args => (texts args).map (item :: ·)
  | .other :: _ => none

variable (E)

def put (key : Bytes) (filled : Go (TypedValue × Except StoreError Int)) :
    StoreM σ (Except StoreError Int) := fun s => do
  let (value, result) ← filled
  let (_, s) ← objectPut key value s
  return (result, s)

/-- A call that adds: `fill` is its loop over the arguments, `stored` the type of the collection. -/
def addTo (as : TypedValue → Option α) (empty : α) (stored : α → TypedValue)
    (fill : α → Go (TypedValue × Except StoreError Int)) (key : Bytes) (now : Int) :
    StoreM σ (Except StoreError Int) := do
  match ← getTyped E as key now with
  | .ok a => put key (fill a)
  | .error .keyNotFound =>
    newCollection E key (stored empty) now
    put key (fill empty)
  | .error e => return .error e

/-- `HSet` on a nil map panics at the first assignment. -/
def fillHash (args : List Arg) : Option (GoMap Bytes Bytes) → Go (TypedValue × Except StoreError Int)
  | some fields => return (.hash (some (setArgs fields args).1), counted (setArgs fields args).2)
  | none =>
    match args with
    | .text _ :: .text _ :: _ => throw .nilMap
    | _ => return (.hash none, .error .invalidArgs)

def fillList (left : Bool) (args : List Arg) (items : List Bytes) :
    Go (TypedValue × Except StoreError Int) :=
  match texts args with
  | none => return (.list items, .error .invalidArgs)
  | some values =>
    let items := if left then values.reverse ++ items else items ++ values
    return (.list items, .ok items.length)

def fillSet (args : List Arg) (members : Finset Bytes) : Go (TypedValue × Except StoreError Int) :=
  return (.set (addArgs members args).1, counted (addArgs members args).2)

/-- `HSet` with arguments of any type. -/
def hsetAny (key : Bytes) (args : List Arg) (now : Int) : StoreM σ (Except StoreError Int) :=
  if args.length = 0 ∨ args.length % 2 ≠ 0 then return .error .invalidArgs
  else addTo E asHash? (some ∅) .hash (fillHash args) key now

def pushListAny (key : Bytes) (left : Bool) (args : List Arg) (now : Int) :
    StoreM σ (Except StoreError Int) :=
  if args.length = 0 then return .error .invalidArgs
  else addTo E asList? [] .list (fillList left args) key now

def saddAny (key : Bytes) (args : List Arg) (now : Int) : StoreM σ (Except StoreError Int) :=
  if args.length = 0 then return .error .invalidArgs
  else addTo E asSet? ∅ .set (fillSet args) key now

/-- `SRem` with arguments of any type; when it ends early it does not look whether the set is empty. -/
def sremAny (key : Bytes) (args : List Arg) (now : Int) : StoreM σ (Except StoreError Int) := do
  match ← getSetValue E key now with
  | .error .keyNotFound => return .ok 0
  | .error e => return .error e
  | .ok members =>
    match remArgs members args with
    | (left, none) =>
      objectPut key (.set left)
      return .error .invalidArgs
    | (left, some removed) =>
      putOrDelete E key (left = ∅) (.set left)
      return .ok removed

variable {E}

/-! The calls with strings only are those of the server. -/

lemma setArgs_text : ∀ (pairs : List Bytes) (fields : GoMap Bytes Bytes), pairs.length % 2 = 0 →
    setArgs fields (pairs.map .text) = ((setFields fields pairs).1, some (setFields fields pairs).2)
  | [], _, _ => rfl
  | [_], _, h => nomatch h
  | field :: value :: pairs, fields, h => by
    rw [List.length_cons, List.length_cons] at h
    have ih := setArgs_text pairs (fields.insert field value) (by omega)
    simp only [List.map_cons, setArgs, ih, setFields, Option.map_some]

lemma addArgs_text (values : List Bytes) (members : Finset Bytes) : addArgs members (values.map .text) =
      ((addMembers members values).1, some (addMembers members values).2) := by
  induction values generalizing members with
  | nil => rfl
  | cons member values ih => simp only [List.map_cons, addArgs, ih, addMembers, Option.map_some]

lemma texts_text (values : List Bytes) : texts (values.map .text) = some values := by
  induction values with
  | nil => rfl
  | cons item values ih => simp only [List.map_cons, texts, ih, Option.map_some]

/-- A program that begins like `addTo` and goes on like it. -/
lemma eq_addTo {as : TypedValue → Option α} {empty : α} {stored : α → TypedValue}
    {fill : α → Go (TypedValue × Except StoreError Int)} {key : Bytes} {now : Int}
    {f : Except StoreError α → StoreM σ (Except StoreError Int)}
    (hok : ∀ a, f (.ok a) = put key (fill a))
    (hnew : f (.error .keyNotFound) = (newCollection E key (stored empty) now >>= fun _ => put key (fill empty)))
    (herr : ∀ e, e ≠ .keyNotFound → f (.error e) = return .error e := by
      rintro (_ | _) h <;> first | rfl | exact absurd rfl h) :
    getTyped E as key now >>= f = addTo E as empty stored fill key now := by
  refine congrArg (getTyped E as key now >>= ·) (funext fun r => ?_)
  match r with
  | .ok a => exact hok a
  | .error e => cases e <;> first | exact hnew | exact herr _ nofun

lemma put_pure (key : Bytes) (v : TypedValue) (r : Except StoreError Int) :
    (put key (return (v, r)) : StoreM σ _) = (objectPut key v >>= fun _ => return r) := rfl

lemma hset_eq_any (key : Bytes) (pairs : List Bytes) (now : Int) :
    hset E key pairs now = hsetAny E key (pairs.map .text) now := by
  unfold hset hsetAny
  rw [List.length_map]
  split
  · rfl
  rename_i hpairs
  have hargs := fun fields => setArgs_text pairs fields (by omega)
  refine eq_addTo (fun fields => ?_) ?_
  · cases fields with
    | none =>
      match pairs, hpairs with
      | [], hpairs => exact absurd (.inl rfl) hpairs
      | [_], hpairs => exact absurd (.inr (by simp)) hpairs
      | _ :: _ :: _, _ => rfl
    | some fields =>
      rw [fillHash, hargs, put_pure]
      rfl
  · rw [fillHash, hargs, put_pure]
    rfl

lemma pushList_eq_any (key : Bytes) (left : Bool) (values : List Bytes) (now : Int) :
    pushList E key left values now = pushListAny E key left (values.map .text) now := by
  cases values with
  | nil => rfl
  | cons item items =>
    refine eq_addTo (fun items => ?_) ?_ <;> rw [fillList, texts_text] <;> rfl

lemma sadd_eq_any (key : Bytes) (values : List Bytes) (now : Int) :
    sadd E key values now = saddAny E key (values.map .text) now := by
  cases values with
  | nil => rfl
  | cons member members =>
    refine eq_addTo (fun members => ?_) ?_ <;> rw [fillSet, addArgs_text, put_pure] <;> rfl

lemma zadd_eq_addTo (key : Bytes) (value : Score × Bytes) (values : List (Score × Bytes)) (now : Int) :
    zadd E key (value :: values) now = addTo E asZSet? ∅ .zset (fun scores =>
      return (.zset (addScores scores (value :: values)).1, .ok (addScores scores (value :: values)).2)) key now :=
  eq_addTo (fun scores => rfl) rfl

/-! ## Calls that store collections -/

section Logical

variable {L : LogicalConfig} {s s' : Store Cache} {key : Bytes} {now : Int}

/-- A collection that a call finds is one of the dictionary. -/
lemma typed_eq_ok {w : World} {as : TypedValue → Option α} {a : α} (h : w.typed key as = .ok a) :
    ∃ o, (w key).obj = some o ∧ as o.value = some a := by
  unfold World.typed at h
  split at h
  · cases h
  · split at h
    · cases h
    · next o ho =>
      split at h <;> cases h
      next ha => exact ⟨o, ho, ha⟩

lemma typed_eq_error {w : World} {as : TypedValue → Option α} {e : StoreError}
    (h : w.typed key as = .error e) : e = .keyNotFound ∨ e = .wrongType := by
  unfold World.typed at h
  split at h
  · exact .inr (Except.error.inj h).symm
  · split at h
    · exact .inl (Except.error.inj h).symm
    · split at h <;> cases h
      exact .inr rfl

lemma typed_eq_keyNotFound_iff {w : World} {as : TypedValue → Option α} :
    w.typed key as = .error .keyNotFound ↔ w.has key = false := by
  unfold World.typed World.has
  cases (w key).str with
  | some slot => simp
  | none =>
    cases (w key).obj with
    | none => simp
    | some o => cases h : as o.value <;> simp [h]

lemma filled_insert_iff {o : Object} {objects : GoMap Bytes Object} (hs : s.Filled)
    (hobjects : ∀ k, k ≠ key → objects.lookup k = s.objects.lookup k)
    (h : s'.objects = objects.insert key o) : s'.Filled ↔ o.value.Filled := by
  constructor
  · intro hs'
    exact hs' key o (by rw [h, lookup_insert_eq, if_pos rfl])
  · intro ho k o' hk
    rw [h, lookup_insert_eq] at hk
    split at hk
    · cases hk
      exact ho
    · next hne => exact hs k o' (by rwa [hobjects k hne] at hk)

lemma objectSet_stored {v : TypedValue} {ttl : Int} (r : α) :
    Triple (fun _ => True) (objectSet key v ttl now >>= fun _ => trackKey E key >>= fun _ => Pure.pure r)
      fun _ s => s.objects.lookup key = some ⟨v, objectDeadline ttl now⟩ := by
  intro s a s' _ hr
  obtain ⟨index, ht⟩ := trackKey_run E key { s with objects := s.objects.insert key ⟨v, objectDeadline ttl now⟩ }
  change (trackKey E key { s with objects := s.objects.insert key ⟨v, objectDeadline ttl now⟩ } >>= _) = _ at hr
  rw [ht] at hr
  cases hr
  rw [lookup_insert_eq, if_pos rfl]

/-- **A call that adds** leaves something in a new collection, or spoils the dictionary. -/
lemma addTo_filled_iff {as : TypedValue → Option α} {empty : α} {stored : α → TypedValue}
    {fill : α → Go (TypedValue × Except StoreError Int)} (hs : s.Filled)
    (has : ∀ v a, as v = some a → v = stored a)
    (hfill : ∀ a v r, (stored a).Filled → fill a = .ok (v, r) → v.Filled) :
    (∀ r s', addTo L.engine as empty stored fill key now s = .ok (r, s') → s'.Filled) ↔
      ((s.live now).has key = false → ∀ v r, fill empty = .ok (v, r) → v.Filled) := by
  obtain ⟨s₁, hget, -⟩ := (@getTyped_acts L key now α as).run s
  have hs₁ : s₁.Filled := (getTyped_keeps as key now).triple s _ s₁ hs hget
  unfold addTo
  rw [Views.run_bind hget, ← @typed_eq_keyNotFound_iff α key _ as]
  rcases htyped : (s.live now).typed key as with e | a
  · rcases typed_eq_error htyped with rfl | rfl
    · obtain ⟨index, hnew⟩ := trackKey_run L.engine key { s₁ with objects := s₁.objects.insert key ⟨stored empty, 0⟩ }
      obtain ⟨s₂, hnew, hobjects⟩ : ∃ s₂, newCollection L.engine key (stored empty) now s₁ = .ok ((), s₂) ∧
        s₂.objects = s₁.objects.insert key ⟨stored empty, 0⟩ := ⟨_, hnew, rfl⟩
      have hoth : ∀ k, k ≠ key → s₂.objects.lookup k = s₁.objects.lookup k := fun k hk => by
        rw [hobjects, lookup_insert_eq, if_neg hk]
      dsimp only
      rw [Views.run_bind hnew]
      unfold put
      cases hempty : fill empty with
      | error fault => exact iff_of_true nofun nofun
      | ok p =>
        obtain ⟨v, r⟩ := p
        have hput : objectPut key v s₂ = .ok ((), { s₂ with objects := s₂.objects.insert key ⟨v, 0⟩ }) := by
          simp only [objectPut, hobjects, lookup_insert_eq, if_true]
          rfl
        simp only [Go.ok_bind, hput]
        constructor
        · intro h _ v' r' hv
          cases hv
          exact (filled_insert_iff hs₁ hoth rfl).1 (h r _ rfl)
        · intro h r' s' hr
          cases hr
          exact (filled_insert_iff hs₁ hoth rfl).2 (h trivial v r rfl)
    · refine iff_of_true (fun r s' hr => ?_) nofun
      cases hr
      exact hs₁
  · obtain ⟨o, ho, ha⟩ := typed_eq_ok htyped
    have hfilled := hs key o (Option.filter_eq_some_iff.1 ho).1
    rw [has o.value a ha] at hfilled
    refine iff_of_true (fun r s' hr => ?_) nofun
    obtain ⟨⟨v, result⟩, hv, hr⟩ := Go.bind_eq_ok.1 hr
    obtain ⟨⟨u, t⟩, hput, hr⟩ := Go.bind_eq_ok.1 hr
    have hkept := (Filled.objectPut (hfill a v result hfilled hv)).triple s₁ u t hs₁ hput
    cases hr
    exact hkept

/-! What the loops leave of a collection that has elements has elements. -/

lemma insert_ne_empty {V : Type} (m : GoMap Bytes V) (a : Bytes) (v : V) : m.insert a v ≠ ∅ := by
  intro h
  have hlk := congrArg (fun m => m.lookup a) h
  simp at hlk

lemma setArgs_ne_empty {fields : GoMap Bytes Bytes} (h : fields ≠ ∅) (args : List Arg) : (setArgs fields args).1 ≠ ∅ := by
  fun_induction setArgs fields args with
  | case1 fields field value args r ih => exact ih (insert_ne_empty _ _ _)
  | case2 | case3 => exact h

lemma addArgs_ne_empty {members : Finset Bytes} (h : members ≠ ∅) (args : List Arg) : (addArgs members args).1 ≠ ∅ := by
  fun_induction addArgs members args with
  | case1 => exact h
  | case2 members member args r ih => exact ih (Finset.insert_ne_empty _ _)
  | case3 => exact h

lemma addScores_ne_empty {scores : GoMap Bytes Score} (h : scores ≠ ∅) (values : List (Score × Bytes)) :
    (addScores scores values).1 ≠ ∅ := by
  fun_induction addScores scores values with
  | case1 => exact h
  | case2 scores score member rest r ih => exact ih (insert_ne_empty _ _ _)

lemma fillHash_filled {args : List Arg} {fields : Option (GoMap Bytes Bytes)} {v : TypedValue}
    {r : Except StoreError Int} (h : (hash fields).Filled)
    (hv : fillHash args fields = .ok (v, r)) : v.Filled := by
  cases fields with
  | none => exact h.elim
  | some fields =>
    cases hv
    exact setArgs_ne_empty h args

lemma fillList_filled {left : Bool} {args : List Arg} {items : List Bytes} {v : TypedValue}
    {r : Except StoreError Int} (h : items ≠ []) (hv : fillList left args items = .ok (v, r)) :
    v.Filled := by
  unfold fillList at hv
  split at hv <;> cases hv
  · exact h
  · change (if left then _ else _ : List Bytes) ≠ []
    split <;> simp [h]

variable (s) in
def Fills (x : StoreM Cache α) : Prop := ∀ r s', x s = .ok (r, s') → s'.Filled

/-- A call that looks at the number of its arguments first. -/
lemma fills_guarded_iff (hs : s.Filled) {c : Prop} [Decidable c] {x : StoreM Cache (Except StoreError Int)} :
    s.Fills (if c then return .error .invalidArgs else x) ↔ c ∨ s.Fills x := by
  by_cases hc : c
  · rw [if_pos hc]
    refine iff_of_true (fun r s' hr => ?_) (.inl hc)
    cases hr
    exact hs
  · rw [if_neg hc, or_iff_right hc]

lemma fills_ignore_iff {x : StoreM Cache α} : s.Fills (StoreOp.ignore x) ↔ s.Fills x := by
  constructor
  · intro h r s' hr
    exact h () s' (Views.run_bind hr)
  · intro h r s' hr
    obtain ⟨⟨b, t⟩, hb, hr⟩ := Go.bind_eq_ok.1 hr
    cases hr
    exact h b _ hb

section

variable (hs : s.Filled)
include hs

lemma fills_hset_iff {args : List Arg} : s.Fills (hsetAny L.engine key args now) ↔ (args.length = 0 ∨ args.length % 2 ≠ 0) ∨
      ((s.live now).has key = false → ∀ v r, fillHash args (some ∅) = .ok (v, r) → v.Filled) :=
  (fills_guarded_iff hs).trans (or_congr_right
    (addTo_filled_iff hs (by rintro (_ | _ | _ | _) _ ⟨⟩; rfl) fun _ _ _ => fillHash_filled))

lemma fills_pushList_iff {left : Bool} {args : List Arg} :
    s.Fills (pushListAny L.engine key left args now) ↔ args.length = 0 ∨
      ((s.live now).has key = false → ∀ v r, fillList left args [] = .ok (v, r) → v.Filled) :=
  (fills_guarded_iff hs).trans (or_congr_right
    (addTo_filled_iff hs (by rintro (_ | _ | _ | _) _ ⟨⟩; rfl) fun _ _ _ => fillList_filled))

lemma fills_sadd_iff {args : List Arg} : s.Fills (saddAny L.engine key args now) ↔ args.length = 0 ∨
      ((s.live now).has key = false → ∀ v r, fillSet args ∅ = .ok (v, r) → v.Filled) := by
  refine (fills_guarded_iff hs).trans (or_congr_right ?_)
  refine addTo_filled_iff hs (by rintro (_ | _ | _ | _) _ ⟨⟩; rfl) fun members v r h hv => ?_
  cases hv
  exact addArgs_ne_empty h args

lemma fills_zadd (values : List (Score × Bytes)) : s.Fills (zadd L.engine key values now) := by
  cases values with
  | nil => exact (fills_guarded_iff hs).2 (.inl rfl)
  | cons value values =>
    have hne : ∀ scores, (addScores scores (value :: values)).1 ≠ ∅ := fun scores =>
      addScores_ne_empty (insert_ne_empty _ _ _) values
    rw [zadd_eq_addTo]
    refine (addTo_filled_iff hs (by rintro (_ | _ | _ | _) _ ⟨⟩; rfl) fun scores v r _ hv => ?_).2 fun _ v r hv => ?_
    · cases hv
      exact hne scores
    · cases hv
      exact hne ∅

/-- **`SRem`** leaves an empty set if it ends early when all members are gone. -/
lemma fills_srem_iff {args : List Arg} : s.Fills (sremAny L.engine key args now) ↔
      ∀ members, (s.live now).typed key asSet? = .ok members →
        (remArgs members args).2 = none → (remArgs members args).1 ≠ ∅ := by
  obtain ⟨s₁, hget, hlive⟩ := (@getTyped_acts L key now _ asSet?).run s
  have hs₁ : s₁.Filled := (getTyped_keeps _ key now).triple s _ s₁ hs hget
  unfold Fills sremAny getSetValue
  rw [Views.run_bind hget]
  rcases htyped : (s.live now).typed key asSet? with e | members
  · refine iff_of_true (fun r s' hr => ?_) nofun
    rcases typed_eq_error htyped with rfl | rfl <;> cases hr <;> exact hs₁
  obtain ⟨o, ho⟩ : ∃ o, s₁.objects.lookup key = some o := by
    obtain ⟨o, ho, -⟩ := typed_eq_ok htyped
    rw [← show s₁.live now = s.live now from hlive] at ho
    exact ⟨o, (Option.filter_eq_some_iff.1 ho).1⟩
  rcases hrem : remArgs members args with ⟨left, removed⟩
  cases removed with
  | none =>
    have hput : objectPut key (.set left) s₁ =
        .ok ((), { s₁ with objects := s₁.objects.insert key { o with value := .set left } }) := by
      simp only [objectPut, ho]
      rfl
    have hiff := @filled_insert_iff s₁ { s₁ with objects := s₁.objects.insert key ⟨.set left, o.expireAt⟩ }
      key ⟨.set left, o.expireAt⟩ s₁.objects hs₁ (fun _ _ => rfl) rfl
    dsimp only
    rw [hrem]
    dsimp only
    rw [Views.run_bind hput]
    constructor
    · intro h members' hm _
      cases hm
      rw [hrem]
      exact hiff.1 (h _ _ rfl)
    · intro h r s' hr
      cases hr
      have hleft := h members rfl
      rw [hrem] at hleft
      exact hiff.2 (hleft rfl)
  | some removed =>
    have := @Filled.putOrDelete Cache L.engine key (left = ∅) (.set left) of_decide_eq_false
    refine iff_of_true (fun r s' hr => ?_) fun members' h => ?_
    · dsimp only at hr
      rw [hrem] at hr
      exact Keeps.bind.triple s₁ r s' hs₁ hr
    · cases h
      rw [hrem]
      exact nofun

/-- **`RestoreEntry`** stores what its payload decodes to. -/
lemma fills_restoreEntry_iff {type : ValueType} {payload : Bytes} {ttl : Int} :
    s.Fills (restoreEntry L.engine key type payload ttl now) ↔
      ∀ v, restoredValue L type payload = .ok (.object v) → v.Filled := by
  by_cases htype : type = .string
  · subst htype
    exact iff_of_true (fun r s' => Keeps.bind.triple s r s' hs) nofun
  have hval : restoredValue L type payload = (L.unmarshal type payload).map .object := by
    cases type <;> first | rfl | exact absurd rfl htype
  rw [hval, restoreEntry_of_object htype, show L.engine.unmarshal = L.unmarshal from rfl]
  cases hv : L.unmarshal type payload with
  | error text => exact iff_of_true (fun r s' => (Keeps.pure _).triple s r s' hs) nofun
  | ok v =>
    constructor
    · intro h w hw
      cases hw
      obtain ⟨s', hrun, -⟩ := (@restoreEntry_acts L key ttl now type payload).run s
      rw [restoreEntry_of_object htype, show L.engine.unmarshal = L.unmarshal from rfl, hv] at hrun
      have hany : ∀ {β : Type} (x : StoreM Cache β), Triple (fun _ => True) x fun _ _ => True :=
        fun _ _ _ _ _ _ => trivial
      exact h _ s' hrun key ⟨v, objectDeadline ttl now⟩ ((Triple.bind (hany _) fun _ =>
        Triple.bind (hany _) fun _ => objectSet_stored _) s _ s' trivial hrun)
    · intro h r s'
      have : Keeps Filled (objectSet key v ttl now : StoreM Cache _) := Filled.objectSetEntry (h v rfl)
      exact Keeps.bind.triple s r s' hs

end

/-! ## Runs -/

/-- A call of the server, or one from Go with arguments of any type. -/
inductive DictCall where
  | call (op : StoreOp)
  | hset (key : Bytes) (args : List Arg) (now : Int)
  | pushList (key : Bytes) (left : Bool) (args : List Arg) (now : Int)
  | sadd (key : Bytes) (args : List Arg) (now : Int)
  | srem (key : Bytes) (args : List Arg) (now : Int)

namespace DictCall

variable (E) in
def run : DictCall → StoreM σ Unit
  | .call op => op.run E
  | .hset key args now => StoreOp.ignore (hsetAny E key args now)
  | .pushList key left args now => StoreOp.ignore (pushListAny E key left args now)
  | .sadd key args now => StoreOp.ignore (saddAny E key args now)
  | .srem key args now => StoreOp.ignore (sremAny E key args now)

variable (E) in
def step (s : Store σ) (c : DictCall) : Go (Store σ) := do
  let (_, s) ← c.run E s
  return s

/-- The call leaves something in what it stores: the payload of `RESTORE` has elements, a call that creates
a collection gets far enough to add one, and `SRem` does not end early with nothing left. -/
def LeavesElements (L : LogicalConfig) (s : Store Cache) : DictCall → Prop
  | .call (.restoreEntry _ type payload _ _) =>
    ∀ v, restoredValue L type payload = .ok (.object v) → v.Filled
  | .call _ => True
  | .hset key args now => (args.length = 0 ∨ args.length % 2 ≠ 0) ∨
    ((s.live now).has key = false → ∀ v r, fillHash args (some ∅) = .ok (v, r) → v.Filled)
  | .pushList key left args now => args.length = 0 ∨
    ((s.live now).has key = false → ∀ v r, fillList left args [] = .ok (v, r) → v.Filled)
  | .sadd key args now => args.length = 0 ∨
    ((s.live now).has key = false → ∀ v r, fillSet args ∅ = .ok (v, r) → v.Filled)
  | .srem key args now => ∀ members, (s.live now).typed key asSet? = .ok members →
    (remArgs members args).2 = none → (remArgs members args).1 ≠ ∅

/-- The calls of the server fill what they create. -/
lemma fills_call (hs : s.Filled) {op : StoreOp} (h : (call op).LeavesElements L s) : s.Fills (op.run L.engine) := by
  have hkp {β : Type} (x : StoreM Cache β) [hx : Keeps Filled x] : s.Fills x :=
    fun r s' => hx.triple s r s' hs
  cases op with try refine fills_ignore_iff.2 ?_
  | restoreEntry => exact (fills_restoreEntry_iff hs).2 h
  | hset key pairs now =>
    rw [hset_eq_any, fills_hset_iff hs]
    match pairs with
    | [] => exact .inl (.inl rfl)
    | [_] => exact .inl (.inr (by simp))
    | _ :: _ :: pairs =>
      refine .inr fun _ v r hv => ?_
      cases hv
      exact setArgs_ne_empty (insert_ne_empty _ _ _) _
  | pushList key left values now =>
    rw [pushList_eq_any, fills_pushList_iff hs]
    cases values with
    | nil => exact .inl rfl
    | cons item items =>
      refine .inr fun _ v r hv => ?_
      rw [fillList, texts_text] at hv
      cases hv
      change (if left then _ else _ : List Bytes) ≠ []
      split <;> simp
  | sadd key values now =>
    rw [sadd_eq_any, fills_sadd_iff hs]
    cases values with
    | nil => exact .inl rfl
    | cons member members =>
      refine .inr fun _ v r hv => ?_
      cases hv
      exact addArgs_ne_empty (Finset.insert_ne_empty _ _) _
  | zadd key values now => exact fills_zadd hs values
  | flushDB => exact hkp (flushDB L.engine)
  | activeExpireCycle => exact hkp (activeExpireCycle L.engine _ _ _)
  | _ => exact hkp _

lemma filled_step_iff (hs : s.Filled) (c : DictCall) :
    (∀ s', c.step L.engine s = .ok s' → s'.Filled) ↔ c.LeavesElements L s := by
  have hrun : (∀ s', c.step L.engine s = .ok s' → s'.Filled) ↔ s.Fills (c.run L.engine) := by
    constructor
    · intro h r s' hr
      refine h s' ?_
      unfold step
      rw [hr]
      rfl
    · intro h s' hr
      obtain ⟨⟨r, t⟩, hr, hs'⟩ := Go.bind_eq_ok.1 hr
      cases hs'
      exact h r _ hr
  rw [hrun]
  cases c with
  | call op =>
    refine ⟨fun h => ?_, fills_call hs⟩
    cases op with
    | restoreEntry => exact (fills_restoreEntry_iff hs).1 (fills_ignore_iff.1 h)
    | _ => trivial
  | hset => exact fills_ignore_iff.trans (fills_hset_iff hs)
  | pushList => exact fills_ignore_iff.trans (fills_pushList_iff hs)
  | sadd => exact fills_ignore_iff.trans (fills_sadd_iff hs)
  | srem => exact fills_ignore_iff.trans (fills_srem_iff hs)

def smallest : LogicalConfig := ⟨⟨minRingBufferSize, Int.le_refl _⟩, none, fun _ _ => .error ""⟩

end DictCall

end Logical

end Store

end AutoCache
