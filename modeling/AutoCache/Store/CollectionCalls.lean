import AutoCache.Store.Calls

/-!
# Collections and reads as functions on worlds

A call on a collection sees the object copy of its key, and only when no string is live there. Those
that add create it when it is missing (`World.add`), those that change it leave nothing of an empty
one (`World.change`). The calls that read leave the world as it is (`Quiet`), whatever they drop
that had expired.
-/

namespace AutoCache

open AutoCache.Ring Acts TypedValue

def Quiet {α : Type} (now : Int) (x : StoreM Cache α) : Prop :=
  Acts now (fun _ => ()) x fun w => ((), w)

namespace Quiet

variable {α β : Type} {now : Int} {x : StoreM Cache α}

lemma pure (a : α) : Quiet now (Pure.pure a) := Acts.pure a

lemma bind {y : α → StoreM Cache β} (hx : Quiet now x) (hy : ∀ a, Quiet now (y a)) : Quiet now (x >>= y) :=
  Acts.seq hx hy

lemma of_acts {π : α → β} {f : World → β} (hx : Acts now π x fun w => (f w, w)) : Quiet now x :=
  hx.map fun _ => ()

end Quiet

namespace World

variable (w : World) (key : Bytes)

/-- The collection of one type that a call on the key finds. -/
def typed {α : Type} (as : TypedValue → Option α) : Except StoreError α :=
  if (w key).str.isSome then .error .wrongType
  else
    match (w key).obj with
    | none => .error .keyNotFound
    | some o =>
      match as o.value with
      | none => .error .wrongType
      | some a => .ok a

def putOrDelete (now : Int) (empty : Bool) (v : TypedValue) : World :=
  if empty then w.setObj key none else w.objectPut key now v

/-- A call that adds to a collection: the value it stores, from the one that is there or, for a new
key, from the empty one. -/
def add {α : Type} (as : TypedValue → Option α) (now : Int) (empty : α)
    (f : α → TypedValue × Int) : Except StoreError Int × World :=
  match w.typed key as with
  | .ok a => (.ok (f a).2, w.objectPut key now (f a).1)
  | .error .keyNotFound => (.ok (f empty).2, w.setObj key (some ⟨(f empty).1, 0⟩))
  | .error e => (.error e, w)

/-- A call that changes a collection that is there; `f` says what becomes of it, if anything. -/
def change {α β : Type} (as : TypedValue → Option α) (now : Int)
    (absent : StoreError → Except StoreError β)
    (f : α → Except StoreError β × Option (Bool × TypedValue)) : Except StoreError β × World :=
  match w.typed key as with
  | .error e => (absent e, w)
  | .ok a =>
    match (f a).2 with
    | none => ((f a).1, w)
    | some (empty, v) => ((f a).1, w.putOrDelete key now empty v)

end World

namespace Store

variable {L : LogicalConfig} {key : Bytes} {now : Int}

lemma getTyped_acts {α : Type} {as : TypedValue → Option α} :
    Acts now id (getTyped L.engine as key now) fun w => (w.typed key as, w) := by
  let found (str : Bool) (obj : Option TypedValue) : Except StoreError TypedValue :=
    if str then .error .wrongType else obj.elim (.error .keyNotFound) .ok
  have hcoll : Acts now id (getCollection L.engine key now)
      fun w => (found (w key).str.isSome ((w key).obj.map Object.value), w) := by
    refine bind (g := fun b w => (found b ((w key).obj.map Object.value), w)) cacheExists_acts fun b => ?_
    cases b
    · refine bind (g := fun v w => (found false v, w)) getObjectValue_acts fun v => ?_
      cases v <;> exact pure _
    · exact pure _
  refine (bind (g := fun r w => (r.bind fun v => match as v with
      | none => Except.error StoreError.wrongType
      | some a => .ok a, w)) hcoll fun r => ?_).congr fun w => ?_
  · cases r with
    | error e => exact pure _
    | ok v =>
      simp only [id, Except.bind]
      cases as v <;> exact pure _
  · simp only [found, World.typed]
    cases (w key).str.isSome <;> cases (w key).obj <;> rfl

lemma newCollection_acts {v : TypedValue} : Acts now id (newCollection L.engine key v now)
    fun w => ((), w.setObj key (some ⟨v, 0⟩)) := by
  have hfresh : freshObject now ⟨v, objectDeadline 0 now⟩ = some ⟨v, 0⟩ := by
    rw [freshObject_eq]
    simp [objectDeadline, Object.expired]
  exact Acts.congr (objectSetEntry_acts.seq fun _ => trackKey_acts) fun w => by rw [hfresh]

lemma putOrDelete_acts {empty : Bool} {v : TypedValue} : Acts now id (putOrDelete L.engine key empty v)
      fun w => ((), w.putOrDelete key now empty v) := by
  cases empty
  · exact objectPut_acts
  · exact deleteObjectKey_acts.seq fun _ => pure ()

/-! ## Calls that add -/

section Add

variable {α : Type} {as : TypedValue → Option α} {f : α → TypedValue × Int}

lemma objectPut_setObj (w : World) (v v' : TypedValue) :
    (w.setObj key (some ⟨v', 0⟩)).objectPut key now v = w.setObj key (some ⟨v, 0⟩) := by
  have hfresh : freshObject now ⟨v, 0⟩ = some ⟨v, 0⟩ := by
    rw [freshObject_eq]
    simp [Object.expired]
  simp [World.objectPut, World.setObj, hfresh]

lemma put_acts_of {β : Type} {v : TypedValue} {result : Except StoreError β} : Acts now id (do
      objectPut (σ := Cache) key v
      return result)
      fun w => (result, w.objectPut key now v) :=
  objectPut_acts.seq fun _ => pure _

lemma new_acts_of {β : Type} {v new : TypedValue} {result : Except StoreError β} : Acts now id (do
      newCollection L.engine key new now
      objectPut key v
      return result)
      fun w => (result, w.setObj key (some ⟨v, 0⟩)) := by
  exact Acts.congr (newCollection_acts.seq fun _ => put_acts_of) fun w => by rw [objectPut_setObj]

/-- What the calls that add have in common: `k` is the rest of the call. -/
lemma add_acts {k : Except StoreError α → StoreM Cache (Except StoreError Int)} (empty : α) (new : TypedValue)
    (hok : ∀ a, k (.ok a) = do
      objectPut key (f a).1
      return .ok (f a).2)
    (hnew : k (.error .keyNotFound) = do
      newCollection L.engine key new now
      objectPut key (f empty).1
      return .ok (f empty).2)
    (herr : ∀ e, e ≠ .keyNotFound → k (.error e) = Pure.pure (.error e) := by
      exact fun e he => by cases e <;> first | exact absurd rfl he | rfl) :
    Acts now id (getTyped L.engine as key now >>= k) fun w => w.add key as now empty f := by
  refine bind (g := fun r w => match r with
    | .ok a => (Except.ok (f a).2, w.objectPut key now (f a).1)
    | .error .keyNotFound => (Except.ok (f empty).2, w.setObj key (some ⟨(f empty).1, 0⟩))
    | .error e => (Except.error e, w)) getTyped_acts fun r => ?_
  cases r with
  | ok a =>
    rw [hok]
    exact put_acts_of
  | error e =>
    by_cases he : e = .keyNotFound
    · subst he
      rw [hnew]
      exact new_acts_of
    · rw [herr e he]
      refine (pure _).congr fun w => ?_
      cases e <;> first | exact absurd rfl he | rfl

lemma pushList_acts {left : Bool} {values : List Bytes} (h : values ≠ []) :
    Acts now id (pushList L.engine key left values now) fun w => w.add key asList? now [] fun items =>
        let items := if left then values.reverse ++ items else items ++ values
        (.list items, items.length) := by
  unfold pushList
  rw [if_neg h]
  exact add_acts [] (.list []) (fun _ => rfl) rfl

lemma sadd_acts {values : List Bytes} (h : values ≠ []) : Acts now id (sadd L.engine key values now)
      fun w => w.add key asSet? now ∅ fun members =>
        (.set (addMembers members values).1, (addMembers members values).2) := by
  unfold sadd
  rw [if_neg h]
  exact add_acts ∅ (.set ∅) (fun _ => rfl) rfl

lemma zadd_acts {values : List (Score × Bytes)} (h : values ≠ []) :
    Acts now id (zadd L.engine key values now) fun w => w.add key asZSet? now ∅ fun scores =>
        (.zset (addScores scores values).1, (addScores scores values).2) := by
  unfold zadd
  rw [if_neg h]
  exact add_acts ∅ (.zset ∅) (fun _ => rfl) rfl

def asFields? : TypedValue → Option (GoMap Bytes Bytes)
  | .hash fields => fields
  | _ => none

/-- The live hash of the key is a nil map, to which no field can be assigned. -/
def HoldsNil (w : World) (key : Bytes) : Prop := w.typed key asHash? = .ok none

lemma typed_asFields {w : World} (hnil : ¬ HoldsNil w key) :
    w.typed key asFields? = (w.typed key asHash?).map fun fields => fields.getD ∅ := by
  unfold HoldsNil World.typed at *
  cases hstr : (w key).str with
  | some slot => rfl
  | none =>
    cases hobj : (w key).obj with
    | none => rfl
    | some o =>
      rcases o with ⟨v, e⟩
      cases v with
      | hash fields =>
        cases fields with
        | none => simp [hstr, hobj, asHash?] at hnil
        | some fields => rfl
      | _ => rfl

lemma hset_run {pairs : List Bytes} (hpairs : ¬ (pairs.length = 0 ∨ pairs.length % 2 ≠ 0))
    {s : Store Cache} (hnil : ¬ HoldsNil (s.live now) key) :
    ∃ result s', hset L.engine key pairs now s = .ok (result, s') ∧ (s.live now).add key asFields? now ∅ (fun fields =>
        (.hash (some (setFields fields pairs).1), (setFields fields pairs).2)) = (result, s'.live now) := by
  obtain ⟨r, s', hrun, hlive⟩ := @getTyped_acts L key now _ asHash? s
  simp only [id, Prod.mk.injEq] at hlive
  unfold hset World.add
  rw [if_neg hpairs, typed_asFields hnil, hlive.1, hlive.2]
  change ∃ result t, (getTyped L.engine asHash? key now >>= _) s = .ok (result, t) ∧ _
  rw [Views.run_bind hrun]
  rcases r with e | _ | fields
  · by_cases he : e = .keyNotFound
    · subst he
      exact @new_acts_of L key now _ _ _ _ s'
    · refine ⟨.error e, s', ?_, ?_⟩
      · cases e <;> first | exact absurd rfl he | rfl
      · cases e <;> first | exact absurd rfl he | rfl
  · exact absurd hlive.1 hnil
  · exact @put_acts_of key now _ _ _ s'

lemma hset_of_nil {pairs : List Bytes} (hpairs : ¬ (pairs.length = 0 ∨ pairs.length % 2 ≠ 0))
    {s : Store Cache} (hnil : HoldsNil (s.live now) key) :
    hset L.engine key pairs now s = .error .nilMap := by
  obtain ⟨r, s', hrun, hlive⟩ := @getTyped_acts L key now _ asHash? s
  simp only [id, Prod.mk.injEq] at hlive
  obtain rfl := hlive.1.symm.trans hnil
  unfold hset
  rw [if_neg hpairs]
  exact Views.run_bind hrun

end Add

/-! ## Calls that change what is there -/

section Change

variable {α β : Type} {as : TypedValue → Option α} {absent : StoreError → Except StoreError β}

/-- What an absent collection means to the calls that take members out. -/
def noneTaken : StoreError → Except StoreError Int
  | .keyNotFound => .ok 0
  | e => .error e

/-- What the calls that change a collection have in common: `k` is the rest of the call. -/
lemma change_acts {k : Except StoreError α → StoreM Cache (Except StoreError β)}
    {f : α → Except StoreError β × Option (Bool × TypedValue)}
    (herr : ∀ e, k (.error e) = Pure.pure (absent e))
    (hok : ∀ a, Acts now id (k (.ok a)) fun w => match (f a).2 with
      | none => ((f a).1, w)
      | some (empty, v) => ((f a).1, w.putOrDelete key now empty v)) :
    Acts now id (getTyped L.engine as key now >>= k) fun w => w.change key as now absent f := by
  refine bind (g := fun r w => match r with
    | .error e => (absent e, w)
    | .ok a =>
      match (f a).2 with
      | none => ((f a).1, w)
      | some (empty, v) => ((f a).1, w.putOrDelete key now empty v)) getTyped_acts fun r => ?_
  cases r with
  | error e =>
    rw [herr]
    exact pure _
  | ok a => exact hok a

lemma taken_acts {empty : Bool} {v : TypedValue} {result : Except StoreError β} : Acts now id (do
      putOrDelete L.engine key empty v
      return result)
      fun w => (result, w.putOrDelete key now empty v) :=
  putOrDelete_acts.seq fun _ => pure _

lemma hdel_acts {fields : List Bytes} : Acts now id (hdel L.engine key fields now)
      fun w => w.change key asHash? now noneTaken fun hash =>
        let r := delFields (hash.getD ∅) fields
        (.ok r.2, some (r.1 = ∅, .hash (some r.1))) :=
  change_acts (fun e => by cases e <;> rfl) fun _ => taken_acts

lemma srem_acts {values : List Bytes} : Acts now id (srem L.engine key values now)
      fun w => w.change key asSet? now noneTaken fun members =>
        let r := remMembers members values
        (.ok r.2, some (r.1 = ∅, .set r.1)) :=
  change_acts (fun e => by cases e <;> rfl) fun _ => taken_acts

lemma zrem_acts {values : List Bytes} : Acts now id (zrem L.engine key values now)
      fun w => w.change key asZSet? now noneTaken fun scores =>
        let r := remScores scores values
        (.ok r.2, some (r.1 = ∅, .zset r.1)) :=
  change_acts (fun e => by cases e <;> rfl) fun _ => taken_acts

def popped (left : Bool) (items : List Bytes) :
    Except StoreError Bytes × Option (Bool × TypedValue) :=
  match if left then items.head? else items.getLast? with
  | none => (.error .keyNotFound, none)
  | some value =>
    let items := if left then items.tail else items.dropLast
    (.ok value, some (items = [], .list items))

lemma popList_acts {left : Bool} : Acts now id (popList L.engine key left now)
      fun w => w.change key asList? now .error (popped left) := by
  refine change_acts (fun _ => rfl) fun items => ?_
  dsimp only
  unfold popped
  cases if left then items.head? else items.getLast? with
  | none => exact pure _
  | some value => exact taken_acts

lemma lset_acts {index : Int} {value : Bytes} : Acts now id (lset L.engine key index value now)
      fun w => w.change key asList? now .error fun items =>
        match normalizeIndex items.length index with
        | none => (.error .keyNotFound, none)
        | some i => (.ok (), some (false, .list (items.set i value))) := by
  refine change_acts (fun _ => rfl) fun items => ?_
  dsimp only
  cases normalizeIndex items.length index with
  | none => exact pure _
  | some i => exact put_acts_of

/-- What an absent list means to `LTrim`. -/
def noneTrimmed : StoreError → Except StoreError Unit
  | .keyNotFound => .ok ()
  | e => .error e

lemma ltrim_acts {start stop : Int} : Acts now id (ltrim L.engine key start stop now)
      fun w => w.change key asList? now noneTrimmed fun items =>
        match normalizeRange items.length start stop with
        | none => (.ok (), some (true, .list []))
        | some (i, j) => (.ok (), some (false, .list (slice items i j))) := by
  refine change_acts (fun e => by cases e <;> rfl) fun items => ?_
  dsimp only
  cases normalizeRange items.length start stop with
  | none => exact deleteObjectKey_acts.seq fun _ => pure _
  | some range => exact put_acts_of

end Change

/-! ## Calls that read -/

section Reads

lemma hasKey_acts : Acts now id (hasKey L.engine key now) fun w => (w.has key, w) := by
  refine (bind (g := fun b w => (b || (w key).obj.isSome, w)) cacheExists_acts fun b => ?_).congr fun w => rfl
  cases b
  · exact hasObjectKey_acts
  · exact pure true

lemma existsKeys_acts (keys : List Bytes) :
    Acts now id (existsKeys L.engine now keys) fun w => ((keys.countP w.has : Int), w) := by
  induction keys with
  | nil => exact Acts.pure 0
  | cons key keys ih =>
    refine (Acts.bind (g := fun found w => ((if found then 1 else 0) + (keys.countP w.has : Int), w))
      hasKey_acts fun found => Acts.bind (g := fun count w => ((if found then 1 else 0) + count, w)) ih
        fun count => Acts.pure _).congr fun w => ?_
    cases h : w.has key <;> simp [h, add_comm]

lemma ttl_quiet : Quiet now (ttl L.engine key now) := by
  have hcache : Quiet now (cacheTTL L.engine key now) := fun s => ⟨_, s, rfl, rfl⟩
  refine hcache.bind fun remaining => ?_
  cases remaining with
  | some t => exact .pure _
  | none =>
    refine (Quiet.of_acts objectTTL_acts).bind fun remaining => ?_
    cases remaining <;> exact .pure _

end Reads

/-- A range that `normalizeRange` finds is not empty. -/
lemma slice_ne_nil {items : List Bytes} {start stop : Int} {i j : ℕ}
    (h : normalizeRange items.length start stop = some (i, j)) : slice items i j ≠ [] := by
  simp only [normalizeRange, Option.ite_none_left_eq_some, Option.some.injEq, Prod.mk.injEq] at h
  intro hnil
  have hlen : (slice items i j).length = 0 := by rw [hnil]; rfl
  unfold slice at hlen
  rw [List.length_drop, List.length_take] at hlen
  omega

/-! ## The keys of a slot -/

/-- The first `count` keys; `0` stands for all. -/
def firstKeys (count : ℕ) (keys : List Bytes) : List Bytes := if count = 0 then keys else keys.take count

lemma keepLive_acts {count : ℕ} (keys result : List Bytes) (hroom : count = 0 ∨ result.length ≤ count) :
    Acts now id (keepLive L.engine count now keys result) fun w => (firstKeys count (result ++ keys.filter w.has), w) := by
  induction keys generalizing result with
  | nil =>
    refine (pure result).congr fun w => ?_
    rcases hroom with rfl | hroom
    · simp [firstKeys]
    · simp [firstKeys, List.take_of_length_le hroom]
  | cons key keys ih =>
    unfold keepLive
    by_cases hfull : count > 0 ∧ result.length ≥ count
    · rw [if_pos hfull]
      refine (pure result).congr fun w => ?_
      rw [firstKeys, if_neg (by omega), List.take_left' (by omega)]
      rfl
    · rw [if_neg hfull]
      refine (bind (g := fun b w => (firstKeys count ((if b then result ++ [key] else result) ++ keys.filter w.has), w))
        hasKey_acts fun b => ?_).congr fun w => ?_
      · cases b
        · exact ih result hroom
        · exact ih (result ++ [key]) (by rw [List.length_append]; simp; omega)
      · cases hb : w.has key <;> simp [hb]

def slotKeys (s : Store Cache) (slot : UInt16) (t : Int) : List Bytes :=
  (((s.slotIndex.lookup slot).getD ∅).sort (· ≤ ·)).filter (s.live t).has

lemma keysInSlot_first (s : Store Cache) (slot : UInt16) (count : ℕ) : ∃ s',
    keysInSlot L.engine slot count now s = .ok (firstKeys count (slotKeys s slot now), s') ∧ s'.live now = s.live now :=
  (@keepLive_acts L now count (((s.slotIndex.lookup slot).getD ∅).sort (· ≤ ·)) [] (.inr (Nat.zero_le _))).run s

lemma keysInSlot_run (s : Store Cache) (slot : UInt16) :
    ∃ s', keysInSlot L.engine slot 0 now s = .ok (slotKeys s slot now, s') ∧ s'.live now = s.live now :=
  keysInSlot_first s slot 0

lemma firstKeys_sublist (count : ℕ) (keys : List Bytes) : (firstKeys count keys).Sublist keys := by
  unfold firstKeys
  split
  · exact .refl _
  · exact keys.take_sublist count

lemma keysInSlot_eq {s s' : Store Cache} {slot : UInt16} {count : ℕ} {keys : List Bytes}
    (h : keysInSlot L.engine slot count now s = .ok (keys, s')) :
    keys.Nodup ∧ s'.live now = s.live now := by
  obtain ⟨t, hrun, hlive⟩ := @keysInSlot_first L now s slot count
  cases hrun.symm.trans h
  exact ⟨(firstKeys_sublist _ _).nodup ((Finset.sort_nodup _ _).filter _), hlive⟩

lemma keysInSlot_empty (slot : UInt16) (count : ℕ) :
    keysInSlot L.engine slot count now (⟨∅, ∅, ∅⟩ : Store Cache) = .ok ([], ⟨∅, ∅, ∅⟩) := by
  have hnil : ((((∅ : GoMap UInt16 (Finset Bytes)).lookup slot).getD ∅).sort (· ≤ ·)) = [] := by simp
  unfold keysInSlot
  rw [hnil]
  rfl

end Store

end AutoCache
