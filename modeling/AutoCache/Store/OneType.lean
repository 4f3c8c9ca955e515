import AutoCache.Lib.Runs
import AutoCache.Store.CollectionCalls
import AutoCache.Store.Reads

/-!
# One type at a time

A key can be in the cache and in the dictionary at once, and the copy in the cache hides the other. The
calls keep it from having two live copies in different ways: some look into the other store first, some
clear it. `Set`, `MSet` and `IncrBy` do neither. So a key keeps one type as long as these three are not
used on a live collection, and a string that is written over one leaves it there, to be seen again when
the string is gone.
-/

namespace AutoCache

open AutoCache.Ring World

def KeyState.Single (k : KeyState) : Prop := k.str = none ∨ k.obj = none

def World.OneType (w : World) : Prop := ∀ key, (w key).Single

/-! ## Runs -/

namespace StoreOp

def withClock (now : Int) : StoreOp → StoreOp
  | .get key _ => .get key now
  | .set key value d _ => .set key value d now
  | .setNX key value d _ => .setNX key value d now
  | .setXX key value d _ => .setXX key value d now
  | .getSet key value _ => .getSet key value now
  | .incrBy key delta _ => .incrBy key delta now
  | .append key value _ => .append key value now
  | .strlen key _ => .strlen key now
  | .mget keys _ => .mget keys now
  | .mset pairs _ => .mset pairs now
  | .del keys => .del keys
  | .existsKeys keys _ => .existsKeys keys now
  | .type key _ => .type key now
  | .ttl key _ => .ttl key now
  | .rename key newkey _ => .rename key newkey now
  | .expire key d _ => .expire key d now
  | .expireAt key t _ => .expireAt key t now
  | .persist key _ => .persist key now
  | .flushDB => .flushDB
  | .restoreEntry key vt payload d _ => .restoreEntry key vt payload d now
  | .keysInSlot slot count _ => .keysInSlot slot count now
  | .activeExpireCycle cacheSamples objectSamples _ =>
    .activeExpireCycle cacheSamples objectSamples now
  | .hset key pairs _ => .hset key pairs now
  | .hget key field _ => .hget key field now
  | .hdel key fields _ => .hdel key fields now
  | .hexists key field _ => .hexists key field now
  | .hgetAll key _ => .hgetAll key now
  | .hlen key _ => .hlen key now
  | .pushList key left values _ => .pushList key left values now
  | .popList key left _ => .popList key left now
  | .lset key index value _ => .lset key index value now
  | .ltrim key start stop _ => .ltrim key start stop now
  | .lrange key start stop _ => .lrange key start stop now
  | .llen key _ => .llen key now
  | .lindex key index _ => .lindex key index now
  | .sadd key values _ => .sadd key values now
  | .srem key values _ => .srem key values now
  | .smembers key _ => .smembers key now
  | .sisMember key member _ => .sisMember key member now
  | .scard key _ => .scard key now
  | .zadd key values _ => .zadd key values now
  | .zrem key values _ => .zrem key values now
  | .zscore key member _ => .zscore key member now
  | .zcard key _ => .zcard key now

end StoreOp

structure TimedStore where
  now : Int
  store : Store Cache

inductive StoreEvent where
  | wait (ns : ℕ)
  | call (op : StoreOp)

namespace TimedStore

def step (L : LogicalConfig) (c : TimedStore) : StoreEvent → Go TimedStore
  | .wait ns => return { c with now := c.now + ns }
  | .call op => do
    let store ← Store.step L.engine c.store (op.withClock c.now)
    return { c with store }

def OneType (c : TimedStore) : Prop := (c.store.live c.now).OneType

def empty (now : Int) : TimedStore := ⟨now, Store.new ∅⟩

end TimedStore

/-! ## Which calls keep one type -/

/-- A pair of `MSet` is written, or the call ends at one that does not fit; no readable key that is written
has a live collection. -/
def World.PairsKeep (w : World) (size : RingSize) : List Bytes → Prop
  | key :: value :: pairs =>
    Cache.TooLarge size key value ∨
      (((w key).obj = none ∨ ¬ Readable key) ∧ w.PairsKeep size pairs)
  | _ => True

/-- The call does not put a string in front of a collection. -/
def StoreOp.Keeps (size : RingSize) (now : Int) (w : World) : StoreOp → Prop
  | .set key value d _ =>
    (w key).obj = none ∨ Cache.TooLarge size key value ∨
      freshSlot key now (.entry (writtenEntry value d now)) = none
  | .mset pairs _ => pairs.length % 2 ≠ 0 ∨ w.PairsKeep size pairs
  | .incrBy key _ _ => (w key).obj = none
  | _ => True

def TimedStore.Keeps (L : LogicalConfig) (c : TimedStore) : StoreEvent → Prop
  | .wait _ => True
  | .call op => op.Keeps L.size c.now (c.store.live c.now)

namespace World

variable {w w' : World} {key newkey : Bytes} {now : Int}

lemma OneType.setStr (h : w.OneType) {str : Option Slot} (hkey : str = none ∨ (w key).obj = none) :
    (w.setStr key str).OneType :=
  (Function.forall_update_iff w fun _ k => k.Single).2 ⟨hkey, fun k _ => h k⟩

lemma OneType.setObj (h : w.OneType) {obj : Option Object} (hkey : (w key).str = none ∨ obj = none) :
    (w.setObj key obj).OneType :=
  (Function.forall_update_iff w fun _ k => k.Single).2 ⟨hkey, fun k _ => h k⟩

lemma setObj_obj (obj : Option Object) : (w.setObj key obj key).obj = obj := by
  rw [setObj_apply, if_pos rfl]

lemma setStr_str (str : Option Slot) : (w.setStr key str key).str = str := by
  rw [setStr_apply, if_pos rfl]

lemma OneType.later (h : w.OneType) (t : Int) : (w.later t).OneType := by
  intro key
  rcases h key with hnone | hnone
  · exact .inl (by simp [World.later, hnone])
  · exact .inr (by simp [World.later, hnone])

/-! ### Strings -/

variable {size : RingSize} {value : Bytes} {ttl : Int}

lemma OneType.putStr (h : w.OneType) (hobj : (w key).obj = none) :
    (w.putStr key value ttl now).OneType := h.setStr (.inr hobj)

lemma OneType.set (h : w.OneType) (hobj : (w key).obj = none) : (w.set size key value ttl now).2.OneType := by
  unfold World.set
  split
  · exact h.setStr (.inr hobj)
  · exact h.putStr hobj

lemma oneType_set_iff (h : w.OneType) : (w.set size key value ttl now).2.OneType ↔
    (w key).obj = none ∨ Cache.TooLarge size key value ∨ freshSlot key now (.entry (writtenEntry value ttl now)) = none := by
  by_cases hobj : (w key).obj = none
  · exact ⟨fun _ => .inl hobj, fun _ => h.set hobj⟩
  have hstr : (w key).str = none := (h key).resolve_right hobj
  unfold set
  by_cases hlarge : Cache.TooLarge size key value
  · simp only [hlarge, if_true, hstr, Option.filter_none, true_or, or_true, iff_true]
    exact h.setStr (.inl rfl)
  simp only [hlarge, if_false, hobj, false_or]
  constructor
  · intro hone
    have hkey := (hone key).resolve_right (by rw [putStr, setStr_apply, if_pos rfl]; exact hobj)
    rwa [putStr, setStr_str] at hkey
  · intro hfresh
    rw [putStr, hfresh]
    exact h.setStr (.inl rfl)

/-- An entry in front of the collection of a readable key stays while strings are written. -/
lemma not_oneType_mset (hr : Readable key) : ∀ (pairs : List Bytes) {w : World},
    (∃ e, (w key).str = some (.entry e)) → (w key).obj ≠ none → ¬ (w.mset size now pairs).2.OneType
  | [], w, ⟨e, hstr⟩, hobj => fun h => (h key).elim (by simp [mset, hstr]) hobj
  | [_], w, ⟨e, hstr⟩, hobj => fun h => (h key).elim (by simp [mset, hstr]) hobj
  | k :: v :: pairs, w, ⟨e, hstr⟩, hobj => by
    have hobj' (str : Option Slot) : (w.setStr k str key).obj ≠ none := by
      rw [setStr_apply]
      split
      · next hk => rwa [← hk]
      · exact hobj
    have hoth (str : Option Slot) (hk : key ≠ k) : (w.setStr k str key).str = some (.entry e) := by
      rw [setStr_apply, if_neg hk, hstr]
    rw [mset]
    by_cases hlarge : Cache.TooLarge size k v
    · -- the call ends here, and only counters have gone
      have hset : w.set size k v 0 now = (.error tooLarge, w.setStr k ((w k).str.filter (!·.isCounter))) :=
        if_pos hlarge
      rw [hset]
      refine fun h => (h key).elim ?_ (hobj' _)
      by_cases hk : key = k
      · subst hk
        simp [setStr_str, hstr, Slot.isCounter]
      · simp [hoth _ hk]
    · have hset : w.set size k v 0 now = (.ok (), w.putStr k v 0 now) := if_neg hlarge
      rw [hset]
      refine not_oneType_mset hr pairs ?_ (hobj' _)
      by_cases hk : key = k
      · subst hk
        exact ⟨_, by rw [putStr, setStr_str, Store.freshSlot_written_zero, if_pos hr]⟩
      · exact ⟨e, hoth _ hk⟩

lemma pairsKeep_congr (hobj : ∀ key, (w' key).obj = (w key).obj) (pairs : List Bytes) :
    w'.PairsKeep size pairs ↔ w.PairsKeep size pairs := by
  induction pairs using List.twoStepInduction with
  | nil | singleton => rfl
  | cons_cons k v pairs ih => rw [World.PairsKeep, World.PairsKeep, hobj, ih]

/-- `MSet` keeps one type exactly when each of its writes does. -/
lemma oneType_mset_iff : ∀ (pairs : List Bytes) {w : World}, w.OneType →
    ((w.mset size now pairs).2.OneType ↔ w.PairsKeep size pairs)
  | [], w, h => ⟨fun _ => trivial, fun _ => h⟩
  | [_], w, h => ⟨fun _ => trivial, fun _ => h⟩
  | k :: v :: pairs, w, h => by
    have hwr := @oneType_set_iff w k now size v 0 h
    rw [mset, World.PairsKeep]
    by_cases hlarge : Cache.TooLarge size k v
    · have hset : w.set size k v 0 now = (.error tooLarge, w.setStr k ((w k).str.filter (!·.isCounter))) :=
        if_pos hlarge
      rw [hset] at hwr ⊢
      exact ⟨fun _ => .inl hlarge, fun _ => hwr.2 (.inr (.inl hlarge))⟩
    · have hset : w.set size k v 0 now = (.ok (), w.putStr k v 0 now) := if_neg hlarge
      have hpairs : (w.putStr k v 0 now).PairsKeep size pairs ↔ w.PairsKeep size pairs := by
        refine pairsKeep_congr (fun key => ?_) pairs
        rw [putStr, setStr_apply]
        split
        · next hk => rw [hk]
        · rfl
      rw [hset] at hwr ⊢
      simp only [hlarge, false_or] at hwr ⊢
      by_cases hkeep : (w k).obj = none ∨ ¬ Readable k
      · have hone : (w.putStr k v 0 now).OneType := by
          refine hwr.2 (hkeep.imp_right fun hr => ?_)
          rw [Store.freshSlot_written_zero, if_neg hr]
        rw [oneType_mset_iff pairs hone, hpairs]
        exact (and_iff_right hkeep).symm
      · obtain ⟨hobj, hr⟩ := not_or.1 hkeep
        refine iff_of_false ?_ fun h => hkeep h.1
        refine not_oneType_mset (not_not.1 hr) pairs ⟨writtenEntry v 0 now, ?_⟩ ?_
        · rw [putStr, setStr_str, Store.freshSlot_written_zero, if_pos (not_not.1 hr)]
        · rwa [putStr, setStr_apply, if_pos rfl]

section

variable (h : w.OneType)
include h

lemma oneType_incrBy_iff {delta : Int} : (w.incrBy key delta).2.OneType ↔ (w key).obj = none := by
  constructor
  · intro hone
    by_contra hobj
    have hstr : (w key).str = none := (h key).resolve_right hobj
    have hctr : (w.incrBy key delta).2 = w.setStr key (some (counterSlot delta)) := by
      rw [incrBy, hstr]
    rw [hctr] at hone
    have hkey := hone key
    rw [KeyState.Single, setStr_str, setStr_apply, if_pos rfl] at hkey
    exact hkey.elim (Option.some_ne_none _) hobj
  · intro hobj
    unfold incrBy
    split
    · exact h.setStr (.inr hobj)
    · exact h.setStr (.inr hobj)
    · split
      · exact h
      · exact h.setStr (.inr hobj)

lemma OneType.setNX : (w.setNX size key value ttl now).2.OneType := by
  unfold World.setNX World.cacheSetNX
  split
  · exact h
  · next hobj =>
    have hobj : (w key).obj = none := by simpa using hobj
    split
    · exact h
    · split
      · exact h
      · exact h.putStr hobj

lemma OneType.setXX : (w.setXX size key value ttl now).2.OneType := by
  unfold World.setXX World.cacheSetXX
  split
  · exact (h.setObj (.inr rfl)).set (setObj_obj none)
  · next hobj =>
    have hobj : (w key).obj = none := by simpa using hobj
    split
    · split
      · exact h
      · exact h.putStr hobj
    · exact h

lemma OneType.overwrite {α : Type} {text : Option Bytes → Bytes} {reply : Option Bytes → α} :
    (w.overwrite size key now text reply).2.OneType := by
  unfold World.overwrite
  dsimp only
  split
  · exact h
  · exact (h.setObj (.inr rfl)).set (setObj_obj none)

/-! ### Keys -/

lemma OneType.delKey : (w.delKey key).OneType :=
  (h.setStr (.inl rfl)).setObj (.inr rfl)

lemma OneType.del (keys : List Bytes) : (w.del keys).OneType :=
  List.foldlRecOn (motive := World.OneType) keys World.delKey h fun _ h _ _ => h.delKey

lemma OneType.cacheExpire : (w.cacheExpire key ttl now).2.OneType := by
  unfold World.cacheExpire
  split
  · next hstr => exact h.setStr (.inr ((h key).resolve_left (by simp [hstr])))
  · exact h

lemma OneType.objectExpire : (w.objectExpire key ttl now).2.OneType := by
  unfold World.objectExpire
  split
  · next hobj => exact h.setObj (.inl ((h key).resolve_right (by simp [hobj])))
  · exact h

lemma OneType.expire : (w.expire key ttl now).2.OneType := by
  unfold World.expire
  split
  · exact h.cacheExpire
  · exact h.objectExpire

lemma OneType.expireAt {t : Int} : (w.expireAt key now t).OneType := by
  unfold World.expireAt
  split
  · exact h.delKey
  · exact h.expire

lemma OneType.rename : (w.rename size key newkey now).2.OneType := by
  unfold World.rename
  split
  · exact ((h.setStr (.inl rfl)).setObj (.inr rfl)).set (setObj_obj none)
  · split
    · exact h
    · exact ((h.setObj (.inr rfl)).setStr (.inl rfl)).setObj (.inl (setStr_str none))

lemma OneType.restore {v : Value} : (w.restore size key ttl now v).2.OneType := by
  have hgone : w.delKey key key = ⟨none, none⟩ := by rw [delKey_apply, if_pos rfl]
  unfold World.restore
  split
  · exact h.delKey.set (by rw [hgone])
  · exact h.delKey.setObj (.inl (by rw [hgone]))

end

/-! ### Collections -/

lemma str_of_typed {α : Type} {as : TypedValue → Option α} {r : Except StoreError α}
    (h : w.typed key as = r) (hr : r ≠ .error .wrongType) : (w key).str = none := by
  by_contra hstr
  obtain ⟨slot, hslot⟩ := Option.ne_none_iff_exists'.1 hstr
  refine hr (h.symm.trans ?_)
  simp [typed, hslot]

lemma OneType.objectPut (h : w.OneType) (hstr : (w key).str = none) {v : TypedValue} : (w.objectPut key now v).OneType := by
  unfold World.objectPut
  split
  · exact h.setObj (.inl hstr)
  · exact h

lemma OneType.add (h : w.OneType) {α : Type} {as : TypedValue → Option α} {empty : α}
    {f : α → TypedValue × Int} : (w.add key as now empty f).2.OneType := by
  unfold World.add
  split
  · next htyped => exact h.objectPut (str_of_typed htyped (by simp))
  · next htyped => exact h.setObj (.inl (str_of_typed htyped (by simp)))
  · exact h

lemma OneType.change (h : w.OneType) {α β : Type} {as : TypedValue → Option α} {absent : StoreError → Except StoreError β}
    {f : α → Except StoreError β × Option (Bool × TypedValue)} :
    (w.change key as now absent f).2.OneType := by
  unfold World.change World.putOrDelete
  split
  · exact h
  · next htyped =>
    split
    · exact h
    · split
      · exact h.setObj (.inr rfl)
      · exact h.objectPut (str_of_typed htyped (by simp))

end World

/-! ## The calls -/

namespace Store

open Hoare Hoare.Keeps

variable {L : LogicalConfig} {key : Bytes} {now : Int} {α β : Type} {x : StoreM Cache α}

def OneTyped (now : Int) (s : Store Cache) : Prop := (s.live now).OneType

lemma keeps_of_acts {π : α → β} {f : World → β × World} (hx : Acts now π x f)
    (hf : ∀ w, w.OneType → (f w).2.OneType) : Keeps (OneTyped now) x where
  triple s a s' h hrun := by
    have hlive := hf _ h
    rwa [hx.of_run hrun] at hlive

instance (key : Bytes) (t : Int) : Keeps (OneTyped now) (cacheTTL L.engine key t) where
  triple s a s' h hrun := by
    cases hrun
    exact h

instance (key : Bytes) (t : Int) : Keeps (OneTyped now) (cacheGet L.engine key t) where
  triple s a s' h hrun := by
    cases hrun
    change ({ s with shards := (Cache.get s.shards key t).1 } : Store Cache).live now |>.OneType
    have hget : (Cache.get s.shards key t).1 = s.shards ∨
        (Cache.get s.shards key t).1 = s.shards.erase key := by
      unfold Cache.get
      repeat' split
      all_goals first | exact .inl rfl | exact .inr rfl
    rcases hget with hget | hget
    · rw [hget]
      exact h
    · rw [hget, live_erase_slot]
      exact World.OneType.setStr h (.inl rfl)

instance (key : Bytes) (t : Int) : Keeps (OneTyped now) (objectGet key t : StoreM Cache _) where
  triple s a s' h hrun := by
    rcases objectGet_cases key t s with hget | ⟨o, -, -, hget⟩
    · cases hget.symm.trans hrun
      simpa only [OneTyped, live_erase_object] using World.OneType.setObj h (.inr rfl)
    · cases hget.symm.trans hrun
      exact h

instance (key : Bytes) : Keeps (OneTyped now) (cacheDelete L.engine key) :=
  keeps_of_acts cacheDelete_acts fun _ h => h.setStr (.inl rfl)

instance (key : Bytes) : Keeps (OneTyped now) (deleteObjectKey L.engine key) :=
  keeps_of_acts deleteObjectKey_acts fun _ h => h.setObj (.inr rfl)

lemma hset_oneTyped {pairs : List Bytes} : Triple (OneTyped now) (hset L.engine key pairs now) fun _ => OneTyped now := by
  intro s result s' h hrun
  by_cases hpairs : pairs.length = 0 ∨ pairs.length % 2 ≠ 0
  · unfold hset at hrun
    rw [if_pos hpairs] at hrun
    cases hrun
    exact h
  · by_cases hnil : HoldsNil (s.live now) key
    · rw [hset_of_nil hpairs hnil] at hrun
      cases hrun
    · obtain ⟨r, t, hr, hadd⟩ := hset_run (L := L) hpairs hnil
      cases hr.symm.trans hrun
      change (result, s'.live now).2.OneType
      rw [← hadd]
      exact World.OneType.add h

lemma run_oneTyped {op : StoreOp} (hset : ∀ k v d t, op ≠ .set k v d t)
    (hmset : ∀ pairs t, op ≠ .mset pairs t) (hincr : ∀ k d t, op ≠ .incrBy k d t) :
    Keeps (OneTyped now) ((op.withClock now).run L.engine) := by
  have hacts {α β : Type} {x : StoreM Cache α} {π : α → β} {f : World → β × World} (hx : Acts now π x f)
      (hf : ∀ w, w.OneType → (f w).2.OneType) : Keeps (OneTyped now) (StoreOp.ignore x) :=
    have := keeps_of_acts hx hf
    bind
  cases op with
  | set k v d t => exact absurd rfl (hset k v d t)
  | mset pairs t => exact absurd rfl (hmset pairs t)
  | incrBy k d t => exact absurd rfl (hincr k d t)
  | setNX => exact hacts setNX_acts fun w h => h.setNX
  | setXX => exact hacts setXX_acts fun w h => h.setXX
  | getSet => exact hacts getSet_acts fun w h => h.overwrite
  | append => exact hacts append_acts fun w h => h.overwrite
  | del keys => exact hacts (del_acts keys) fun w h => h.del keys
  | rename => exact hacts rename_acts fun w h => h.rename
  | expire => exact hacts expire_acts fun w h => h.expire
  | expireAt => exact hacts expireAt_acts fun w h => h.expireAt
  | persist => exact hacts persist_acts fun w h => h.expire
  | flushDB => exact keeps_of_acts flushDB_acts fun w h => fun key => .inl rfl
  | restoreEntry key vt payload d t =>
    refine hacts restoreEntry_acts fun w h => ?_
    split
    · exact h
    · exact h.restore
  | activeExpireCycle cacheSamples objectSamples t =>
    exact inferInstanceAs (Keeps _ (activeExpireCycle L.engine cacheSamples objectSamples now))
  | hset => exact ⟨hset_oneTyped.bind fun _ => .pure fun _ h => h⟩
  | hdel => exact hacts hdel_acts fun w h => h.change
  | pushList key left values t =>
    rcases eq_or_ne values [] with rfl | hvalues
    · exact pure _
    · exact hacts (pushList_acts hvalues) fun w h => h.add
  | popList => exact hacts popList_acts fun w h => h.change
  | lset => exact hacts lset_acts fun w h => h.change
  | ltrim => exact hacts ltrim_acts fun w h => h.change
  | sadd key values t =>
    rcases eq_or_ne values [] with rfl | hvalues
    · exact pure _
    · exact hacts (sadd_acts hvalues) fun w h => h.add
  | srem => exact hacts srem_acts fun w h => h.change
  | zadd key values t =>
    rcases eq_or_ne values [] with rfl | hvalues
    · exact pure _
    · exact hacts (zadd_acts hvalues) fun w h => h.add
  | zrem => exact hacts zrem_acts fun w h => h.change
  | _ => exact bind

end Store

namespace TimedStore

open Store

variable {L : LogicalConfig} {c c' : TimedStore} {op : StoreOp}

lemma step_call {a : Unit} {store : Store Cache} (h : (op.withClock c.now).run L.engine c.store = .ok (a, store)) :
    c.step L (.call op) = .ok { c with store } := by
  change ((op.withClock c.now).run L.engine c.store >>= _) >>= _ = _
  rw [h]
  rfl

lemma step_call_eq_ok (h : c.step L (.call op) = .ok c') :
    ∃ store, (op.withClock c.now).run L.engine c.store = .ok ((), store) ∧ c' = { c with store } := by
  obtain ⟨store, hstep, h⟩ := Go.bind_eq_ok.1 h
  obtain ⟨⟨a, t⟩, hrun, hstep⟩ := Go.bind_eq_ok.1 hstep
  cases hstep
  cases h
  exact ⟨_, hrun, rfl⟩

/-- A call that acts like `f` keeps one type exactly when `f` does. -/
lemma oneType_call_iff {α β : Type} {π : α → β} {x : StoreM Cache α} {f : World → β × World}
    (hx : Acts c.now π x f) (hrun : (op.withClock c.now).run L.engine = StoreOp.ignore x) :
    (∀ c', c.step L (.call op) = .ok c' → c'.OneType) ↔ (f (c.store.live c.now)).2.OneType := by
  obtain ⟨a, store, hsto, hlive⟩ := hx c.store
  have hstep : c.step L (.call op) = .ok { c with store } := by
    refine step_call (a := ()) ?_
    rw [hrun, StoreOp.ignore, Views.run_bind hsto]
    rfl
  rw [hstep, hlive]
  constructor
  · exact fun h => h _ rfl
  · intro h c' hc
    cases hc
    exact h

/-- **One step.** From a store whose keys have one type each, a step leads to such a store exactly when it
does not put a string in front of a collection. -/
lemma oneType_step_iff (h : c.OneType) (e : StoreEvent) : (∀ c', c.step L e = .ok c' → c'.OneType) ↔ c.Keeps L e := by
  cases e with
  | wait ns =>
    refine ⟨fun _ => trivial, fun _ c' hc => ?_⟩
    cases hc
    unfold OneType
    rw [live_later (show c.now ≤ c.now + ns by omega)]
    exact h.later _
  | call op =>
    have hoth (hset : ∀ k v d t, op ≠ .set k v d t) (hmset : ∀ pairs t, op ≠ .mset pairs t)
        (hincr : ∀ k d t, op ≠ .incrBy k d t) : ∀ c', c.step L (.call op) = .ok c' → c'.OneType := by
      intro c' hc
      obtain ⟨store, hrun, rfl⟩ := step_call_eq_ok hc
      exact (run_oneTyped hset hmset hincr).triple c.store () store h hrun
    cases op with
    | set key value d t => exact (oneType_call_iff set_acts rfl).trans (oneType_set_iff h)
    | mset pairs t =>
      by_cases hodd : pairs.length % 2 ≠ 0
      · refine ⟨fun _ => .inl hodd, fun _ c' hc => ?_⟩
        obtain ⟨store, hrun, rfl⟩ := step_call_eq_ok hc
        change StoreOp.ignore (Store.mset L.engine pairs c.now) c.store = _ at hrun
        rw [Store.mset, if_pos hodd] at hrun
        cases hrun
        exact h
      · have hacts : Acts c.now id (Store.mset L.engine pairs c.now) fun w => w.mset L.size c.now pairs := by
          rw [Store.mset, if_neg hodd]
          exact msetPairs_acts pairs
        refine (oneType_call_iff hacts rfl).trans ((oneType_mset_iff pairs h).trans ?_)
        exact ⟨.inr, fun hk => hk.resolve_left hodd⟩
    | incrBy key delta t => exact (oneType_call_iff incrBy_acts rfl).trans (oneType_incrBy_iff h)
    | _ =>
      exact ⟨fun _ => trivial, fun _ => hoth (by intros; simp) (by intros; simp) (by intros; simp)⟩

def smallMemory : LogicalConfig where
  size := ⟨minRingBufferSize, Int.le_refl _⟩
  slotFunc := none
  unmarshal _ _ := .error ""

end TimedStore

end AutoCache
