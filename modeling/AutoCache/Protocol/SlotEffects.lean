import AutoCache.Protocol.FastPath
import AutoCache.Protocol.FullSync
import AutoCache.Store.Lasting
import AutoCache.Store.OneType

/-!
# What the operations of a log do to the keys of a slot

As long as no deadline passes and no counter is in the way, an operation does the same at any moment:
`LoggedOp.on` says what, on the live copies of all keys. All operations but `RENAME` treat each key on
its own; `LoggedOp.act` is what they do to one.
-/

namespace AutoCache

open AutoCache.Ring World List KeyState Acts Int64 Prod

/-- A deadline that is not reached at `t`; `0` is none. -/
def Ahead (t d : Int) : Prop := d = 0 ∨ (t < d ∧ d < 2 ^ 63)

namespace KeyState

/-- No copy is a counter, and none expires by `t`. -/
structure Calm (t : Int) (k : KeyState) : Prop where
  str : ∀ slot, k.str = some slot → slot.isCounter = false ∧ Ahead t slot.deadline
  obj : ∀ o, k.obj = some o → Ahead t o.expireAt

lemma calm_gone {t : Int} : gone.Calm t where
  str _ h := by cases h
  obj _ h := by cases h

lemma Calm.entry {t : Int} {k : KeyState} (h : k.Calm t) {slot : Slot} (hslot : k.str = some slot) :
    ∃ e, slot = .entry e ∧ Ahead t e.expireAt.toInt := by
  obtain ⟨hctr, hahead⟩ := h.str slot hslot
  cases slot with
  | counter n hn => cases hctr
  | entry e => exact ⟨e, rfl, hahead⟩

end KeyState

/-! ## Effects -/

def stringSlot (value : Bytes) (expireAt : Int) : Slot :=
  .entry ⟨storedValue value, ofInt expireAt, storedValue_short value⟩

lemma stringSlot_entry (e : Entry) : stringSlot (Slot.entry e).text e.expireAt.toInt = .entry e := by
  simp only [stringSlot, Slot.text, storedValue_of_short e.short, ofInt_toInt]

/-- The value that a list of pairs leaves under a key. -/
def lastValue (key : Bytes) : List Bytes → Option Bytes
  | k :: value :: pairs => (lastValue key pairs).or (if k = key then some value else none)
  | _ => none

/-- The fields of a hash after `HSET`; other values stay as they are. -/
def TypedValue.withFields (pairs : List Bytes) : TypedValue → TypedValue
  | .hash (some fields) => .hash (some (Store.setFields fields pairs).1)
  | v => v

namespace KeyState

def withStr (k : KeyState) (slot : Slot) : KeyState := { k with str := some slot }

/-- A string is in the way of `HSET`. -/
def withFields (pairs : List Bytes) (k : KeyState) : KeyState :=
  match k.str, k.obj with
  | none, none => ⟨none, some ⟨.hash (some (Store.setFields ∅ pairs).1), 0⟩⟩
  | none, some o => ⟨none, some { o with value := o.value.withFields pairs }⟩
  | some _, _ => k

/-- The deadline of the copy that shows. -/
def withDeadline (d : Int) (k : KeyState) : KeyState :=
  match k.str with
  | some (.entry e) => k.withStr (.entry { e with expireAt := ofInt d })
  | _ => { k with obj := k.obj.map fun o => { o with expireAt := d } }

end KeyState

/-- What `RENAME` moves. -/
def World.moved (w : World) (key newkey : Bytes) : World :=
  match (w key).str with
  | some slot => ((w.setStr key none).setObj newkey none).setStr newkey (some slot)
  | none =>
    match (w key).obj with
    | none => w
    | some o => ((w.setObj key none).setStr newkey none).setObj newkey (some o)

namespace Protocol

namespace LoggedOp

def keys : LoggedOp → List Bytes
  | set key _ _ | hset key _ | expire key _ | persist key => [key]
  | mset pairs => StoreOp.pairKeys pairs
  | del keys => keys
  | rename key newkey => [key, newkey]

/-- The deadline that the operation sets is not reached at `t`. -/
def Ahead (t : Int) : LoggedOp → Prop
  | set _ _ expireAtNs => AutoCache.Ahead t expireAtNs
  | expire _ expireAtNs => t < expireAtNs ∧ expireAtNs < 2 ^ 63
  | _ => True

/-- What an operation does to a key on its own. -/
def act (key : Bytes) (k : KeyState) : LoggedOp → KeyState
  | set key' value expireAtNs => if key = key' then k.withStr (stringSlot value expireAtNs) else k
  | mset pairs => ((lastValue key pairs).map fun value => k.withStr (stringSlot value 0)).getD k
  | hset key' pairs => if key = key' then k.withFields pairs else k
  | del keys => if key ∈ keys then .gone else k
  | rename _ _ => k
  | expire key' expireAtNs => if key = key' then k.withDeadline expireAtNs else k
  | persist key' => if key = key' then k.withDeadline 0 else k

/-- What an operation that is logged has met under a key: no collection in the way of a string, no string
in the way of a hash, and something to give a deadline to. -/
def Legal (key : Bytes) (k : KeyState) : LoggedOp → Prop
  | set key' _ _ => key = key' → k.obj = none
  | mset pairs => key ∈ StoreOp.pairKeys pairs → k.obj = none
  | hset key' _ => key = key' → k.str = none
  | expire key' _ | persist key' => key = key' → k ≠ .gone
  | del _ | rename _ _ => True

def on (w : World) : LoggedOp → World
  | rename key newkey => w.moved key newkey
  | op => fun key => op.act key (w key)

end LoggedOp

end Protocol

/-! ## The calls have these effects -/

section Calls

variable {w w' : World} {size : RingSize} {key newkey value : Bytes} {ttl now d : Int}

/-- A time to live that ends at the deadline `d`. -/
def Due (now ttl d : Int) : Prop := (ttl ≤ 0 ∧ d = 0) ∨ (0 < ttl ∧ d = now + ttl ∧ d < 2 ^ 63)

lemma Due.deadline (h : Due now ttl d) : deadline ttl now = ofInt d := by
  rcases h with ⟨httl, rfl⟩ | ⟨httl, rfl, -⟩
  · exact if_neg (by omega)
  · exact if_pos httl

lemma Due.objectDeadline (h : Due now ttl d) (hnow : 0 ≤ now) : objectDeadline ttl now = d := by
  unfold Due at h
  unfold AutoCache.objectDeadline wrap64
  split <;> omega

lemma Due.ahead (h : Due now ttl d) : Ahead now d := by
  unfold Due at h
  unfold Ahead
  omega

lemma Ahead.toInt_ofInt (h : Ahead now d) (hnow : 0 ≤ now) : (ofInt d).toInt = d := by
  unfold Ahead at h
  exact toInt_ofInt_of_le (by omega) (by omega)

lemma Ahead.not_expired {e : Entry} (h : Ahead now e.expireAt.toInt) : ¬ e.expired now := by
  unfold Ahead at h
  unfold Entry.expired
  omega

lemma Ahead.not_expired_object {o : Object} (h : Ahead now o.expireAt) : ¬ o.expired now := by
  unfold Ahead at h
  unfold Object.expired
  omega

lemma freshSlot_of_ahead {e : Entry} (hr : Readable key) (h : Ahead now e.expireAt.toInt) :
    freshSlot key now (.entry e) = some (.entry e) := by
  rw [Store.freshSlot_entry, if_pos ⟨hr, h.not_expired⟩]

lemma freshObject_of_ahead {o : Object} (h : Ahead now o.expireAt) : freshObject now o = some o := by
  rw [Store.freshObject_eq, if_neg h.not_expired_object]

namespace World

open Protocol

open LoggedOp

lemma putStr_eq_on (hr : Readable key) (hdue : Due now ttl d) (hnow : 0 ≤ now) :
    w.putStr key value ttl now = on w (.set key value d) := by
  have hwritten : writtenEntry value ttl now = ⟨storedValue value, ofInt d, storedValue_short value⟩ := by
    simp only [writtenEntry, hdue.deadline]
  have hfresh : freshSlot key now (.entry (writtenEntry value ttl now)) = some (stringSlot value d) := by
    rw [hwritten, freshSlot_of_ahead hr]
    · rfl
    · rw [hdue.ahead.toInt_ofInt hnow]
      exact hdue.ahead
  funext k
  rw [putStr, hfresh, setStr_apply]
  by_cases hk : k = key
  · subst hk
    simp [on, act, withStr]
  · simp [on, act, hk]

lemma set_eq_on (hr : Readable key) (hdue : Due now ttl d) (hnow : 0 ≤ now)
    (h : w.set size key value ttl now = (.ok (), w')) : w' = on w (.set key value d) := by
  unfold set at h
  split at h
  · cases h
  · exact (congrArg snd h).symm.trans (putStr_eq_on hr hdue hnow)

lemma on_mset_cons (w : World) (key value : Bytes) (pairs : List Bytes) :
    on (on w (.set key value 0)) (.mset pairs) = on w (.mset (key :: value :: pairs)) := by
  funext k
  simp only [on, act, lastValue]
  cases lastValue k pairs with
  | some v =>
    by_cases hk : k = key
    · simp [hk, withStr]
    · simp [hk]
  | none =>
    by_cases hk : k = key
    · simp [hk]
    · simp [hk, Ne.symm hk]

lemma mset_eq_on (hnow : 0 ≤ now) : ∀ {pairs : List Bytes} {w : World},
    (∀ key ∈ StoreOp.pairKeys pairs, Readable key) → w.mset size now pairs = (.ok (), w') → w' = on w (.mset pairs)
  | [], w, _, h => (congrArg snd h).symm
  | [_], w, _, h => (congrArg snd h).symm
  | key :: value :: pairs, w, hr, h => by
    rw [mset] at h
    cases hset : w.set size key value 0 now with
    | mk result w₁ =>
      rw [hset] at h
      cases result with
      | error e => cases h
      | ok u =>
        have hfirst := set_eq_on (hr key mem_cons_self) (.inl ⟨le_rfl, rfl⟩) hnow hset
        have hrest := mset_eq_on hnow (fun k hk => hr k (mem_cons_of_mem key hk)) h
        rw [hrest, hfirst, on_mset_cons]

/-- `EXPIRE`, and `PERSIST` with `0` for the deadline. -/
lemma expire_eq_on (hr : Readable key) (hdue : Due now ttl d) (hnow : 0 ≤ now)
    (hcalm : (w key).Calm now) : (w.expire key ttl now).2 = on w (.expire key d) := by
  have hobj : (w.objectExpire key ttl now).2 = w.setObj key ((w key).obj.map fun o => { o with expireAt := d }) := by
    unfold objectExpire
    cases hobj : (w key).obj with
    | none => exact (setObj_of_eq hobj).symm
    | some o =>
      dsimp only
      rw [hdue.objectDeadline hnow, freshObject_of_ahead (o := { o with expireAt := d }) hdue.ahead]
      rfl
  funext k
  unfold expire cacheExpire
  simp only [on, act]
  cases hstr : (w key).str with
  | none =>
    simp only [Bool.false_eq_true, if_false, hobj, setObj_apply]
    by_cases hk : k = key
    · subst hk
      simp [withDeadline, hstr]
    · simp [hk]
  | some slot =>
    obtain ⟨e, rfl, -⟩ := hcalm.entry hstr
    have hfresh : freshSlot key now (.entry { e with expireAt := deadline ttl now }) =
        some (.entry { e with expireAt := ofInt d }) := by
      rw [hdue.deadline]
      refine freshSlot_of_ahead hr ?_
      rw [hdue.ahead.toInt_ofInt hnow]
      exact hdue.ahead
    simp only [if_true, hfresh, setStr_apply]
    by_cases hk : k = key
    · subst hk
      simp [withDeadline, hstr, withStr]
    · simp [hk]

lemma on_persist (w : World) (key : Bytes) : on w (.persist key) = on w (.expire key 0) := rfl

lemma del_eq_on (keys : List Bytes) : w.del keys = on w (.del keys) := by
  funext k
  rw [del_apply]
  rfl

lemma add_fields_eq_on {pairs : List Bytes} {n : Int} (hcalm : (w key).Calm now)
    (h : w.add key Store.asFields? now ∅ (fun fields =>
      (.hash (some (Store.setFields fields pairs).1), (Store.setFields fields pairs).2)) = (.ok n, w')) :
    (w key).str = none ∧ w' = on w (.hset key pairs) := by
  unfold add typed at h
  cases hstr : (w key).str with
  | some slot =>
    simp only [hstr, Option.isSome_some, if_true] at h
    cases h
  | none =>
    refine ⟨rfl, ?_⟩
    simp only [hstr, Option.isSome_none, Bool.false_eq_true, if_false] at h
    have hon (x : Option Object) (hx : (w key).withFields pairs = ⟨none, x⟩) : on w (.hset key pairs) = w.setObj key x := by
      funext k
      simp only [on, act, setObj_apply]
      by_cases hk : k = key
      · subst hk
        simp [hx, hstr]
      · simp [hk]
    cases hobj : (w key).obj with simp only [hobj] at h
    | none =>
      rw [hon _ (by simp only [withFields, hstr, hobj]; rfl)]
      exact (congrArg snd h).symm
    | some o =>
      cases hflds : Store.asFields? o.value with
      | none =>
        rw [hflds] at h
        cases h
      | some fields =>
        simp only [hflds] at h
        have hval : o.value = .hash (some fields) := by
          cases hv : o.value <;> rw [hv] at hflds <;> simp_all [Store.asFields?]
        have hw : w.objectPut key now (.hash (some (Store.setFields fields pairs).1)) =
            w.setObj key (some ⟨.hash (some (Store.setFields fields pairs).1), o.expireAt⟩) := by
          unfold objectPut
          rw [hobj]
          dsimp only
          rw [freshObject_of_ahead]
          exact hcalm.obj o hobj
        rw [hon (some ⟨.hash (some (Store.setFields fields pairs).1), o.expireAt⟩) (by
          simp only [withFields, hstr, hobj, hval, TypedValue.withFields]), ← hw]
        exact (congrArg snd h).symm

lemma due_renameTTL {e : Entry} (hnow : 0 ≤ now) (h : Ahead now e.expireAt.toInt) :
    Due now (w.renameTTL key now (.entry e)) e.expireAt.toInt := by
  unfold renameTTL Slot.ttl
  dsimp only
  by_cases h0 : e.expireAt = 0
  · rw [if_pos h0, h0]
    exact .inl ⟨by simp, rfl⟩
  · have hne : e.expireAt.toInt ≠ 0 := fun h => h0 (toInt_inj.1 h)
    unfold Ahead at h
    rw [if_neg h0, wrap64_of_fits (by omega) (by omega), if_neg (by omega), Option.some_or, Option.getD_some]
    refine .inr ⟨by omega, by omega, by omega⟩

lemma rename_eq_on (hr : Readable newkey) (hnow : 0 ≤ now) (hcalm : (w key).Calm now)
    (h : w.rename size key newkey now = (.ok (), w')) :
    w' = on w (.rename key newkey) := by
  unfold rename at h
  simp only [on, moved]
  cases hstr : (w key).str with
  | some slot =>
    obtain ⟨e, rfl, hahead⟩ := hcalm.entry hstr
    simp only [hstr] at h
    rw [set_eq_on hr (due_renameTTL hnow hahead) hnow h]
    funext k
    simp only [on, act, stringSlot_entry, setStr_apply _ newkey]
    by_cases hk : k = newkey
    · simp [hk, withStr]
    · simp [hk]
  | none =>
    simp only [hstr] at h
    cases hobj : (w key).obj with rw [hobj] at h
    | none =>
      cases h
    | some o =>
      exact (congrArg snd h).symm

/-- `RENAME` fails only for a key that is not there. -/
lemma rename_error {err : StoreError} (hr : Readable newkey) (hcalm : (w key).Calm now)
    (h : w.rename size key newkey now = (.error err, w')) : w' = w := by
  unfold rename at h
  cases hstr : (w key).str with
  | some slot =>
    obtain ⟨e, rfl, -⟩ := hcalm.entry hstr
    simp only [hstr, Slot.text] at h
    rw [set, if_neg (Store.not_tooLarge_of_short hr e.short)] at h
    cases h
  | none =>
    simp only [hstr] at h
    cases hobj : (w key).obj with rw [hobj] at h
    | none =>
      exact (congrArg snd h).symm
    | some o =>
      cases h

lemma set_error {err : StoreError} (hcalm : (w key).Calm now)
    (h : w.set size key value ttl now = (.error err, w')) : w' = w := by
  unfold set at h
  split at h
  · have hstr : (w key).str.filter (!·.isCounter) = (w key).str := by
      cases hs : (w key).str with
      | none => rfl
      | some slot =>
        obtain ⟨e, rfl, -⟩ := hcalm.entry hs
        rfl
    rw [hstr, setStr_self] at h
    exact (congrArg snd h).symm
  · cases h

end World

end Calls

namespace Protocol

variable {L : LogicalConfig} {now : Int} {s s' : Store Cache} {key : Bytes}

lemma hset_of_run {pairs : List Bytes} {result : Except StoreError Int}
    (hcalm : (s.live now key).Calm now) (h : Store.hset L.engine key pairs now s = .ok (result, s')) :
    (∃ n, result = .ok n ∧ (s.live now key).str = none ∧ s'.live now = LoggedOp.on (s.live now) (.hset key pairs)) ∨
    ∃ err, result = .error err ∧ s'.live now = s.live now := by
  by_cases hpairs : pairs.length = 0 ∨ pairs.length % 2 ≠ 0
  · unfold Store.hset at h
    rw [if_pos hpairs] at h
    cases h
    exact .inr ⟨_, rfl, rfl⟩
  · by_cases hnil : Store.HoldsNil (s.live now) key
    · rw [Store.hset_of_nil hpairs hnil] at h
      cases h
    obtain ⟨r, t, hrun, hadd⟩ := Store.hset_run (L := L) hpairs hnil
    cases hrun.symm.trans h
    cases result with
    | ok n =>
      obtain ⟨hstr, hon⟩ := add_fields_eq_on hcalm hadd
      exact .inl ⟨n, rfl, hstr, hon⟩
    | error err =>
      refine .inr ⟨err, rfl, ?_⟩
      unfold add at hadd
      split at hadd
      · cases hadd
      · cases hadd
      · exact (congrArg snd hadd).symm

/-! ## Replay -/

lemma replayCall_eq_ok {α : Type} {x : StoreM Cache (Except StoreError α)}
    (h : replayCall x s = .ok (.ok (), s')) : ∃ a, x s = .ok (.ok a, s') := by
  obtain ⟨⟨r, t⟩, hx, h⟩ := Go.bind_eq_ok.1 h
  cases r with
  | error err => cases h
  | ok a =>
    cases h
    exact ⟨a, hx⟩

lemma replaySure_eq_ok {α : Type} {x : StoreM Cache α} {r : Except ReplayError Unit}
    (h : replaySure x s = .ok (r, s')) : ∃ a, x s = .ok (a, s') := by
  obtain ⟨⟨a, t⟩, hx, h⟩ := Go.bind_eq_ok.1 h
  cases h
  exact ⟨a, hx⟩

lemma due_replayTTL {d : Int} (hnow : 0 ≤ now) (h : Ahead now d) : Due now (replayTTL d now) d := by
  unfold Ahead at h
  unfold replayTTL Store.timeUntil Due
  split <;> omega

/-- **Replay.** An operation that is applied without an error has its effect. -/
lemma LoggedOp.live_apply {op : LoggedOp} (hnow : 0 ≤ now) (hr : ∀ key ∈ op.keys, Readable key)
    (hcalm : ∀ key ∈ op.keys, (s.live now key).Calm now) (hahead : op.Ahead now)
    (h : op.apply L.engine now s = .ok (.ok (), s')) : s'.live now = op.on (s.live now) := by
  cases op with
  | set key value expireAtNs =>
    obtain ⟨u, hrun⟩ := replayCall_eq_ok h
    exact set_eq_on (hr key mem_cons_self) (due_replayTTL hnow hahead) hnow (of_run Store.set_acts hrun)
  | mset pairs =>
    obtain ⟨u, hrun⟩ := replayCall_eq_ok h
    unfold Store.mset at hrun
    split at hrun
    · cases hrun
    · exact mset_eq_on hnow hr (of_run (Store.msetPairs_acts pairs) hrun)
  | hset key pairs =>
    obtain ⟨n, hrun⟩ := replayCall_eq_ok h
    rcases hset_of_run (hcalm key mem_cons_self) hrun with ⟨_, _, _, hon⟩ | ⟨_, herr, _⟩
    · exact hon
    · cases herr
  | del keys =>
    obtain ⟨n, hrun⟩ := replaySure_eq_ok h
    have hdel := of_run (@Store.del_acts L now keys) hrun
    exact (congrArg snd hdel).symm.trans (del_eq_on keys)
  | rename key newkey =>
    obtain ⟨u, hrun⟩ := replayCall_eq_ok h
    exact rename_eq_on (hr newkey (by simp [keys])) hnow (hcalm key mem_cons_self) (of_run Store.rename_acts hrun)
  | expire key expireAtNs =>
    simp only [LoggedOp.apply] at h
    have hpos : ¬ expireAtNs ≤ 0 := by
      have := hahead.1
      omega
    rw [if_neg hpos] at h
    obtain ⟨b, hrun⟩ := replaySure_eq_ok h
    have hexpire : (s.live now).expireAt key now expireAtNs = s'.live now :=
      congrArg snd (of_run (@Store.expireAt_acts L key now expireAtNs) hrun)
    have huntil : Store.timeUntil expireAtNs now = expireAtNs - now := by
      have := hahead.1
      have := hahead.2
      unfold Store.timeUntil
      omega
    rw [← hexpire]
    unfold expireAt
    rw [huntil, if_neg (by have := hahead.1; omega)]
    refine expire_eq_on (hr key mem_cons_self) (.inr ⟨?_, ?_, hahead.2⟩) hnow (hcalm key mem_cons_self)
    · have := hahead.1
      omega
    · omega
  | persist key =>
    obtain ⟨b, hrun⟩ := replaySure_eq_ok h
    have hpersist := congrArg snd (of_run (@Store.persist_acts L key now) hrun)
    rw [on_persist, ← expire_eq_on (hr key mem_cons_self) (.inl ⟨le_rfl, rfl⟩) hnow (hcalm key mem_cons_self)]
    exact hpersist.symm

/-! ## Client writes -/

/-- What a write needs so that the log tells what it does: a string does not cover a collection, `MSET`
does not stop halfway, a deadline is given to a key that is there, and it is ahead. -/
def LoggedWrite.Fits (size : RingSize) (now : Int) (w : World) : LoggedWrite → Prop
  | set key _ opts => (w key).obj = none ∧ now + opts.ttl < 2 ^ 63
  | mset pairs =>
    (∀ key ∈ StoreOp.pairKeys pairs, (w key).obj = none) ∧
      (pairs.length % 2 = 0 → (w.mset size now pairs).1 = .ok ())
  | expire key ttl => w key ≠ .gone ∧ 0 < ttl ∧ now + ttl < 2 ^ 63
  | persist key => w key ≠ .gone
  | hset _ _ | del _ | rename _ _ => True

lemma due_setExpireAtNs {ttl : Int} (hnow : 0 ≤ now) (h : now + ttl < 2 ^ 63) : Due now ttl (setExpireAtNs now ttl) := by
  unfold Due setExpireAtNs addNow wrap64
  split <;> omega

/-- `SET` with its options writes, or it returns an error and leaves everything. -/
lemma setEffect_eq_on {size : RingSize} {value : Bytes} {opts : SetOptions} {w : World} {d : Int}
    (hr : Readable key) (hdue : Due now opts.ttl d) (hnow : 0 ≤ now) (hcalm : (w key).Calm now)
    (hobj : (w key).obj = none) :
    setEffect size now key value opts w = (.ok (), LoggedOp.on w (.set key value d)) ∨
      ∃ err, setEffect size now key value opts w = (.error err, w) := by
  have hput : w.putStr key value opts.ttl now = LoggedOp.on w (.set key value d) :=
    putStr_eq_on hr hdue hnow
  unfold setEffect
  by_cases hnx : opts.nx = true
  · simp only [hnx, if_true, setNX, hobj, Option.isSome_none, cacheSetNX, Bool.false_eq_true, if_false]
    split
    · exact .inr ⟨_, rfl⟩
    · split
      · exact .inr ⟨_, rfl⟩
      · exact .inl (by rw [hput]; rfl)
  · by_cases hxx : opts.xx = true
    · simp only [hnx, hxx, if_true, setXX, hobj, Option.isSome_none, cacheSetXX, Bool.false_eq_true, if_false]
      split
      · split
        · exact .inr ⟨_, rfl⟩
        · exact .inl (by rw [hput]; rfl)
      · exact .inr ⟨_, rfl⟩
    · simp only [hnx, hxx, Bool.false_eq_true, if_false]
      cases hset : w.set size key value opts.ttl now with
      | mk result w' =>
        cases result with
        | ok u => exact .inl (by rw [set_eq_on hr hdue hnow hset]; rfl)
        | error err => exact .inr ⟨_, by rw [set_error hcalm hset]; rfl⟩

lemma setRun_acts {value : Bytes} {opts : SetOptions} :
    Acts now id ((LoggedWrite.set key value opts).run L.engine now) (setEffect L.size now key value opts) :=
  @setApply_acts { plainNode with engine := L.engine } now L rfl key value opts

lemma callback_eq {α : Type} {x : StoreM Cache (Except ApplyError α)} {result : Except ApplyError Unit}
    (h : LoggedWrite.callback x s = .ok (result, s')) :
    ∃ r, x s = .ok (r, s') ∧ result = r.map fun _ => () := by
  obtain ⟨⟨r, t⟩, hx, h⟩ := Go.bind_eq_ok.1 h
  cases r <;> cases h <;> exact ⟨_, hx, rfl⟩

lemma engineApply_eq {α : Type} {x : StoreM Cache (Except StoreError α)} {result : Except ApplyError α}
    (h : engineApply x s = .ok (result, s')) :
    ∃ r, x s = .ok (r, s') ∧ result = r.mapError .store := by
  obtain ⟨⟨r, t⟩, hx, h⟩ := Go.bind_eq_ok.1 h
  cases h
  exact ⟨r, hx, rfl⟩

lemma sureApply_eq {α : Type} {x : StoreM Cache α} {result : Except ApplyError α}
    (h : sureApply x s = .ok (result, s')) : ∃ a, x s = .ok (a, s') ∧ result = .ok a := by
  obtain ⟨⟨a, t⟩, hx, h⟩ := Go.bind_eq_ok.1 h
  cases h
  exact ⟨a, hx, rfl⟩

/-- **Writes.** A write that succeeds has the effect of the operation that is logged for it; one that
fails has none. -/
lemma LoggedWrite.live_run {write : LoggedWrite} {result : Except ApplyError Unit} (hnow : 0 ≤ now)
    (hr : ∀ key ∈ (write.op now).keys, Readable key)
    (hcalm : ∀ key ∈ (write.op now).keys, (s.live now key).Calm now)
    (hfits : write.Fits L.size now (s.live now)) (h : write.run L.engine now s = .ok (result, s')) :
    (result = .ok () ∧ s'.live now = (write.op now).on (s.live now) ∧ (write.op now).Ahead now ∧
      ∀ key, (write.op now).Legal key (s.live now key)) ∨
    ∃ err, result = .error err ∧ s'.live now = s.live now := by
  cases write with
  | set key value opts =>
    have hdue := due_setExpireAtNs hnow hfits.2
    have heffect := of_run setRun_acts h
    rcases @setEffect_eq_on now key L.size value opts (s.live now) _ (hr key mem_cons_self) hdue hnow
      (hcalm key mem_cons_self) hfits.1 with hok | ⟨err, herr⟩
    · obtain ⟨hresult, hlive⟩ := mk.inj (heffect.symm.trans hok)
      exact .inl ⟨hresult, hlive, hdue.ahead, fun k hk => hk ▸ hfits.1⟩
    · obtain ⟨hresult, hlive⟩ := mk.inj (heffect.symm.trans herr)
      exact .inr ⟨err, hresult, hlive⟩
  | mset pairs =>
    obtain ⟨r, hrun, rfl⟩ := engineApply_eq h
    unfold Store.mset at hrun
    split at hrun
    · cases hrun
      exact .inr ⟨_, rfl, rfl⟩
    · next heven =>
      have hmset := of_run (Store.msetPairs_acts pairs) hrun
      obtain rfl : r = .ok () := by
        rw [← hfits.2 (by omega), hmset]
        rfl
      exact .inl ⟨rfl, mset_eq_on hnow hr hmset, trivial, fun key hkey => hfits.1 key hkey⟩
  | hset key pairs =>
    obtain ⟨r, happly, rfl⟩ := callback_eq h
    obtain ⟨r, hrun, rfl⟩ := engineApply_eq happly
    rcases hset_of_run (hcalm key mem_cons_self) hrun with ⟨n, rfl, hstr, hon⟩ | ⟨err, rfl, hlive⟩
    · exact .inl ⟨rfl, hon, trivial, fun k hk => hk ▸ hstr⟩
    · exact .inr ⟨_, rfl, hlive⟩
  | del keys =>
    obtain ⟨r, happly, rfl⟩ := callback_eq h
    obtain ⟨n, hrun, rfl⟩ := sureApply_eq happly
    have hdel := of_run (@Store.del_acts L now keys) hrun
    exact .inl ⟨rfl, (congrArg snd hdel).symm.trans (del_eq_on keys), trivial, fun _ => trivial⟩
  | rename key newkey =>
    obtain ⟨r, hrun, rfl⟩ := engineApply_eq h
    have hrename := of_run Store.rename_acts hrun
    have hnew : Readable newkey := hr newkey (mem_cons_of_mem key mem_cons_self)
    cases r with
    | ok u =>
      exact .inl ⟨rfl, rename_eq_on hnew hnow (hcalm key mem_cons_self) hrename, trivial, fun _ => trivial⟩
    | error err => exact .inr ⟨_, rfl, rename_error hnew (hcalm key mem_cons_self) hrename⟩
  | expire key ttl =>
    obtain ⟨hlive, hpos, hlt⟩ := hfits
    obtain ⟨r, happly, rfl⟩ := callback_eq h
    obtain ⟨b, hrun, rfl⟩ := sureApply_eq happly
    have hadd : addNow now ttl = now + ttl := by
      unfold addNow wrap64
      omega
    have hexpire := congrArg snd (of_run (@Store.expire_acts L key ttl now) hrun)
    refine .inl ⟨rfl, ?_, ?_, fun k hk => hk ▸ hlive⟩
    · simp only [LoggedWrite.op, hadd]
      exact hexpire.symm.trans (expire_eq_on (hr key mem_cons_self) (.inr ⟨hpos, rfl, hlt⟩) hnow (hcalm key mem_cons_self))
    · simp only [LoggedWrite.op, hadd, LoggedOp.Ahead]
      omega
  | persist key =>
    obtain ⟨r, happly, rfl⟩ := callback_eq h
    obtain ⟨b, hrun, rfl⟩ := sureApply_eq happly
    have hpersist := congrArg snd (of_run (@Store.persist_acts L key now) hrun)
    exact .inl ⟨rfl, hpersist.symm.trans (expire_eq_on (hr key mem_cons_self)
      (.inl ⟨le_rfl, rfl⟩) hnow (hcalm key mem_cons_self)), trivial, fun k hk => hk ▸ hfits⟩

end Protocol

end AutoCache
