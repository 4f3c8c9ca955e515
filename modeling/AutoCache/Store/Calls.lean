import AutoCache.Store.World

/-!
# The calls of a store as functions on worlds

One function on worlds for each call that the protocol replicates, and the proof that the call
acts like it. The functions say what the programs hide: which copy of a key a call looks at, and
which one it leaves behind.
-/

namespace AutoCache

open AutoCache.Ring Acts Except

namespace World

variable (w : World) (size : RingSize) (key newkey value : Bytes) (ttl now : Int)

def get : Except StoreError Bytes :=
  match (w key).str with
  | some slot => .ok slot.text
  | none => if (w key).obj.isSome then .error .wrongType else .error .keyNotFound

def setNX : Except StoreError Bool × World :=
  if (w key).obj.isSome then (.ok false, w) else w.cacheSetNX size key value ttl now

/-- Over a live object the write is unconditional, and the object goes. -/
def setXX : Except StoreError Bool × World :=
  if (w key).obj.isSome then
    let r := (w.setObj key none).set size key value ttl now
    (r.1.map fun _ => true, r.2)
  else w.cacheSetXX size key value ttl now

/-- A live entry hides the object from `Expire`; a counter does not. -/
def expire : Bool × World :=
  if (w.cacheExpire key ttl now).1 then w.cacheExpire key ttl now else w.objectExpire key ttl now

def delKey : World := (w.setStr key none).setObj key none

def del (keys : List Bytes) : World := keys.foldl delKey w

lemma delKey_apply (k : Bytes) : w.delKey key k = if k = key then ⟨none, none⟩ else w k := by
  simp only [delKey, setObj_apply, setStr_apply]
  split <;> simp [*]

lemma del_apply (keys : List Bytes) (k : Bytes) : w.del keys k = if k ∈ keys then ⟨none, none⟩ else w k := by
  induction keys generalizing w with
  | nil => simp [del]
  | cons key keys ih =>
    change (w.delKey key).del keys k = _
    rw [ih, delKey_apply]
    by_cases hk : k = key
    · simp [hk]
    · simp [hk]

/-- `ExpireAt`: a time that is past deletes both copies. -/
def expireAt (t : Int) : World :=
  if Store.timeUntil t now < 0 then w.delKey key else (w.expire key (Store.timeUntil t now) now).2

/-- The pairs of `MSet`, until one does not fit. -/
def mset (w : World) : List Bytes → Except StoreError Unit × World
  | key :: value :: pairs =>
    match w.set size key value 0 now with
    | (.error e, w) => (.error e, w)
    | (.ok (), w) => mset w pairs
  | _ => (.ok (), w)

end World

/-- The time a slot has left, as `TTL` tells it. -/
def Slot.ttl (now : Int) : Slot → Option Int
  | .counter _ _ => some (-1)
  | .entry e =>
    if e.expireAt = 0 then some (-1)
    else
      let remaining := wrap64 (e.expireAt.toInt - now)
      if remaining < 0 then none else some remaining

/-- The time an object has left, as `TTL` tells it. -/
def Object.ttl (now : Int) (o : Object) : Option Int :=
  if o.expireAt = 0 then some (-1)
  else
    let remaining := wrap64 (o.expireAt - now)
    if remaining < 0 then none else some remaining

namespace World

variable (w : World) (size : RingSize) (key newkey value : Bytes) (ttl now : Int)

/-- The time to live `Rename` gives a string: that of the string or, when `TTL` finds none for it,
that of the object behind it. -/
def renameTTL (slot : Slot) : Int :=
  max 0 (((slot.ttl now).or ((w key).obj.bind (Object.ttl now))).getD (-2000000000))

/-- A string takes the place of both copies of the new key, an object only of its own and of the
string. -/
def rename : Except StoreError Unit × World :=
  match (w key).str with
  | some slot =>
    ((w.setStr key none).setObj newkey none).set size newkey slot.text (w.renameTTL key now slot) now
  | none =>
    match (w key).obj with
    | none => (.error .keyNotFound, w)
    | some o => (.ok (), ((w.setObj key none).setStr newkey none).setObj newkey (some o))

/-- `IncrBy` looks at the string only. A key without one becomes a counter. -/
def incrBy (delta : Int) : Except StoreError Int × World :=
  match (w key).str with
  | none => (.ok delta, w.setStr key (some (counterSlot delta)))
  | some (.counter n _) =>
    (.ok (wrap64 (n + delta)), w.setStr key (some (counterSlot (wrap64 (n + delta)))))
  | some (.entry e) =>
    match parseInt e.value with
    | none => (.error .notInteger, w)
    | some current =>
      (.ok (wrap64 (current + delta)), w.setStr key (some (counterSlot (wrap64 (current + delta)))))

/-- `GetSet` and `Append`: `text` is what is written over the string, and `reply` what is returned.
A collection without a string in front of it is in the way. -/
def overwrite {α : Type} (text : Option Bytes → Bytes) (reply : Option Bytes → α) :
    Except StoreError α × World :=
  let current := (w key).str.map Slot.text
  if current.isNone ∧ (w key).obj.isSome then (.error .wrongType, w)
  else
    let r := (w.setObj key none).set size key (text current) 0 now
    (r.1.map fun _ => reply current, r.2)

/-- `RestoreEntry` with a value that decodes. -/
def restore (value : Value) : Except StoreError Unit × World :=
  match value with
  | .string text => (w.delKey key).set size key text ttl now
  | .object v =>
    (.ok (), (w.delKey key).setObj key (freshObject now ⟨v, objectDeadline ttl now⟩))

variable {w size key ttl now} in
lemma restore_of_ne {k : Bytes} {value : Value} (hk : k ≠ key) : (w.restore size key ttl now value).2 k = w k := by
  cases value with
  | string text =>
    simp only [restore, set]
    split <;> simp [putStr, setStr_apply, delKey_apply, hk]
  | object v => simp [restore, setObj_apply, delKey_apply, hk]

end World

namespace Store

variable {L : LogicalConfig} {key newkey value : Bytes} {ttl now : Int}

/-! ## Strings -/

lemma get_acts : Acts now id (get L.engine key now) fun w => (w.get key, w) := by
  let miss (found : Bool) : Except StoreError Bytes :=
    if found then .error .wrongType else .error .keyNotFound
  refine (bind (g := fun v w => (v.elim (miss (w key).obj.isSome) ok, w)) cacheGet_acts fun value => ?_).congr fun w => ?_
  · cases value with
    | some text => exact pure _
    | none =>
      refine bind (g := fun found w => (miss found, w)) hasObjectKey_acts fun found => ?_
      cases found <;> exact pure _
  · unfold World.get
    cases (w key).str <;> rfl

lemma set_acts : Acts now id (set L.engine key value ttl now) fun w => w.set L.size key value ttl now :=
  bind (g := fun r w => (r, w)) cacheSet_acts fun outcome => pure (writeError outcome)

lemma setNX_acts : Acts now id (setNX L.engine key value ttl now) fun w => w.setNX L.size key value ttl now := by
  refine bind (g := fun b w => if b then (.ok false, w)
    else w.cacheSetNX L.size key value ttl now) hasObjectKey_acts fun found => ?_
  cases found
  · exact bind (g := fun r w => (r, w)) cacheSetNX_acts fun outcome => pure _
  · exact pure _

lemma setXX_acts : Acts now id (setXX L.engine key value ttl now) fun w => w.setXX L.size key value ttl now := by
  refine Acts.bind (g := fun b w => if b then
      let r := (w.setObj key none).set L.size key value ttl now
      (r.1.map fun _ => true, r.2)
    else w.cacheSetXX L.size key value ttl now) hasObjectKey_acts fun found => ?_
  cases found
  · exact Acts.bind (g := fun r w => (r, w)) cacheSetXX_acts fun outcome => Acts.pure _
  · exact Acts.congr (removeObjectKey_acts.seq fun _ =>
        Acts.bind (g := fun r w => (r.map fun _ => true, w)) cacheSet_acts fun outcome =>
          Acts.pure ((writeError outcome).map fun _ => true)) fun _ => rfl

lemma msetPairs_acts (pairs : List Bytes) : Acts now id (msetPairs L.engine now pairs) fun w => w.mset L.size now pairs := by
  induction pairs using List.twoStepInduction with
  | nil => exact pure _
  | singleton => exact pure _
  | cons_cons key value pairs ih =>
    refine (bind (g := fun r w => if r.isOk then w.mset L.size now pairs else (r, w)) set_acts fun r => ?_).congr fun w => ?_
    · cases r with
      | error e => exact pure _
      | ok u => exact ih
    · rw [World.mset]
      rcases w.set L.size key value 0 now with ⟨_ | _, w'⟩ <;> rfl

/-! ## Keys -/

lemma expire_acts : Acts now id (expire L.engine key ttl now) fun w => w.expire key ttl now := by
  refine (bind (g := fun b w => if b then (true, w) else w.objectExpire key ttl now)
    cacheExpire_acts fun done => ?_).congr fun w => ?_
  · cases done
    · exact objectExpire_acts
    · exact pure true
  · unfold World.expire World.cacheExpire
    split <;> rfl

lemma persist_acts : Acts now id (persist L.engine key now) fun w => w.expire key 0 now :=
  expire_acts

lemma delKey_acts : Acts now (fun _ => ()) (delKey L.engine key) fun w => ((), w.delKey key) :=
  Acts.congr (cacheDelete_acts.seq fun _ => deleteObjectKey_acts.seq fun _ => pure _) fun _ => rfl

lemma del_acts (keys : List Bytes) : Acts now (fun _ => ()) (del L.engine keys) fun w => ((), w.del keys) := by
  induction keys with
  | nil => exact pure 0
  | cons key keys ih => exact Acts.congr (delKey_acts.seq fun _ => ih.seq fun _ => pure _) fun _ => rfl

lemma expireAt_acts {t : Int} : Acts now (fun _ => ()) (expireAt L.engine key t now) fun w => ((), w.expireAt key now t) := by
  unfold expireAt World.expireAt
  by_cases ht : timeUntil t now < 0
  · simp only [ht, if_true]
    exact delKey_acts
  · simp only [ht, if_false]
    exact (@expire_acts L key (timeUntil t now) now).map fun _ => ()

/-! ## Renaming -/

section Rename

variable {s s' : Store Cache}

lemma cacheGet_of_live {slot : Slot} (h : (s.live now key).str = some slot) :
    cacheGet L.engine key now s = .ok (some slot.text, s) := by
  obtain ⟨hl, hlive⟩ := lookup_of_live h
  have hget : Cache.get s.shards key now = (s.shards, some slot.text) := by
    unfold Cache.get
    cases slot with
    | counter n h => simp [hl, Slot.text]
    | entry e => simp [hl, hlive.1, hlive.2, Slot.text]
  change ok ((Cache.get s.shards key now).2, ({ s with shards := (Cache.get s.shards key now).1 } : Store Cache)) = _
  rw [hget]

lemma objectTTL_acts : Acts now id (objectTTL (σ := Cache) key now) fun w => ((w key).obj.bind (Object.ttl now), w) := by
  refine bind (g := fun o w => (o.bind (Object.ttl now), w)) objectGet_acts fun o => ?_
  cases o with
  | none => exact pure none
  | some o =>
    simp only [id, Option.bind_some, Object.ttl]
    split
    · exact pure (some (-1))
    · split
      · exact pure none
      · exact pure (some _)

lemma cacheTTL_of_live {slot : Slot} (h : (s.live now key).str = some slot) :
    cacheTTL L.engine key now s = .ok (slot.ttl now, s) := by
  obtain ⟨hl, -⟩ := lookup_of_live h
  change ok (Cache.ttl s.shards key now, s) = _
  cases slot <;> simp only [Cache.ttl, Slot.ttl, hl]

lemma ttlOrZero_of_live {slot : Slot} (h : (s.live now key).str = some slot) :
    ∃ s', ttlOrZero L.engine key now s = .ok ((s.live now).renameTTL key now slot, s') ∧ s'.live now = s.live now := by
  have hmax (n : Int) : (if n < 0 then 0 else n) = max 0 n := by
    split <;> omega
  unfold ttlOrZero Store.ttl World.renameTTL
  rw [bind_assoc, Views.run_bind (cacheTTL_of_live h)]
  cases slot.ttl now with
  | some t => exact ⟨s, by simp only [hmax]; rfl, rfl⟩
  | none =>
    obtain ⟨t, s', hobj, hlive⟩ := @objectTTL_acts key now s
    rw [bind_assoc, Views.run_bind hobj]
    simp only [id, Prod.mk.injEq] at hlive
    refine ⟨s', ?_, hlive.2.symm⟩
    rw [hlive.1]
    cases t <;> simp only [hmax] <;> rfl

lemma moveString_acts {text : Bytes} : Acts now id (do
      let _ ← cacheDelete L.engine key
      let _ ← deleteObjectKey L.engine newkey
      let outcome ← cacheSet L.engine newkey text ttl now
      return writeError outcome)
      fun w => ((w.setStr key none).setObj newkey none).set L.size newkey text ttl now :=
  cacheDelete_acts.seq fun _ => deleteObjectKey_acts.seq fun _ => set_acts

lemma moveObject_acts {o : Object} : Acts now id (do
      let _ ← deleteObjectKey L.engine key
      let _ ← cacheDelete L.engine newkey
      objectSetEntry newkey o
      trackKey L.engine newkey
      return (.ok () : Except StoreError Unit))
      fun w => (.ok (), ((w.setObj key none).setStr newkey none).setObj newkey (freshObject now o)) :=
  deleteObjectKey_acts.seq fun _ => cacheDelete_acts.seq fun _ => objectSetEntry_acts.seq fun _ =>
    trackKey_acts.seq fun _ => pure _

lemma rename_acts : Acts now id (rename L.engine key newkey now) fun w => w.rename L.size key newkey now := by
  intro s
  dsimp only
  unfold rename World.rename
  cases h : (s.live now key).str with
  | some slot =>
    obtain ⟨s', httl, hlive⟩ := ttlOrZero_of_live (L := L) h
    rw [Views.run_bind (cacheGet_of_live h)]
    dsimp only
    rw [Views.run_bind httl]
    have hmove := @moveString_acts L key newkey ((s.live now).renameTTL key now slot) now slot.text s'
    rw [hlive] at hmove
    exact hmove
  | none =>
    obtain ⟨v, s', hget, hlive⟩ := @cacheGet_acts L key now s
    simp only [h, Option.map_none, id, Prod.mk.injEq] at hlive
    rw [Views.run_bind hget, ← hlive.1, hlive.2]
    dsimp only
    obtain ⟨o, s'', hobj, hlive'⟩ := @objectGet_acts key now s'
    simp only [id, Prod.mk.injEq] at hlive'
    rw [Views.run_bind hobj, hlive'.1, hlive'.2]
    cases o with
    | none => exact ⟨_, _, rfl, rfl⟩
    | some o =>
      have hmove := @moveObject_acts L key newkey now o s''
      have hfresh : freshObject now o = some o := by
        have hobj := hlive'.1
        simp only [live, Option.filter_eq_some_iff, decide_eq_true_eq] at hobj
        rw [freshObject_eq, if_neg hobj.2]
      rw [hfresh] at hmove
      exact hmove

end Rename

/-! ## Counters and overwriting -/

/-- The result of `IncrBy`. -/
def incrResult : Shard.IncrOutcome → Except StoreError Int
  | .created n => .ok n
  | .updated n => .ok n
  | .notInteger => .error .notInteger

lemma onShards_incrBy_acts {delta : Int} :
    Acts now incrResult (onShards fun c => L.engine.incrBy c key delta now) fun w => w.incrBy key delta := by
  intro s
  refine ⟨(Cache.incrBy s.shards key delta now).2, { s with shards := (Cache.incrBy s.shards key delta now).1 }, rfl, ?_⟩
  have hctr (n : Int) : freshSlot key now (counterSlot n) = some (counterSlot n) :=
    freshSlot_counter
  dsimp only
  unfold Cache.incrBy World.incrBy
  cases hl : s.shards.lookup key with
  | none => simp only [live_str_of_none hl, live_insert_slot, hctr, incrResult]
  | some slot =>
    rw [live_str_of_lookup hl]
    cases slot with
    | counter n h => simp only [freshSlot_counter, live_insert_slot, hctr, incrResult]
    | entry e =>
      rw [freshSlot_entry]
      by_cases he : Readable key ∧ ¬ e.expired now
      · have hgone : ¬ (¬ Readable key ∨ e.expired now) := by tauto
        simp only [if_pos he, if_neg hgone]
        cases parseInt e.value with
        | none => simp only [incrResult]
        | some current => simp only [live_insert_slot, hctr, incrResult]
      · have hgone : ¬ Readable key ∨ e.expired now := by tauto
        simp only [if_neg he, if_pos hgone, live_insert_slot, hctr, incrResult]

lemma incrBy_acts {delta : Int} : Acts now id (incrBy L.engine key delta now) fun w => w.incrBy key delta := by
  have hcache : Acts now incrResult (cacheIncrBy L.engine key delta now) fun w => w.incrBy key delta := by
    refine bind (g := fun r w => (r, w)) onShards_incrBy_acts fun outcome => ?_
    cases outcome with
    | created n =>
      exact trackKey_acts.seq fun _ => pure _
    | updated n | notInteger => exact pure _
  refine bind (g := fun r w => (r, w)) hcache fun outcome => ?_
  cases outcome <;> exact pure _

lemma holdsOther_acts {current : Option Bytes} : Acts now id (holdsOther (σ := Cache) current key now)
      fun w => (decide (current.isNone ∧ (w key).obj.isSome), w) := by
  cases current with
  | none =>
    refine hasObjectKey_acts.congr fun w => ?_
    simp
  | some text => exact (pure false).congr fun w => by simp

lemma overwrite_acts {α : Type} {text : Option Bytes → Bytes} {reply : Option Bytes → α} : Acts now id (do
      let current ← cacheGet L.engine key now
      if ← holdsOther current key now then return .error .wrongType
      else
        removeObjectKey L.engine key
        let outcome ← cacheSet L.engine key (text current) 0 now
        return (writeError outcome).map fun _ => reply current)
      fun w => w.overwrite L.size key now text reply := by
  refine Acts.bind (g := fun current w => if current.isNone ∧ (w key).obj.isSome then
      (error .wrongType, w)
    else
      let r := (w.setObj key none).set L.size key (text current) 0 now
      (r.1.map fun _ => reply current, r.2)) cacheGet_acts fun current => ?_
  refine (Acts.bind (g := fun other w => if other then (error .wrongType, w)
    else
      let r := (w.setObj key none).set L.size key (text current) 0 now
      (r.1.map fun _ => reply current, r.2)) holdsOther_acts fun other => ?_).congr fun w => ?_
  · cases other
    · exact Acts.congr (removeObjectKey_acts.seq fun _ =>
          Acts.bind (g := fun r w => (r.map fun _ => reply current, w)) cacheSet_acts
            fun outcome => Acts.pure ((writeError outcome).map fun _ => reply current)) fun _ => rfl
    · exact Acts.pure _
  · simp only [decide_eq_true_eq, id]

lemma getSet_acts : Acts now id (getSet L.engine key value now)
    fun w => w.overwrite L.size key now (fun _ => value) fun current => current.getD [] :=
  overwrite_acts

lemma append_acts : Acts now id (append L.engine key value now)
    fun w => w.overwrite L.size key now (fun current => current.getD [] ++ value)
      fun current => ((current.getD [] ++ value).length : Int) :=
  overwrite_acts

/-! ## Whole stores -/

lemma flushDB_acts : Acts now id (flushDB L.engine) fun _ => ((), fun _ => ⟨none, none⟩) :=
  fun _ => ⟨(), ⟨∅, ∅, ∅⟩, rfl, rfl⟩

/-- The value `RestoreEntry` gets from its payload. -/
def restoredValue (L : LogicalConfig) (type : ValueType) (payload : Bytes) : Except String Value :=
  match type with
  | .string => .ok (.string payload)
  | _ => (L.unmarshal type payload).map .object

lemma restoreEntry_of_object {σ : Type} {E : Engine σ} {type : ValueType} {payload : Bytes}
    (h : type ≠ .string) : restoreEntry E key type payload ttl now = match E.unmarshal type payload with
      | .error text => return .error (.decode text)
      | .ok value => do
        let _ ← cacheDelete E key
        let _ ← deleteObjectKey E key
        objectSet key value ttl now
        trackKey E key
        return .ok () := by
  cases type <;> first | exact absurd rfl h | rfl

lemma restoreEntry_acts {type : ValueType} {payload : Bytes} :
    Acts now id (restoreEntry L.engine key type payload ttl now) fun w =>
      match restoredValue L type payload with
      | .error text => (.error (.decode text), w)
      | .ok value => w.restore L.size key ttl now value := by
  have hobject : ∀ type, type ≠ .string → Acts now id (restoreEntry L.engine key type payload ttl now)
      fun w => match (L.unmarshal type payload).map Value.object with
        | .error text => (.error (.decode text), w)
        | .ok value => w.restore L.size key ttl now value := by
    intro type htype
    rw [restoreEntry_of_object htype, show L.engine.unmarshal = L.unmarshal from rfl]
    cases L.unmarshal type payload with
    | error text => exact pure _
    | ok v =>
      exact cacheDelete_acts.seq fun _ => deleteObjectKey_acts.seq fun _ => objectSetEntry_acts.seq fun _ =>
        trackKey_acts.seq fun _ => pure _
  cases type with
  | string =>
    refine Acts.congr (cacheDelete_acts.seq fun _ => deleteObjectKey_acts.seq fun _ =>
      removeObjectKey_acts.seq fun _ => set_acts) fun w => ?_
    simp only [World.setObj_setObj, restoredValue, World.restore, World.delKey]
  | list | set | hash | zset => exact hobject _ (by decide)

end Store

end AutoCache
