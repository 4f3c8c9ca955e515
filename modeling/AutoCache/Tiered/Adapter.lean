import AutoCache.Tiered.View

/-!
# The string and generic operations over the tiers (`TieredStoreAdapter`)

Most operations go to the manager, which knows both tiers. `Incr`, `Decr` and `MSet` go to the memory
store, which is the hot tier alone.
-/

namespace AutoCache.Tiered

open Views Tiers Simulates

section Adapter

variable {σ : Type} (E : Engine σ) (now : Int)

def incr (key : Bytes) : TierM σ (Except TierError Int) := do
  let result ← hotCall (Store.incr E key now)
  return result.mapError .hot

def decr (key : Bytes) : TierM σ (Except TierError Int) := do
  let result ← hotCall (Store.decr E key now)
  return result.mapError .hot

def decrBy (key : Bytes) (delta : Int) : TierM σ (Except TierError Int) :=
  incrBy E now key (wrap64 (-delta))

def mset (pairs : List Bytes) : TierM σ (Except TierError Unit) := do
  let result ← hotCall (Store.mset E pairs now)
  return result.mapError .hot

/-- `Rename`; `marshal` is `mustSerializeEntry`, which may panic. -/
def rename (marshal : TypedValue → Go Bytes) (key newkey : Bytes) : TierM σ (Except TierError Unit) := do
  match ← getEntry E now key with
  | none => return .error .keyNotFound
  | some entry =>
    let ttl ← ttl E now key
    let _ ← del E now [newkey]
    let _ ← del E now [key]
    match entry.value with
    | .object value =>
      let payload ← marshal value
      let result ← hotCall (Store.restoreEntry E newkey value.type payload ttl now)
      return result.mapError .hot
    | .string text => set E now newkey text ttl

end Adapter

inductive TierOp where
  | getBytes (key : Bytes)
  | strlen (key : Bytes)
  | incr (key : Bytes)
  | decr (key : Bytes)
  | incrBy (key : Bytes) (delta : Int)
  | decrBy (key : Bytes) (delta : Int)
  | append (key suffix : Bytes)
  | getSet (key value : Bytes)
  | setNX (key value : Bytes) (ttl : Int)
  | setXX (key value : Bytes) (ttl : Int)
  | mset (pairs : List Bytes)
  | mgetBytes (keys : List Bytes)
  | existsKeys (keys : List Bytes)
  | type (key : Bytes)
  | ttl (key : Bytes)
  | expire (key : Bytes) (ttl : Int)
  | persist (key : Bytes)
  | rename (key newkey : Bytes)

/-- The keys of the pairs of `MSet`. -/
def msetKeys : List Bytes → List Bytes
  | key :: _ :: pairs => key :: msetKeys pairs
  | _ => []

def TierOp.keys : TierOp → List Bytes
  | .getBytes key | .strlen key | .incr key | .decr key | .incrBy key _ | .decrBy key _ | .append key _
  | .getSet key _ | .setNX key _ _ | .setXX key _ _ | .type key | .ttl key | .expire key _ | .persist key =>
    [key]
  | .mset pairs => msetKeys pairs
  | .mgetBytes keys | .existsKeys keys => keys
  | .rename key newkey => [key, newkey]

inductive TierReply where
  | bytes (reply : Except TierError Bytes)
  | int (reply : Except TierError Int)
  | bool (reply : Except TierError Bool)
  | done (reply : Except TierError Unit)
  | values (reply : Except TierError (List (Option Bytes)))
  | type (reply : Option ValueType)

def TierOp.run {σ : Type} (E : Engine σ) (marshal : TypedValue → Go Bytes) (now : Int) :
    TierOp → TierM σ TierReply
  | .getBytes key => .bytes <$> Tiered.get E now key
  | .strlen key => .int <$> Tiered.strlen E now key
  | .incr key => .int <$> Tiered.incr E now key
  | .decr key => .int <$> Tiered.decr E now key
  | .incrBy key delta => .int <$> Tiered.incrBy E now key delta
  | .decrBy key delta => .int <$> Tiered.decrBy E now key delta
  | .append key suffix => .int <$> Tiered.append E now key suffix
  | .getSet key value => .bytes <$> Tiered.getSet E now key value
  | .setNX key value time => .bool <$> Tiered.setNX E now key value time
  | .setXX key value time => .bool <$> Tiered.setXX E now key value time
  | .mset pairs => .done <$> Tiered.mset E now pairs
  | .mgetBytes keys => .values <$> Tiered.mgetBytes E now keys
  | .existsKeys keys => (fun n => .int (.ok n)) <$> Tiered.existsKeys E now keys
  | .type key => .type <$> Tiered.type E now key
  | .ttl key => (fun n => .int (.ok n)) <$> Tiered.ttl E now key
  | .expire key time => (fun found => .bool (.ok found)) <$> Tiered.expire E now key time
  | .persist key => (fun found => .bool (.ok found)) <$> Tiered.persist E now key
  | .rename key newkey => .done <$> Tiered.rename E now marshal key newkey

/-! ## On views -/

namespace TierView

variable (v : TierView) (now : Int) (key : Bytes)

def existsKeys (keys : List Bytes) : Int := (keys.map fun key => if (v.entry now key).isSome then 1 else 0).sum

def setNX (size : RingSize) (value : Bytes) (ttl : Int) : Except TierError Bool × TierView :=
  if (v.entry now key).isSome then (.ok false, v)
  else ((v.set now key size value ttl).1.map fun _ => true, (v.set now key size value ttl).2)

def setXX (size : RingSize) (value : Bytes) (ttl : Int) : Except TierError Bool × TierView :=
  if (v.entry now key).isSome then
    ((v.set now key size value ttl).1.map fun _ => true, (v.set now key size value ttl).2)
  else (.ok false, v)

/-- What `next` makes of the string is written after both copies are gone. -/
def rewrite {α : Type} (size : RingSize) (next : Option Bytes → Except TierError (Bytes × α)) :
    Except TierError α × TierView :=
  let write (current : Option Bytes) : Except TierError α × TierView :=
    match next current with
    | .error e => (.error e, v)
    | .ok (value, reply) =>
      (((v.del [key]).set now key size value 0).1.map fun _ => reply,
        ((v.del [key]).set now key size value 0).2)
  match v.get key with
  | .ok current => write (some current)
  | .error .keyNotFound => write none
  | .error e => (.error e, v)

def strlen : Except TierError Int :=
  match v.get key with
  | .ok value => .ok value.length
  | .error .keyNotFound => .ok 0
  | .error e => .error e

def mgetBytes : List Bytes → Except TierError (List (Option Bytes))
  | [] => .ok []
  | key :: keys =>
    match v.get key with
    | .ok value => (mgetBytes keys).map (some value :: ·)
    | .error .keyNotFound => (mgetBytes keys).map (none :: ·)
    | .error e => .error e

/-- `Incr` and `Decr`. -/
def incrBy (delta : Int) : Except TierError Int × TierView :=
  ((v.hot.incrBy key delta).1.mapError .hot, { v with hot := (v.hot.incrBy key delta).2 })

def mset (size : RingSize) (pairs : List Bytes) : Except TierError Unit × TierView :=
  if pairs.length % 2 ≠ 0 then (.error (.hot .wrongNumber), v)
  else ((v.hot.mset size now pairs).1.mapError .hot, { v with hot := (v.hot.mset size now pairs).2 })

end TierView

section Simulation

variable {L : LogicalConfig} {now : Int} {key value : Bytes}

lemma existsKeys_simulates (keys : List Bytes) :
    Simulates (view now) id (existsKeys L.engine now keys) fun v => (v.existsKeys now keys, v) := by
  induction keys with
  | nil => exact .pure 0
  | cons key keys ih =>
    exact bind (g := fun (entry : Option EngineEntry) v =>
      ((if entry.isSome then 1 else 0) + v.existsKeys now keys, v)) getEntry_simulates fun entry =>
        ih.andThen _

lemma existsKeys_one (v : TierView) : v.existsKeys now [key] = if (v.entry now key).isSome then 1 else 0 := by
  simp [TierView.existsKeys]

lemma setNX_simulates {ttl : Int} : Simulates (view now) id (setNX L.engine now key value ttl)
    fun v => v.setNX now key L.size value ttl := by
  refine (bind (g := fun (count : Int) v => if count > 0 then (.ok false, v)
    else ((v.set now key L.size value ttl).1.map fun _ => true, (v.set now key L.size value ttl).2))
    (existsKeys_simulates [key]) fun count => ?_).congr fun v => ?_
  · simp only [id]
    split
    · exact .pure _
    · exact set_simulates.andThen _
  · unfold TierView.setNX
    rw [existsKeys_one]
    split <;> rfl

lemma setXX_simulates {ttl : Int} : Simulates (view now) id (setXX L.engine now key value ttl)
    fun v => v.setXX now key L.size value ttl := by
  refine (bind (g := fun (count : Int) v => if count = 0 then (.ok false, v)
    else ((v.set now key L.size value ttl).1.map fun _ => true, (v.set now key L.size value ttl).2))
    (existsKeys_simulates [key]) fun count => ?_).congr fun v => ?_
  · simp only [id]
    split
    · exact .pure _
    · exact set_simulates.andThen _
  · unfold TierView.setXX
    rw [existsKeys_one]
    split <;> rfl

lemma rewrite_simulates {α : Type} {next : Option Bytes → Except TierError (Bytes × α)} :
    Simulates (view now) id (rewrite L.engine now key next) fun v => v.rewrite now key L.size next := by
  have hwr (value : Bytes) (reply : α) : Simulates (view now) id (do
      let _ ← del L.engine now [key]
      let result ← set L.engine now key value 0
      return result.map fun _ => reply)
      fun v => (((v.del [key]).set now key L.size value 0).1.map fun _ => reply,
        ((v.del [key]).set now key L.size value 0).2) :=
    bind (g := fun _ v => ((v.set now key L.size value 0).1.map fun _ => reply,
      (v.set now key L.size value 0).2)) del_simulates fun _ => set_simulates.andThen _
  have hnext (current : Option Bytes) : Simulates (view now) id (match next current with
        | .error e => return .error e
        | .ok (value, reply) => do
          let _ ← del L.engine now [key]
          let result ← set L.engine now key value 0
          return result.map fun _ => reply)
      fun v => match next current with
        | .error e => (.error e, v)
        | .ok (value, reply) =>
          (((v.del [key]).set now key L.size value 0).1.map fun _ => reply,
            ((v.del [key]).set now key L.size value 0).2) := by
    rcases next current with e | ⟨value, reply⟩
    · exact .pure _
    · exact hwr value reply
  refine (bind (g := fun (r : Except TierError Bytes) v =>
    match r with
    | .ok current => match next (some current) with
      | .error e => (.error e, v)
      | .ok (value, reply) =>
        (((v.del [key]).set now key L.size value 0).1.map fun _ => reply, ((v.del [key]).set now key L.size value 0).2)
    | .error .keyNotFound => match next none with
      | .error e => (.error e, v)
      | .ok (value, reply) =>
        (((v.del [key]).set now key L.size value 0).1.map fun _ => reply, ((v.del [key]).set now key L.size value 0).2)
    | .error e => (.error e, v)) get_simulates fun r => ?_).congr fun v => ?_
  · cases r with
    | ok current => exact hnext (some current)
    | error e =>
      cases e with
      | keyNotFound => exact hnext none
      | _ => exact .pure _
  · rfl

lemma strlen_simulates : Simulates (view now) id (strlen L.engine now key) fun v => (v.strlen key, v) := by
  refine (bind (g := fun (r : Except TierError Bytes) v => (match r with
    | .ok value => .ok (value.length : Int)
    | .error .keyNotFound => .ok 0
    | .error e => .error e, v)) get_simulates fun r => ?_).congr fun v => rfl
  cases r with
  | ok value => exact .pure _
  | error e => cases e <;> exact .pure _

lemma mgetBytes_simulates (keys : List Bytes) :
    Simulates (view now) id (mgetBytes L.engine now keys) fun v => (v.mgetBytes keys, v) := by
  induction keys with
  | nil => exact .pure _
  | cons key keys ih =>
    refine (bind (g := fun (r : Except TierError Bytes) v => (match r with
      | .ok value => (v.mgetBytes keys).map (some value :: ·)
      | .error .keyNotFound => (v.mgetBytes keys).map (none :: ·)
      | .error e => .error e, v)) get_simulates fun r => ?_).congr fun v => rfl
    have hrest (value : Option Bytes) : Simulates (view now) id (do
        let values ← mgetBytes L.engine now keys
        return values.map (value :: ·)) fun v => ((v.mgetBytes keys).map (value :: ·), v) :=
      ih.andThen _
    cases r with
    | ok value => exact hrest (some value)
    | error e =>
      cases e with
      | keyNotFound => exact hrest none
      | _ => exact .pure _

lemma hotIncrBy_simulates {delta : Int} : Simulates (view now) id (do
      let result ← hotCall (Store.incrBy L.engine key delta now)
      return result.mapError TierError.hot)
    fun v => v.incrBy key delta :=
  (hotCall_simulates Store.incrBy_acts).andThen _

lemma mset_simulates {pairs : List Bytes} : Simulates (view now) id (mset L.engine now pairs)
    fun v => v.mset now L.size pairs := by
  have hmset : Acts now id (Store.mset L.engine pairs now) fun w =>
      if pairs.length % 2 ≠ 0 then (.error .wrongNumber, w) else w.mset L.size now pairs := by
    unfold Store.mset
    split
    · exact .pure _
    · exact Store.msetPairs_acts pairs
  refine ((hotCall_simulates hmset).andThen _).congr fun v => ?_
  unfold TierView.mset
  split <;> rfl

end Simulation

end AutoCache.Tiered
