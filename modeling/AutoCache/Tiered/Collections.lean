import AutoCache.Store.CollectionCalls
import AutoCache.Tiered.OneTier

/-!
# Collections over the tiers (`TieredStoreAdapter`)

The adapter hands every operation on a collection to the memory store, which is the hot tier. After a
demotion that tier does not have the key, and the operation answers as for a key that does not exist;
one that adds creates a second collection, which then hides the one in the warm tier.

All operations are of three kinds: they read the collection they find, add to it, or take something
out of it. What a demotion changes is said once for each kind.
-/

namespace AutoCache

namespace Store

variable {σ : Type} (E : Engine σ) (sorted : GoMap Bytes Score → List Bytes)

/-- `ZRange`; `sorted` is the order of `sortedZMembers`. -/
def zrange (key : Bytes) (start stop now : Int) : StoreM σ (Except StoreError (List Bytes)) := do
  let scores ← getZSetValue E key now
  return orAbsent [] (scores.map fun scores =>
    match normalizeRange (sorted scores).length start stop with
    | none => []
    | some (i, j) => slice (sorted scores) i j)

def zrank (key member : Bytes) (now : Int) : StoreM σ (Except StoreError Int) := do
  match ← getZSetValue E key now with
  | .error e => return .error e
  | .ok scores =>
    match (sorted scores).idxOf? member with
    | none => return .error .keyNotFound
    | some i => return .ok i

end Store

/-- What `GetEntry` reports for a collection. -/
def Object.shown (o : Object) : Tiered.EngineEntry :=
  ⟨.object o.value, if o.expireAt > 0 then some o.expireAt else none⟩

namespace Tiered

open Views

/-! ## Operations -/

inductive CollectionOp where
  | hget (field : Bytes)
  | hset (pairs : List Bytes)
  | hdel (fields : List Bytes)
  | hexists (field : Bytes)
  | hgetAll
  | hlen
  | lpush (values : List Bytes)
  | rpush (values : List Bytes)
  | lpop
  | rpop
  | lrange (start stop : Int)
  | llen
  | lindex (index : Int)
  | lset (index : Int) (value : Bytes)
  | ltrim (start stop : Int)
  | sadd (members : List Bytes)
  | srem (members : List Bytes)
  | smembers
  | sisMember (member : Bytes)
  | scard
  | zadd (members : List (Score × Bytes))
  | zrem (members : List Bytes)
  | zrange (start stop : Int)
  | zscore (member : Bytes)
  | zrank (member : Bytes)
  | zcard

inductive CollectionReply where
  | bytes (reply : Except StoreError Bytes)
  | int (reply : Except StoreError Int)
  | bool (reply : Except StoreError Bool)
  | done (reply : Except StoreError Unit)
  | fields (reply : Except StoreError (GoMap Bytes Bytes))
  | values (reply : Except StoreError (List Bytes))
  | score (reply : Except StoreError Score)

def CollectionOp.run {σ : Type} (E : Engine σ) (sorted : GoMap Bytes Score → List Bytes) (now : Int)
    (key : Bytes) : CollectionOp → TierM σ CollectionReply
  | .hget field => .bytes <$> hotCall (Store.hget E key field now)
  | .hset pairs => .int <$> hotCall (Store.hset E key pairs now)
  | .hdel fields => .int <$> hotCall (Store.hdel E key fields now)
  | .hexists field => .bool <$> hotCall (Store.hexists E key field now)
  | .hgetAll => .fields <$> hotCall (Store.hgetAll E key now)
  | .hlen => .int <$> hotCall (Store.hlen E key now)
  | .lpush values => .int <$> hotCall (Store.lpush E key values now)
  | .rpush values => .int <$> hotCall (Store.rpush E key values now)
  | .lpop => .bytes <$> hotCall (Store.lpop E key now)
  | .rpop => .bytes <$> hotCall (Store.rpop E key now)
  | .lrange start stop => .values <$> hotCall (Store.lrange E key start stop now)
  | .llen => .int <$> hotCall (Store.llen E key now)
  | .lindex index => .bytes <$> hotCall (Store.lindex E key index now)
  | .lset index value => .done <$> hotCall (Store.lset E key index value now)
  | .ltrim start stop => .done <$> hotCall (Store.ltrim E key start stop now)
  | .sadd members => .int <$> hotCall (Store.sadd E key members now)
  | .srem members => .int <$> hotCall (Store.srem E key members now)
  | .smembers => .values <$> hotCall (Store.smembers E key now)
  | .sisMember member => .bool <$> hotCall (Store.sisMember E key member now)
  | .scard => .int <$> hotCall (Store.scard E key now)
  | .zadd members => .int <$> hotCall (Store.zadd E key members now)
  | .zrem members => .int <$> hotCall (Store.zrem E key members now)
  | .zrange start stop => .values <$> hotCall (Store.zrange E sorted key start stop now)
  | .zscore member => .score <$> hotCall (Store.zscore E key member now)
  | .zrank member => .int <$> hotCall (Store.zrank E sorted key member now)
  | .zcard => .int <$> hotCall (Store.zcard E key now)

/-! ## When a demotion does not show -/

/-- `demoteKey` leaves an entry alone whose deadline has come. -/
def EngineEntry.Due (now : Int) (e : EngineEntry) : Prop := ∃ t ∈ e.expireAt, Store.timeUntil t now ≤ 0

/-- The entry that `demoteKey` writes to the warm tier. -/
def EngineEntry.moved (now : Int) (e : EngineEntry) : EngineEntry :=
  ⟨e.value, Warm.deadline (entryTTL now e) now⟩

/-- What the tiers show of a key with a collection in the hot tier. -/
structure Shown (v : TierView) (now : Int) (key : Bytes) (o : Object) (e : EngineEntry) : Prop where
  obj : (v.hot key).obj = some o
  live : ¬ o.expired now
  entry : v.hot.engineEntry key now = some e

/-- When an operation is transparent for a key with the collection `o`, which is shown as `e`. No
string may hide the collection, unless the operation does not get as far as to look. -/
def CollectionOp.TransparentWhen (sorted : GoMap Bytes Score → List Bytes) (now : Int) (key : Bytes)
    (v : TierView) (o : Object) (e : EngineEntry) : CollectionOp → Prop :=
  let finds (value : TypedValue) : Prop := (v.hot key).str = none ∧ o.value = value
  let kept : Prop := e.moved now = e
  -- the warm tier shows the same entry behind the collection
  let behind : Prop := (v.warm key).map Item.entry = some (e.moved now)
  fun
  | .hget field | .hexists field => kept ∧ ∃ hash, finds (.hash hash) ∧ field ∉ hash.getD ∅
  | .hgetAll | .hlen => kept ∧ ∃ hash, finds (.hash hash) ∧ hash.getD ∅ = ∅
  | .hset pairs =>
    if pairs.length = 0 ∨ pairs.length % 2 ≠ 0 then kept
    else finds (.hash (some ∅)) ∧ o.expireAt ≤ 0
  | .hdel fields => ∃ hash, finds (.hash hash) ∧ (∀ field ∈ fields, field ∉ hash.getD ∅) ∧
      if hash.getD ∅ = ∅ then behind else kept
  | .lpush values | .rpush values =>
    if values = [] then kept else finds (.list []) ∧ o.expireAt ≤ 0
  | .lpop | .rpop | .llen => kept ∧ finds (.list [])
  | .lrange start stop => kept ∧ ∃ items, finds (.list items) ∧
      Store.normalizeRange items.length start stop = none
  | .lindex index | .lset index _ => kept ∧ ∃ items, finds (.list items) ∧
      Store.normalizeIndex items.length index = none
  | .ltrim start stop => ∃ items, finds (.list items) ∧
      match Store.normalizeRange items.length start stop with
      | none => behind
      | some (i, j) => kept ∧ Store.slice items i j = items
  | .sadd members => if members = [] then kept else finds (.set ∅) ∧ o.expireAt ≤ 0
  | .srem members => ∃ set, finds (.set set) ∧ (∀ member ∈ members, member ∉ set) ∧
      if set = ∅ then behind else kept
  | .smembers | .scard => kept ∧ finds (.set ∅)
  | .sisMember member => kept ∧ ∃ set, finds (.set set) ∧ member ∉ set
  | .zadd members => if members = [] then kept else finds (.zset ∅) ∧ o.expireAt ≤ 0
  | .zrem members => ∃ scores, finds (.zset scores) ∧ (∀ member ∈ members, member ∉ scores) ∧
      if scores = ∅ then behind else kept
  | .zrange start stop => kept ∧ ∃ scores, finds (.zset scores) ∧
      Store.normalizeRange (sorted scores).length start stop = none
  | .zscore member => kept ∧ ∃ scores, finds (.zset scores) ∧ member ∉ scores
  | .zrank member => kept ∧ ∃ scores, finds (.zset scores) ∧ member ∉ sorted scores
  | .zcard => kept ∧ finds (.zset ∅)

end Tiered

end AutoCache
