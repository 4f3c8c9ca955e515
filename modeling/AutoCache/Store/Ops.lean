import AutoCache.Store.Collections

/-!
# Calls on a store

The calls of `Store` as data, so that a run of a store is a list of them.
-/

namespace AutoCache

inductive StoreOp where
  | get (key : Bytes) (now : Int)
  | set (key value : Bytes) (ttl now : Int)
  | setNX (key value : Bytes) (ttl now : Int)
  | setXX (key value : Bytes) (ttl now : Int)
  | getSet (key value : Bytes) (now : Int)
  | incrBy (key : Bytes) (delta now : Int)
  | append (key value : Bytes) (now : Int)
  | strlen (key : Bytes) (now : Int)
  | mget (keys : List Bytes) (now : Int)
  | mset (pairs : List Bytes) (now : Int)
  | del (keys : List Bytes)
  | existsKeys (keys : List Bytes) (now : Int)
  | type (key : Bytes) (now : Int)
  | ttl (key : Bytes) (now : Int)
  | rename (key newkey : Bytes) (now : Int)
  | expire (key : Bytes) (ttl now : Int)
  | expireAt (key : Bytes) (t now : Int)
  | persist (key : Bytes) (now : Int)
  | flushDB
  | restoreEntry (key : Bytes) (type : ValueType) (payload : Bytes) (ttl now : Int)
  | keysInSlot (slot : UInt16) (count : ℕ) (now : Int)
  | activeExpireCycle (cacheSamples objectSamples : List (List Bytes)) (now : Int)
  | hset (key : Bytes) (pairs : List Bytes) (now : Int)
  | hget (key field : Bytes) (now : Int)
  | hdel (key : Bytes) (fields : List Bytes) (now : Int)
  | hexists (key field : Bytes) (now : Int)
  | hgetAll (key : Bytes) (now : Int)
  | hlen (key : Bytes) (now : Int)
  | pushList (key : Bytes) (left : Bool) (values : List Bytes) (now : Int)
  | popList (key : Bytes) (left : Bool) (now : Int)
  | lset (key : Bytes) (index : Int) (value : Bytes) (now : Int)
  | ltrim (key : Bytes) (start stop : Int) (now : Int)
  | lrange (key : Bytes) (start stop : Int) (now : Int)
  | llen (key : Bytes) (now : Int)
  | lindex (key : Bytes) (index : Int) (now : Int)
  | sadd (key : Bytes) (values : List Bytes) (now : Int)
  | srem (key : Bytes) (values : List Bytes) (now : Int)
  | smembers (key : Bytes) (now : Int)
  | sisMember (key member : Bytes) (now : Int)
  | scard (key : Bytes) (now : Int)
  | zadd (key : Bytes) (values : List (Score × Bytes)) (now : Int)
  | zrem (key : Bytes) (values : List Bytes) (now : Int)
  | zscore (key member : Bytes) (now : Int)
  | zcard (key : Bytes) (now : Int)

namespace StoreOp

/-- The keys at the even places of `key value key value …`. -/
def pairKeys : List Bytes → List Bytes
  | key :: _ :: pairs => key :: pairKeys pairs
  | _ => []

def keys : StoreOp → List Bytes
  | .get key _ | .set key _ _ _ | .setNX key _ _ _ | .setXX key _ _ _ | .getSet key _ _
  | .incrBy key _ _ | .append key _ _ | .strlen key _ | .type key _ | .ttl key _
  | .expire key _ _ | .expireAt key _ _ | .persist key _ | .restoreEntry key _ _ _ _
  | .hset key _ _ | .hget key _ _ | .hdel key _ _ | .hexists key _ _ | .hgetAll key _ | .hlen key _
  | .pushList key _ _ _ | .popList key _ _ | .lset key _ _ _ | .ltrim key _ _ _
  | .lrange key _ _ _ | .llen key _ | .lindex key _ _
  | .sadd key _ _ | .srem key _ _ | .smembers key _ | .sisMember key _ _ | .scard key _
  | .zadd key _ _ | .zrem key _ _ | .zscore key _ _ | .zcard key _ => [key]
  | .mget keys _ | .del keys | .existsKeys keys _ => keys
  | .mset pairs _ => pairKeys pairs
  | .rename key newkey _ => [key, newkey]
  | .activeExpireCycle cacheSamples objectSamples _ =>
    cacheSamples.flatten ++ objectSamples.flatten
  | .flushDB | .keysInSlot _ _ _ => []

variable {σ : Type} (E : Engine σ)

def ignore {α : Type} (x : StoreM σ α) : StoreM σ Unit := do
  let _ ← x
  return ()

def run : StoreOp → StoreM σ Unit
  | .get key now => ignore (Store.get E key now)
  | .set key value d now => ignore (Store.set E key value d now)
  | .setNX key value d now => ignore (Store.setNX E key value d now)
  | .setXX key value d now => ignore (Store.setXX E key value d now)
  | .getSet key value now => ignore (Store.getSet E key value now)
  | .incrBy key delta now => ignore (Store.incrBy E key delta now)
  | .append key value now => ignore (Store.append E key value now)
  | .strlen key now => ignore (Store.strlen E key now)
  | .mget keys now => ignore (Store.mget E now keys)
  | .mset pairs now => ignore (Store.mset E pairs now)
  | .del keys => ignore (Store.del E keys)
  | .existsKeys keys now => ignore (Store.existsKeys E now keys)
  | .type key now => ignore (Store.type E key now)
  | .ttl key now => ignore (Store.ttl E key now)
  | .rename key newkey now => ignore (Store.rename E key newkey now)
  | .expire key d now => ignore (Store.expire E key d now)
  | .expireAt key t now => ignore (Store.expireAt E key t now)
  | .persist key now => ignore (Store.persist E key now)
  | .flushDB => Store.flushDB E
  | .restoreEntry key vt payload d now => ignore (Store.restoreEntry E key vt payload d now)
  | .keysInSlot slot count now => ignore (Store.keysInSlot E slot count now)
  | .activeExpireCycle cacheSamples objectSamples now =>
    Store.activeExpireCycle E cacheSamples objectSamples now
  | .hset key pairs now => ignore (Store.hset E key pairs now)
  | .hget key field now => ignore (Store.hget E key field now)
  | .hdel key fields now => ignore (Store.hdel E key fields now)
  | .hexists key field now => ignore (Store.hexists E key field now)
  | .hgetAll key now => ignore (Store.hgetAll E key now)
  | .hlen key now => ignore (Store.hlen E key now)
  | .pushList key left values now => ignore (Store.pushList E key left values now)
  | .popList key left now => ignore (Store.popList E key left now)
  | .lset key index value now => ignore (Store.lset E key index value now)
  | .ltrim key start stop now => ignore (Store.ltrim E key start stop now)
  | .lrange key start stop now => ignore (Store.lrange E key start stop now)
  | .llen key now => ignore (Store.llen E key now)
  | .lindex key index now => ignore (Store.lindex E key index now)
  | .sadd key values now => ignore (Store.sadd E key values now)
  | .srem key values now => ignore (Store.srem E key values now)
  | .smembers key now => ignore (Store.smembers E key now)
  | .sisMember key member now => ignore (Store.sisMember E key member now)
  | .scard key now => ignore (Store.scard E key now)
  | .zadd key values now => ignore (Store.zadd E key values now)
  | .zrem key values now => ignore (Store.zrem E key values now)
  | .zscore key member now => ignore (Store.zscore E key member now)
  | .zcard key now => ignore (Store.zcard E key now)

end StoreOp

def Store.step {σ : Type} (E : Engine σ) (s : Store σ) (op : StoreOp) : Go (Store σ) := do
  let (_, s) ← op.run E s
  return s

def Store.new {σ : Type} (shards : σ) : Store σ := ⟨shards, ∅, ∅⟩

end AutoCache
