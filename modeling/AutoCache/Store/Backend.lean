import AutoCache.Shard.Defs

/-!
# The shards of a cache (`internal/engine/memory/shard.go`)

`ShardedCache` sends each call to the shard its key hashes to. What the store above needs of the
shards is a `Backend`; `shardedBackend` is the one of the source, on byte-level shards.
-/

namespace AutoCache

open AutoCache.Ring

/-- The calls of `ShardedCache`, less its slot index. Every call reads the clock once. -/
structure Backend (σ : Type) where
  get : σ → Bytes → Int → Go (σ × Option Bytes)
  set : σ → Bytes → Bytes → Int → Int → Go (σ × WriteOutcome)
  setNX : σ → Bytes → Bytes → Int → Int → Go (σ × WriteOutcome)
  setXX : σ → Bytes → Bytes → Int → Int → Go (σ × WriteOutcome)
  expire : σ → Bytes → Int → Int → Go (σ × Bool)
  incrBy : σ → Bytes → Int → Int → Go (σ × Shard.IncrOutcome)
  delete : σ → Bytes → σ × Bool
  ttl : σ → Bytes → Int → Go (Option Int)
  clear : σ → σ

abbrev Shards : Type := UInt64 → Shard

namespace Shards

variable (cfg : CacheConfig) (shardCount : UInt64) (c : Shards)

/-- `getShard`: the number of the shard of a key. -/
def shardOf (key : Bytes) : UInt64 := cfg.hash key % shardCount

def on {α : Type} (key : Bytes) (call : Shard → Go (Shard × α)) : Go (Shards × α) := do
  let i := shardOf cfg shardCount key
  let (sh, a) ← call (c i)
  return (Function.update c i sh, a)

end Shards

/-- The shards of the source. -/
def shardedBackend (cfg : CacheConfig) (shardCount : UInt64) : Backend Shards where
  get c key now := c.on cfg shardCount key fun sh => sh.getCopy cfg key now
  set c key value ttl now := c.on cfg shardCount key fun sh => sh.set cfg key value ttl now
  setNX c key value ttl now := c.on cfg shardCount key fun sh => sh.setNX cfg key value ttl now
  setXX c key value ttl now := c.on cfg shardCount key fun sh => sh.setXX cfg key value ttl now
  expire c key ttl now := c.on cfg shardCount key fun sh => sh.expire cfg key ttl now
  incrBy c key delta now := c.on cfg shardCount key fun sh => sh.incrBy cfg key delta now
  delete c key :=
    let i := Shards.shardOf cfg shardCount key
    let (sh, deleted) := (c i).delete cfg key
    (Function.update c i sh, deleted)
  ttl c key now := (c (Shards.shardOf cfg shardCount key)).ttl cfg key now
  clear c := fun i => (c i).clear

/-- `NewShardedCache`: every shard is fresh. -/
def newShards (ringSize : Int64) : Shards := fun _ => newShard ringSize

end AutoCache
