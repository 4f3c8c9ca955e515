import AutoCache.Lib.Hoare
import AutoCache.Store.Ops

/-!
# What the calls keep

A read of the cache or of the dictionary drops what has expired. The calls that only read are
composed of such reads, so what these keep, all of them keep; and a call that writes keeps what its
reads and its writes keep.
-/

namespace AutoCache.Store

open Hoare Hoare.Keeps

variable {σ α : Type} {E : Engine σ} {P : Store σ → Prop} {key value : Bytes} {now : Int}

lemma expireRounds_keeps {round : List Bytes → StoreM σ ℕ} (samples : List (List Bytes))
    (h : ∀ keys ∈ samples, Keeps P (round keys)) : Keeps P (expireRounds round samples) := by
  induction samples with
  | nil => exact pure _
  | cons keys samples ih =>
    have := h keys List.mem_cons_self
    have := ih fun keys hm => h keys (List.mem_cons_of_mem _ hm)
    exact ite

section Dictionary

variable [∀ key now, Keeps P (objectGet key now : StoreM σ _)]

instance : Keeps P (getObjectValue key now : StoreM σ _) := bind
instance : Keeps P (hasObjectKey key now : StoreM σ _) := bind

instance : Keeps P (objectTTL key now : StoreM σ _) := by
  refine then_ fun o => ?_
  split <;> infer_instance

instance (current : Option Bytes) :
    Keeps P (holdsOther current key now : StoreM σ _) := by
  unfold holdsOther
  split <;> infer_instance

variable [∀ key now, Keeps P (cacheTTL E key now)]

instance : Keeps P (ttl E key now) := by
  refine then_ fun d => ?_
  split
  · infer_instance
  · refine then_ fun d => ?_
    split <;> infer_instance

instance : Keeps P (ttlOrZero E key now) := bind

variable [∀ key, Keeps P (cacheDelete E key)] [∀ key, Keeps P (deleteObjectKey E key)]

instance expireCacheKeys_keeps (now : Int) : ∀ keys, Keeps P (expireCacheKeys E now keys)
  | [] => pure _
  | _ :: keys => by
    have := expireCacheKeys_keeps now keys
    refine then_ fun d => ?_
    split <;> infer_instance

instance expireObjectKeys_keeps (now : Int) : ∀ keys, Keeps P (expireObjectKeys E now keys)
  | [] => pure _
  | _ :: keys => by
    have := expireObjectKeys_keeps now keys
    refine then_ fun d => ?_
    split <;> infer_instance

instance (cacheSamples objectSamples : List (List Bytes)) (now : Int) :
    Keeps P (activeExpireCycle E cacheSamples objectSamples now) :=
  have := expireRounds_keeps (P := P) cacheSamples fun keys _ => expireCacheKeys_keeps (E := E) now keys
  have := expireRounds_keeps (P := P) objectSamples fun keys _ => expireObjectKeys_keeps (E := E) now keys
  bind

end Dictionary

variable [∀ key now, Keeps P (cacheGet E key now)]

instance : Keeps P (cacheExists E key now) := bind

variable [∀ key now, Keeps P (objectGet key now : StoreM σ _)]

instance : Keeps P (hasKey E key now) := bind
instance : Keeps P (type E key now) := bind

instance : Keeps P (get E key now) := by
  refine then_ fun v => ?_
  split <;> infer_instance

instance : Keeps P (strlen E key now) := by
  refine then_ fun v => ?_
  split <;> infer_instance

instance mget_keeps (now : Int) : ∀ keys, Keeps P (mget E now keys)
  | [] => pure _
  | _ :: keys => have := mget_keeps now keys; bind

instance existsKeys_keeps (now : Int) : ∀ keys, Keeps P (existsKeys E now keys)
  | [] => pure _
  | _ :: keys => have := existsKeys_keeps now keys; bind

instance keepLive_keeps (count : ℕ) (now : Int) :
    ∀ keys result, Keeps P (keepLive E count now keys result)
  | [], _ => pure _
  | _ :: keys, _ => have := keepLive_keeps count now keys; ite

instance (slot : UInt16) (count : ℕ) : Keeps P (keysInSlot E slot count now) :=
  ⟨fun s a s' => (keepLive_keeps count now _ []).triple s a s'⟩

instance : Keeps P (getCollection E key now) := by
  have : ∀ v : Option TypedValue, Keeps P (match v with
      | none => return .error .keyNotFound
      | some value => return .ok value : StoreM σ (Except StoreError TypedValue)) := fun v => by
    split <;> infer_instance
  exact bind

instance getTyped_keeps (as : TypedValue → Option α) (key : Bytes) (now : Int) :
    Keeps P (getTyped E as key now) := by
  refine then_ fun r => ?_
  split
  · infer_instance
  · split <;> infer_instance

instance : Keeps P (getHashValue E key now) := getTyped_keeps ..
instance : Keeps P (getListValue E key now) := getTyped_keeps ..
instance : Keeps P (getSetValue E key now) := getTyped_keeps ..
instance : Keeps P (getZSetValue E key now) := getTyped_keeps ..
instance (field : Bytes) : Keeps P (hexists E key field now) := bind
instance : Keeps P (hgetAll E key now) := bind
instance : Keeps P (hlen E key now) := bind
instance (start stop : Int) : Keeps P (lrange E key start stop now) := bind
instance : Keeps P (llen E key now) := bind
instance : Keeps P (smembers E key now) := bind
instance (member : Bytes) : Keeps P (sisMember E key member now) := bind
instance : Keeps P (scard E key now) := bind
instance : Keeps P (zcard E key now) := bind

instance (field : Bytes) : Keeps P (hget E key field now) := by
  refine then_ fun r => ?_
  split
  · infer_instance
  · split <;> infer_instance

instance (index : Int) : Keeps P (lindex E key index now) := by
  refine then_ fun r => ?_
  split
  · infer_instance
  · split <;> infer_instance

instance (member : Bytes) : Keeps P (zscore E key member now) := by
  refine then_ fun r => ?_
  split
  · infer_instance
  · split <;> infer_instance

/-! ## Writes -/

variable {ttl : Int}

section Strings

instance [Keeps P (cacheSet E key value ttl now)] : Keeps P (Store.set E key value ttl now) := bind
instance [Keeps P (cacheSetNX E key value ttl now)] : Keeps P (setNX E key value ttl now) := bind

instance {delta : Int} [Keeps P (cacheIncrBy E key delta now)] : Keeps P (incrBy E key delta now) := by
  refine then_ fun o => ?_
  split <;> infer_instance

instance msetPairs_keeps [∀ key value ttl now, Keeps P (cacheSet E key value ttl now)] :
    ∀ pairs, Keeps P (msetPairs E now pairs)
  | [] | [_] => pure _
  | _ :: _ :: pairs => by
    have := msetPairs_keeps pairs
    refine then_ fun r => ?_
    split <;> infer_instance

instance {pairs : List Bytes} [Keeps P (msetPairs E now pairs)] : Keeps P (mset E pairs now) := ite

end Strings

section Keys

instance [Keeps P (deleteObjectKey E key)] : Keeps P (removeObjectKey E key) := bind

instance [∀ key, Keeps P (cacheDelete E key)] [∀ key, Keeps P (deleteObjectKey E key)] :
    Keeps P (delKey E key) := bind

instance del_keeps [∀ key, Keeps P (delKey E key)] : ∀ keys, Keeps P (del E keys)
  | [] => pure _
  | _ :: keys => have := del_keeps keys; bind

variable [∀ key ttl now, Keeps P (cacheExpire E key ttl now)]
  [∀ key ttl now, Keeps P (objectExpire key ttl now : StoreM σ _)]

instance : Keeps P (expire E key ttl now) := bind
instance : Keeps P (persist E key now) := bind
instance [Keeps P (delKey E key)] : Keeps P (expireAt E key ttl now) := ite

end Keys

section Collections

variable [∀ value, Keeps P (objectPut key value : StoreM σ _)]

instance {index : Int} {value : Bytes} : Keeps P (lset E key index value now) := by
  refine then_ fun r => ?_
  split
  · infer_instance
  · split <;> infer_instance

variable [∀ value, Keeps P (newCollection E key value now)]

instance {pairs : List Bytes} : Keeps P (hset E key pairs now) := by
  unfold hset
  split
  · exact pure _
  · refine then_ fun r => ?_
    split <;> infer_instance

instance {left : Bool} {values : List Bytes} : Keeps P (pushList E key left values now) := by
  unfold pushList
  split
  · exact pure _
  · refine then_ fun r => ?_
    split <;> infer_instance

instance {values : List Bytes} : Keeps P (sadd E key values now) := by
  unfold sadd
  split
  · exact pure _
  · refine then_ fun r => ?_
    split <;> infer_instance

instance {values : List (Score × Bytes)} : Keeps P (zadd E key values now) := by
  unfold zadd
  split
  · exact pure _
  · refine then_ fun r => ?_
    split <;> infer_instance

end Collections

end AutoCache.Store
