import AutoCache.Tiered.Warm

/-!
# The tiers (`tiered.Manager`, `Migrator.demoteKey`)

A hot tier, which is the memory store, over a warm one; there is no cold tier and no write-behind.
Strings are written to the hot tier only. Reads ask the hot tier first and the warm tier when it has
nothing to give, for whatever reason.

`maybePromote` starts a goroutine, which is a step of its own here, as is `demoteKey`.
-/

namespace AutoCache

/-- `Store.GetEntry`, with the deadline it reports. -/
def Store.engineEntry {σ : Type} (E : Engine σ) (key : Bytes) (now : Int) :
    StoreM σ (Option Tiered.EngineEntry) := do
  match ← Store.cacheGet E key now with
  | some value =>
    match ← Store.cacheTTL E key now with
    | some ttl => return some ⟨.string value, if ttl > 0 then some (now + ttl) else none⟩
    | none => return some ⟨.string value, none⟩
  | none =>
    let o ← Store.objectGet key now
    return o.map fun o => ⟨.object o.value, if o.expireAt > 0 then some o.expireAt else none⟩

namespace Tiered

/-- Errors of the manager and of the adapter over it. -/
inductive TierError where
  | keyNotFound
  | notSupported
  | invalidSyntax
  | hot (e : StoreError)

structure Tiers (σ : Type) where
  hot : Store σ
  warm : Warm

abbrev TierM (σ : Type) : Type → Type := StateT (Tiers σ) Go

variable {σ : Type}

def hotCall {α : Type} (x : StoreM σ α) : TierM σ α := fun s => do
  let (a, hot) ← x s.hot
  return (a, { s with hot })

def warmCall {α : Type} (f : Warm → α × Warm) : TierM σ α := fun s =>
  return ((f s.warm).1, { s with warm := (f s.warm).2 })

lemma hotCall_run {α : Type} {x : StoreM σ α} {s : Tiers σ} {a : α} {hot : Store σ}
    (h : x s.hot = .ok (a, hot)) : hotCall x s = .ok (a, { s with hot }) := by
  unfold hotCall
  rw [h]
  rfl

def stringEntryValue (entry : EngineEntry) : Except TierError Bytes :=
  match entry.value with
  | .string text => .ok text
  | .object _ => .error .notSupported

def entryTTL (now : Int) (entry : EngineEntry) : Int :=
  match entry.expireAt with
  | none => 0
  | some t => max 0 (Store.timeUntil t now)

section Manager

variable (E : Engine σ) (now : Int)

/-- `Get`, without the promotion it may start. -/
def get (key : Bytes) : TierM σ (Except TierError Bytes) := do
  match ← hotCall (Store.get E key now) with
  | .ok value => return .ok value
  | .error _ =>
    match ← warmCall fun warm => (warm.get key now, warm) with
    | some entry => return stringEntryValue entry
    | none => return .error .keyNotFound

def set (key value : Bytes) (ttl : Int) : TierM σ (Except TierError Unit) := do
  let result ← hotCall (Store.set E key value ttl now)
  return result.mapError .hot

def del (keys : List Bytes) : TierM σ Int := do
  let hot ← hotCall (Store.del E keys)
  let warm ← warmCall fun warm => Warm.del now keys warm
  return hot + warm

def getEntry (key : Bytes) : TierM σ (Option EngineEntry) := do
  match ← hotCall (Store.engineEntry E key now) with
  | some entry => return some entry
  | none => warmCall fun warm => (warm.get key now, warm)

def existsKeys : List Bytes → TierM σ Int
  | [] => return 0
  | key :: keys => do
    let entry ← getEntry E now key
    let count ← existsKeys keys
    return (if entry.isSome then 1 else 0) + count

/-- The type of a value; `none` is the text `none`. -/
def type (key : Bytes) : TierM σ (Option ValueType) := do
  let entry ← getEntry E now key
  return entry.map fun entry =>
    match entry.value with
    | .string _ => .string
    | .object value => value.type

/-- `TTL`: the hot tier says `-2 s` of a key it does not have. -/
def ttl (key : Bytes) : TierM σ Int := do
  let hot ← hotCall (Store.ttl E key now)
  if hot ≠ -2000000000 then return hot
  else
    match ← warmCall fun warm => (warm.ttl key now, warm) with
    | some ttl => return ttl
    | none => return -2000000000

def expire (key : Bytes) (ttl : Int) : TierM σ Bool := do
  if ← hotCall (Store.expire E key ttl now) then return true
  else warmCall fun warm => warm.expire key now ttl

def persist (key : Bytes) : TierM σ Bool := do
  if ← hotCall (Store.persist E key now) then return true
  else warmCall fun warm => warm.persist key now

def setNX (key value : Bytes) (ttl : Int) : TierM σ (Except TierError Bool) := do
  let count ← existsKeys E now [key]
  if count > 0 then return .ok false
  else
    let result ← set E now key value ttl
    return result.map fun _ => true

def setXX (key value : Bytes) (ttl : Int) : TierM σ (Except TierError Bool) := do
  let count ← existsKeys E now [key]
  if count = 0 then return .ok false
  else
    let result ← set E now key value ttl
    return result.map fun _ => true

/-- The family of `GetSet`, `IncrBy` and `Append`: the string goes from both tiers, and what `next`
makes of it is written without a deadline. An empty string stands for a missing key. -/
def rewrite {α : Type} (key : Bytes) (next : Option Bytes → Except TierError (Bytes × α)) :
    TierM σ (Except TierError α) := do
  let write (current : Option Bytes) : TierM σ (Except TierError α) :=
    match next current with
    | .error e => return .error e
    | .ok (value, reply) => do
      let _ ← del E now [key]
      let result ← set E now key value 0
      return result.map fun _ => reply
  match ← get E now key with
  | .ok current => write (some current)
  | .error .keyNotFound => write none
  | .error e => return .error e

def getSet (key value : Bytes) : TierM σ (Except TierError Bytes) :=
  rewrite E now key fun current => .ok (value, current.getD [])

def incrBy (key : Bytes) (delta : Int) : TierM σ (Except TierError Int) :=
  rewrite E now key fun current =>
    match current.elim (some 0) parseInt with
    | none => .error .invalidSyntax
    | some n => .ok (formatInt (wrap64 (n + delta)), wrap64 (n + delta))

def append (key suffix : Bytes) : TierM σ (Except TierError Int) :=
  rewrite E now key fun current =>
    .ok (current.getD [] ++ suffix, ((current.getD [] ++ suffix).length : Int))

def strlen (key : Bytes) : TierM σ (Except TierError Int) := do
  match ← get E now key with
  | .ok value => return .ok value.length
  | .error .keyNotFound => return .ok 0
  | .error e => return .error e

def mgetBytes : List Bytes → TierM σ (Except TierError (List (Option Bytes)))
  | [] => return .ok []
  | key :: keys => do
    match ← get E now key with
    | .ok value =>
      let values ← mgetBytes keys
      return values.map (some value :: ·)
    | .error .keyNotFound =>
      let values ← mgetBytes keys
      return values.map (none :: ·)
    | .error e => return .error e

/-! ## Moves between the tiers -/

/-- `demoteKey(key, TierHot, TierWarm)`; whether the key was moved. -/
def demoteKey (key : Bytes) : TierM σ Bool := do
  match ← hotCall (Store.engineEntry E key now) with
  | none => return false
  | some entry =>
    if ∃ t ∈ entry.expireAt, Store.timeUntil t now ≤ 0 then return false
    else
      warmCall fun warm => ((), warm.set key now entry.value (entryTTL now entry))
      let _ ← hotCall (Store.del E [key])
      return true

/-- `Get` on a key that only the warm tier has, and the goroutine of `maybePromote`. -/
def promote (key : Bytes) : TierM σ Bool := do
  match ← hotCall (Store.get E key now) with
  | .ok _ => return false
  | .error _ =>
    match ← warmCall fun warm => (warm.get key now, warm) with
    | none => return false
    | some entry =>
      match stringEntryValue entry with
      | .error _ => return false
      | .ok value =>
        match ← hotCall (Store.set E key value (entryTTL now entry) now) with
        | .error _ => return false
        | .ok () =>
          let _ ← warmCall fun warm => Warm.del now [key] warm
          return true

/-- An eviction takes the string copy of a key. -/
def evict (key : Bytes) : TierM σ Bool := hotCall (Store.cacheDelete E key)

end Manager

end Tiered

end AutoCache
