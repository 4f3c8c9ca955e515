import AutoCache.Store.Calls

/-!
# The warm tier (`engine/badger`)

The database is a map from keys to items with a deadline: a transaction does not see an item from its
deadline on. An item holds the serialized `engine.Entry` that `Set` made, and that entry has a deadline
field of its own. `Expire` and `Persist` write the item anew with another deadline and copy the bytes,
so the field keeps what `Set` put there.
-/

namespace AutoCache.Tiered

/-- `engine.Entry`, as far as the tiers read it. -/
structure EngineEntry where
  value : Value
  expireAt : Option Int

/-- A database entry: its bytes, decoded, and the deadline of the database. -/
structure Item where
  entry : EngineEntry
  expiresAt : Option Int

/-- A transaction sees the item. -/
def Item.Visible (now : Int) (item : Item) : Prop := ∀ t ∈ item.expiresAt, now < t

instance (now : Int) : DecidablePred (Item.Visible now) := fun item => by
  unfold Item.Visible
  infer_instance

abbrev Warm : Type := GoMap Bytes Item

namespace Warm

variable (warm : Warm) (key : Bytes) (now : Int)

/-- `txn.Get`. -/
def txnGet : Option Item := (warm.lookup key).filter (Item.Visible now)

/-- The test of the deadline after `txn.Get` never fails. -/
def get : Option EngineEntry := (warm.txnGet key now).map Item.entry

/-- `now.Add(ttl)`, if there is a time to live. -/
def deadline (ttl now : Int) : Option Int := if ttl > 0 then some (now + ttl) else none

def set (value : Value) (ttl : Int) : Warm :=
  warm.insert key ⟨⟨value, deadline ttl now⟩, deadline ttl now⟩

/-- The keys that are seen go, and are counted. -/
def del (now : Int) : List Bytes → Warm → Int × Warm
  | [], warm => (0, warm)
  | key :: keys, warm =>
    match warm.txnGet key now with
    | none => del now keys warm
    | some _ =>
      let r := del now keys (warm.erase key)
      (r.1 + 1, r.2)

/-- `WithTTL` with whatever time to live, over the old bytes. -/
def expire (ttl : Int) : Bool × Warm :=
  match warm.txnGet key now with
  | none => (false, warm)
  | some item => (true, warm.insert key ⟨item.entry, some (now + ttl)⟩)

/-- `TTL`; `none` is its error. -/
def ttl : Option Int :=
  match warm.txnGet key now with
  | none => none
  | some item =>
    match item.expiresAt with
    | none => some (-1)
    | some t => if Store.timeUntil t now < 0 then none else some (Store.timeUntil t now)

/-- Only an item with a deadline counts as found. -/
def persist : Bool × Warm :=
  match warm.txnGet key now with
  | none => (false, warm)
  | some item =>
    match item.expiresAt with
    | none => (false, warm)
    | some _ => (true, warm.insert key ⟨item.entry, none⟩)

end Warm

end AutoCache.Tiered
