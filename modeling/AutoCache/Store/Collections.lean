import AutoCache.Store.Defs

/-!
# Collections (`internal/engine/memory/{hash,list,set,zset}.go`)

A call on a collection fails when the cache holds a live string under the key, or the dictionary
a collection of another type. A collection that a call leaves empty is deleted.
-/

namespace AutoCache.Store

variable {σ : Type} (E : Engine σ)

/-! ## Access -/

/-- The start of every call: the value in the dictionary, unless a string is in its way. -/
def getCollection (key : Bytes) (now : Int) : StoreM σ (Except StoreError TypedValue) := do
  if ← cacheExists E key now then return .error .wrongType
  else
    match ← getObjectValue key now with
    | none => return .error .keyNotFound
    | some value => return .ok value

/-- The value of a collection of one type; `as` tells the type. -/
def getTyped {α : Type} (as : TypedValue → Option α) (key : Bytes) (now : Int) :
    StoreM σ (Except StoreError α) := do
  match ← getCollection E key now with
  | .error e => return .error e
  | .ok value =>
    match as value with
    | none => return .error .wrongType
    | some a => return .ok a

def getHashValue (key : Bytes) (now : Int) :
    StoreM σ (Except StoreError (Option (GoMap Bytes Bytes))) :=
  getTyped E TypedValue.asHash? key now

def getListValue (key : Bytes) (now : Int) : StoreM σ (Except StoreError (List Bytes)) :=
  getTyped E TypedValue.asList? key now

def getSetValue (key : Bytes) (now : Int) : StoreM σ (Except StoreError (Finset Bytes)) :=
  getTyped E TypedValue.asSet? key now

def getZSetValue (key : Bytes) (now : Int) : StoreM σ (Except StoreError (GoMap Bytes Score)) :=
  getTyped E TypedValue.asZSet? key now

/-- A new collection: it is stored empty, without a deadline, and its key is tracked. -/
def newCollection (key : Bytes) (value : TypedValue) (now : Int) : StoreM σ Unit := do
  objectSet key value 0 now
  trackKey E key

def putOrDelete (key : Bytes) (empty : Bool) (value : TypedValue) : StoreM σ Unit := do
  if empty then
    let _ ← deleteObjectKey E key
    return ()
  else objectPut key value

/-- What a read of an absent key returns. -/
def orAbsent {α : Type} (absent : α) : Except StoreError α → Except StoreError α
  | .error .keyNotFound => .ok absent
  | r => r

/-! ## Hashes -/

/-- The loop of `HSet`; the number of fields that are new. -/
def setFields (fields : GoMap Bytes Bytes) : List Bytes → GoMap Bytes Bytes × Int
  | field :: value :: pairs =>
    let r := setFields (fields.insert field value) pairs
    (r.1, (if field ∈ fields then 0 else 1) + r.2)
  | _ => (fields, 0)

/-- `HSet`; an assignment to a nil map panics. -/
def hset (key : Bytes) (pairs : List Bytes) (now : Int) : StoreM σ (Except StoreError Int) := do
  if pairs.length = 0 ∨ pairs.length % 2 ≠ 0 then return .error .invalidArgs
  else
    match ← getHashValue E key now with
    | .ok (some fields) =>
      let (fields, added) := setFields fields pairs
      objectPut key (.hash (some fields))
      return .ok added
    | .ok none => throw .nilMap
    | .error .keyNotFound =>
      newCollection E key (.hash (some ∅)) now
      let (fields, added) := setFields ∅ pairs
      objectPut key (.hash (some fields))
      return .ok added
    | .error e => return .error e

def hget (key field : Bytes) (now : Int) : StoreM σ (Except StoreError Bytes) := do
  match ← getHashValue E key now with
  | .error e => return .error e
  | .ok fields =>
    match (fields.getD ∅).lookup field with
    | none => return .error .keyNotFound
    | some value => return .ok value

/-- The loop of `HDel`; the number of fields deleted. -/
def delFields (fields : GoMap Bytes Bytes) : List Bytes → GoMap Bytes Bytes × Int
  | [] => (fields, 0)
  | field :: rest =>
    let r := delFields (fields.erase field) rest
    (r.1, (if field ∈ fields then 1 else 0) + r.2)

def hdel (key : Bytes) (fields : List Bytes) (now : Int) : StoreM σ (Except StoreError Int) := do
  match ← getHashValue E key now with
  | .error .keyNotFound => return .ok 0
  | .error e => return .error e
  | .ok hash =>
    let (left, deleted) := delFields (hash.getD ∅) fields
    putOrDelete E key (left = ∅) (.hash (some left))
    return .ok deleted

def hexists (key field : Bytes) (now : Int) : StoreM σ (Except StoreError Bool) := do
  let hash ← getHashValue E key now
  return orAbsent false (hash.map fun fields => decide (field ∈ fields.getD ∅))

def hgetAll (key : Bytes) (now : Int) : StoreM σ (Except StoreError (GoMap Bytes Bytes)) := do
  let hash ← getHashValue E key now
  return orAbsent ∅ (hash.map fun fields => fields.getD ∅)

def hlen (key : Bytes) (now : Int) : StoreM σ (Except StoreError Int) := do
  let hash ← getHashValue E key now
  return orAbsent 0 (hash.map fun fields => ((fields.getD ∅).keys.card : Int))

/-! ## Lists -/

def normalizeIndex (length : ℕ) (index : Int) : Option ℕ :=
  let index := if index < 0 then (length : Int) + index else index
  if length = 0 ∨ index < 0 ∨ index ≥ length then none else some index.toNat

def normalizeRange (length : ℕ) (start stop : Int) : Option (ℕ × ℕ) :=
  let start := if start < 0 then (length : Int) + start else start
  let stop := if stop < 0 then (length : Int) + stop else stop
  let start := if start < 0 then 0 else start
  let stop := if stop ≥ length then (length : Int) - 1 else stop
  if length = 0 ∨ start > stop ∨ start ≥ length then none else some (start.toNat, stop.toNat)

/-- `list[start : stop+1]`. -/
def slice (items : List Bytes) (start stop : ℕ) : List Bytes := (items.take (stop + 1)).drop start

def pushList (key : Bytes) (left : Bool) (values : List Bytes) (now : Int) :
    StoreM σ (Except StoreError Int) := do
  if values = [] then return .error .invalidArgs
  else
    let push (items : List Bytes) : StoreM σ (Except StoreError Int) := do
      let items := if left then values.reverse ++ items else items ++ values
      objectPut key (.list items)
      return .ok items.length
    match ← getListValue E key now with
    | .ok items => push items
    | .error .keyNotFound =>
      newCollection E key (.list []) now
      push []
    | .error e => return .error e

def lpush (key : Bytes) (values : List Bytes) (now : Int) : StoreM σ (Except StoreError Int) :=
  pushList E key true values now

def rpush (key : Bytes) (values : List Bytes) (now : Int) : StoreM σ (Except StoreError Int) :=
  pushList E key false values now

def popList (key : Bytes) (left : Bool) (now : Int) : StoreM σ (Except StoreError Bytes) := do
  match ← getListValue E key now with
  | .error e => return .error e
  | .ok items =>
    match if left then items.head? else items.getLast? with
    | none => return .error .keyNotFound
    | some value =>
      let items := if left then items.tail else items.dropLast
      putOrDelete E key (items = []) (.list items)
      return .ok value

def lpop (key : Bytes) (now : Int) : StoreM σ (Except StoreError Bytes) := popList E key true now

def rpop (key : Bytes) (now : Int) : StoreM σ (Except StoreError Bytes) := popList E key false now

def lset (key : Bytes) (index : Int) (value : Bytes) (now : Int) :
    StoreM σ (Except StoreError Unit) := do
  match ← getListValue E key now with
  | .error e => return .error e
  | .ok items =>
    match normalizeIndex items.length index with
    | none => return .error .keyNotFound
    | some i =>
      objectPut key (.list (items.set i value))
      return .ok ()

def ltrim (key : Bytes) (start stop : Int) (now : Int) : StoreM σ (Except StoreError Unit) := do
  match ← getListValue E key now with
  | .error .keyNotFound => return .ok ()
  | .error e => return .error e
  | .ok items =>
    match normalizeRange items.length start stop with
    | none =>
      let _ ← deleteObjectKey E key
      return .ok ()
    | some (i, j) =>
      objectPut key (.list (slice items i j))
      return .ok ()

def lrange (key : Bytes) (start stop : Int) (now : Int) :
    StoreM σ (Except StoreError (List Bytes)) := do
  let items ← getListValue E key now
  return orAbsent [] (items.map fun items =>
    match normalizeRange items.length start stop with
    | none => []
    | some (i, j) => slice items i j)

def llen (key : Bytes) (now : Int) : StoreM σ (Except StoreError Int) := do
  let items ← getListValue E key now
  return orAbsent 0 (items.map fun items => (items.length : Int))

def lindex (key : Bytes) (index : Int) (now : Int) : StoreM σ (Except StoreError Bytes) := do
  match ← getListValue E key now with
  | .error e => return .error e
  | .ok items =>
    match (normalizeIndex items.length index).bind (items[·]?) with
    | none => return .error .keyNotFound
    | some value => return .ok value

/-! ## Sets -/

/-- The loop of `SAdd`; the number of members that are new. -/
def addMembers (members : Finset Bytes) : List Bytes → Finset Bytes × Int
  | [] => (members, 0)
  | member :: rest =>
    let r := addMembers (insert member members) rest
    (r.1, (if member ∈ members then 0 else 1) + r.2)

def sadd (key : Bytes) (values : List Bytes) (now : Int) : StoreM σ (Except StoreError Int) := do
  if values = [] then return .error .invalidArgs
  else
    let add (members : Finset Bytes) : StoreM σ (Except StoreError Int) := do
      let (members, added) := addMembers members values
      objectPut key (.set members)
      return .ok added
    match ← getSetValue E key now with
    | .ok members => add members
    | .error .keyNotFound =>
      newCollection E key (.set ∅) now
      add ∅
    | .error e => return .error e

/-- The loop of `SRem`; the number of members removed. -/
def remMembers (members : Finset Bytes) : List Bytes → Finset Bytes × Int
  | [] => (members, 0)
  | member :: rest =>
    let r := remMembers (members.erase member) rest
    (r.1, (if member ∈ members then 1 else 0) + r.2)

def srem (key : Bytes) (values : List Bytes) (now : Int) : StoreM σ (Except StoreError Int) := do
  match ← getSetValue E key now with
  | .error .keyNotFound => return .ok 0
  | .error e => return .error e
  | .ok members =>
    let (left, removed) := remMembers members values
    putOrDelete E key (left = ∅) (.set left)
    return .ok removed

def smembers (key : Bytes) (now : Int) : StoreM σ (Except StoreError (List Bytes)) := do
  let members ← getSetValue E key now
  return orAbsent [] (members.map fun members => members.sort (· ≤ ·))

def sisMember (key member : Bytes) (now : Int) : StoreM σ (Except StoreError Bool) := do
  let members ← getSetValue E key now
  return orAbsent false (members.map fun members => decide (member ∈ members))

def scard (key : Bytes) (now : Int) : StoreM σ (Except StoreError Int) := do
  let members ← getSetValue E key now
  return orAbsent 0 (members.map fun members => (members.card : Int))

/-! ## Sorted sets -/

/-- The loop of `ZAdd`; the number of members that are new. -/
def addScores (scores : GoMap Bytes Score) : List (Score × Bytes) → GoMap Bytes Score × Int
  | [] => (scores, 0)
  | (score, member) :: rest =>
    let r := addScores (scores.insert member score) rest
    (r.1, (if member ∈ scores then 0 else 1) + r.2)

def zadd (key : Bytes) (values : List (Score × Bytes)) (now : Int) :
    StoreM σ (Except StoreError Int) := do
  if values = [] then return .error .invalidArgs
  else
    let add (scores : GoMap Bytes Score) : StoreM σ (Except StoreError Int) := do
      let (scores, added) := addScores scores values
      objectPut key (.zset scores)
      return .ok added
    match ← getZSetValue E key now with
    | .ok scores => add scores
    | .error .keyNotFound =>
      newCollection E key (.zset ∅) now
      add ∅
    | .error e => return .error e

/-- The loop of `ZRem`; the number of members removed. -/
def remScores (scores : GoMap Bytes Score) : List Bytes → GoMap Bytes Score × Int
  | [] => (scores, 0)
  | member :: rest =>
    let r := remScores (scores.erase member) rest
    (r.1, (if member ∈ scores then 1 else 0) + r.2)

def zrem (key : Bytes) (values : List Bytes) (now : Int) : StoreM σ (Except StoreError Int) := do
  match ← getZSetValue E key now with
  | .error .keyNotFound => return .ok 0
  | .error e => return .error e
  | .ok scores =>
    let (left, removed) := remScores scores values
    putOrDelete E key (left = ∅) (.zset left)
    return .ok removed

def zscore (key member : Bytes) (now : Int) : StoreM σ (Except StoreError Score) := do
  match ← getZSetValue E key now with
  | .error e => return .error e
  | .ok scores =>
    match scores.lookup member with
    | none => return .error .keyNotFound
    | some score => return .ok score

def zcard (key : Bytes) (now : Int) : StoreM σ (Except StoreError Int) := do
  let scores ← getZSetValue E key now
  return orAbsent 0 (scores.map fun scores => (scores.keys.card : Int))

end AutoCache.Store
