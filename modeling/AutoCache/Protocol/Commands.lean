import AutoCache.Protocol.Handler
import AutoCache.Store.Logical

/-!
# The commands on keys (`internal/protocol/handler.go`)

One definition per handler, under its name. `SET`, `MSET`, `HSET`, `DEL`, `RENAME`, the three
`EXPIRE` commands and `PERSIST` go through `applyReplicationWrite`; all others call the engine
directly, the ones that write included.
-/

namespace AutoCache.Protocol

open Cluster Replication

/-- `time.Second` and `time.Millisecond`, in nanoseconds. -/
def second : Int := 1000000000

def millisecond : Int := 1000000

/-- `time.Duration(n) * unit`, in 64 bits. -/
def duration (n unit : Int) : Int := wrap64 (n * unit)

/-- `time.Now().Add(ttl).UnixNano()`, in 64 bits. -/
def addNow (now ttl : Int) : Int := wrap64 (now + ttl)

/-- The time `time.Unix(ts, 0)`, in nanoseconds: seconds are kept from the year 1 on, in 64
bits. -/
def unixTime (ts : Int) : Int := (wrap64 (ts + 62135596800) - 62135596800) * second

/-- `time.Unix(ts, 0).UnixNano()`. -/
def unixNano (ts : Int) : Int := wrap64 (ts * second)

variable {σ : Type} (cfg : NodeConfig σ) (now : Int)

/-! ## Strings -/

def cmdPing : List Bytes → HandlerM σ Reply
  | [] => return .simple "PONG"
  | message :: _ => return .bulk message

def cmdGet : List Bytes → HandlerM σ Reply
  | [key] => call .bulk (Store.get cfg.engine key now)
  | _ => return .wrongArity "get"

structure SetOptions where
  ttl : Int := 0
  nx : Bool := false
  xx : Bool := false

/-- The loop of `cmdSet` over its options; a word that is none is skipped. -/
def setOptions : List Bytes → SetOptions → Except Reply SetOptions
  | [], opts => .ok opts
  | [opt], opts =>
    if toUpper opt = ascii "EX" ∨ toUpper opt = ascii "PX" then .error (.error "ERR syntax error")
    else if toUpper opt = ascii "NX" then .ok { opts with nx := true }
    else if toUpper opt = ascii "XX" then .ok { opts with xx := true }
    else .ok opts
  | opt :: arg :: rest, opts =>
    if toUpper opt = ascii "EX" then
      match parseInt arg with
      | none => .error .notInteger
      | some secs => setOptions rest { opts with ttl := duration secs second }
    else if toUpper opt = ascii "PX" then
      match parseInt arg with
      | none => .error .notInteger
      | some ms => setOptions rest { opts with ttl := duration ms millisecond }
    else if toUpper opt = ascii "NX" then setOptions (arg :: rest) { opts with nx := true }
    else if toUpper opt = ascii "XX" then setOptions (arg :: rest) { opts with xx := true }
    else setOptions (arg :: rest) opts

/-- The callback of a conditional `SET`: a write that is refused is not to be logged. -/
def conditional (x : StoreM σ (Except StoreError Bool)) : StoreM σ (Except ApplyError Unit) := do
  match ← x with
  | .error e => return .error (.store e)
  | .ok false => return .error .noop
  | .ok true => return .ok ()

def setApply (key value : Bytes) (opts : SetOptions) : StoreM σ (Except ApplyError Unit) :=
  if opts.nx then conditional (Store.setNX cfg.engine key value opts.ttl now)
  else if opts.xx then conditional (Store.setXX cfg.engine key value opts.ttl now)
  else engineApply (Store.set cfg.engine key value opts.ttl now)

/-- The reply to `SET`; a write that was refused is a null. -/
def setReply : Except (WriteError ApplyError) Unit → Reply
  | .ok () => .ok
  | .error (.apply .noop) => .null
  | .error err => writeDataError err

def setExpireAtNs (ttl : Int) : Int := if ttl > 0 then addNow now ttl else 0

def cmdSet (args : List Bytes) : HandlerM σ Reply :=
  match args with
  | key :: value :: options =>
    match setOptions options {} with
    | .error reply => return reply
    | .ok opts =>
      if opts.nx ∧ opts.xx then
        return .error "ERR XX and NX options at the same time are not compatible"
      else do
        let result ← applyReplicationWrite cfg key .set args (setExpireAtNs now opts.ttl) ()
          (setApply cfg now key value opts)
        return setReply result
  | _ => return .wrongArity "set"

/-- `SETNX`; an error is a refusal. -/
def cmdSetNX : List Bytes → HandlerM σ Reply
  | [key, value] => do
    let done ← engineCall (Store.setNX cfg.engine key value 0 now)
    return .flag (done.toOption.getD false)
  | _ => return .wrongArity "setnx"

/-- `SETEX` and `PSETEX`; an error of the engine is dropped. -/
def cmdSetFor (command : String) (unit : Int) : List Bytes → HandlerM σ Reply
  | [key, ttl, value] => withInt ttl fun n => do
    let _ ← engineCall (Store.set cfg.engine key value (duration n unit) now)
    return .ok
  | _ => return .wrongArity command

def cmdSetEX : List Bytes → HandlerM σ Reply := cmdSetFor cfg now "setex" second

def cmdPSetEX : List Bytes → HandlerM σ Reply := cmdSetFor cfg now "psetex" millisecond

def cmdMGet (args : List Bytes) : HandlerM σ Reply :=
  if args = [] then return .wrongArity "mget"
  else do
    let values ← engineCall (Store.mget cfg.engine now args)
    return .array (values.map .orNull)

def cmdMSet (args : List Bytes) : HandlerM σ Reply :=
  if args.length < 2 ∨ args.length % 2 ≠ 0 then return .wrongArity "mset"
  else
    logged (fun _ => .ok) <| applyReplicationWrite cfg (args.headD []) .mset args 0 ()
      (engineApply (Store.mset cfg.engine args now))

def cmdIncr : List Bytes → HandlerM σ Reply
  | [key] => call .int (Store.incr cfg.engine key now)
  | _ => return .wrongArity "incr"

def cmdDecr : List Bytes → HandlerM σ Reply
  | [key] => call .int (Store.decr cfg.engine key now)
  | _ => return .wrongArity "decr"

def cmdIncrBy : List Bytes → HandlerM σ Reply
  | [key, delta] => withInt delta fun n => call .int (Store.incrBy cfg.engine key n now)
  | _ => return .wrongArity "incrby"

def cmdDecrBy : List Bytes → HandlerM σ Reply
  | [key, delta] => withInt delta fun n => call .int (Store.decrBy cfg.engine key n now)
  | _ => return .wrongArity "decrby"

def cmdAppend : List Bytes → HandlerM σ Reply
  | [key, value] => call .int (Store.append cfg.engine key value now)
  | _ => return .wrongArity "append"

def cmdStrlen : List Bytes → HandlerM σ Reply
  | [key] => call .int (Store.strlen cfg.engine key now)
  | _ => return .wrongArity "strlen"

/-- An old value that is empty reads as none. -/
def cmdGetSet : List Bytes → HandlerM σ Reply
  | [key, value] =>
    call (fun old => if old = [] then .null else .bulk old) (Store.getSet cfg.engine key value now)
  | _ => return .wrongArity "getset"

/-! ## Hashes -/

def cmdHGet : List Bytes → HandlerM σ Reply
  | [key, field] => call .bulk (Store.hget cfg.engine key field now)
  | _ => return .wrongArity "hget"

def cmdHSet (args : List Bytes) : HandlerM σ Reply :=
  match args with
  | key :: pairs =>
    if args.length < 3 ∨ args.length % 2 = 0 then return .wrongArity "hset"
    else
      logged .int <| applyReplicationWrite cfg key .hset args 0 0
        (engineApply (Store.hset cfg.engine key pairs now))
  | [] => return .wrongArity "hset"

def cmdHDel : List Bytes → HandlerM σ Reply
  | key :: field :: fields => call .int (Store.hdel cfg.engine key (field :: fields) now)
  | _ => return .wrongArity "hdel"

def cmdHExists : List Bytes → HandlerM σ Reply
  | [key, field] => call .flag (Store.hexists cfg.engine key field now)
  | _ => return .wrongArity "hexists"

def sortedFields (fields : GoMap Bytes Bytes) : List Bytes := fields.keys.sort (· ≤ ·)

def valueOf (fields : GoMap Bytes Bytes) (field : Bytes) : Bytes := (fields.lookup field).getD []

/-- `HGETALL`, `HKEYS` and `HVALS`: what is written for each field of the hash. -/
def cmdHList (command : String) (items : GoMap Bytes Bytes → Bytes → List Bytes) :
    List Bytes → HandlerM σ Reply
  | [key] =>
    call (fun fields => .bulks ((sortedFields fields).flatMap (items fields)))
      (Store.hgetAll cfg.engine key now)
  | _ => return .wrongArity command

def cmdHGetAll : List Bytes → HandlerM σ Reply :=
  cmdHList cfg now "hgetall" fun fields field => [field, valueOf fields field]

def cmdHKeys : List Bytes → HandlerM σ Reply := cmdHList cfg now "hkeys" fun _ field => [field]

def cmdHVals : List Bytes → HandlerM σ Reply :=
  cmdHList cfg now "hvals" fun fields field => [valueOf fields field]

def cmdHLen : List Bytes → HandlerM σ Reply
  | [key] => call .int (Store.hlen cfg.engine key now)
  | _ => return .wrongArity "hlen"

/-! ## Lists -/

def cmdPushList (left : Bool) : List Bytes → HandlerM σ Reply
  | key :: value :: values => call .int (Store.pushList cfg.engine key left (value :: values) now)
  | _ => return .error "ERR wrong number of arguments for list push command"

def cmdLPush : List Bytes → HandlerM σ Reply := cmdPushList cfg now true

def cmdRPush : List Bytes → HandlerM σ Reply := cmdPushList cfg now false

def cmdPopList (left : Bool) : List Bytes → HandlerM σ Reply
  | [key] => call .bulk (Store.popList cfg.engine key left now)
  | _ => return .error "ERR wrong number of arguments for list pop command"

def cmdLPop : List Bytes → HandlerM σ Reply := cmdPopList cfg now true

def cmdRPop : List Bytes → HandlerM σ Reply := cmdPopList cfg now false

def cmdLRange : List Bytes → HandlerM σ Reply
  | [key, start, stop] => withInt start fun i => withInt stop fun j =>
    call .bulks (Store.lrange cfg.engine key i j now)
  | _ => return .wrongArity "lrange"

def cmdLLen : List Bytes → HandlerM σ Reply
  | [key] => call .int (Store.llen cfg.engine key now)
  | _ => return .wrongArity "llen"

def cmdLIndex : List Bytes → HandlerM σ Reply
  | [key, index] => withInt index fun i => call .bulk (Store.lindex cfg.engine key i now)
  | _ => return .wrongArity "lindex"

def cmdLSet : List Bytes → HandlerM σ Reply
  | [key, index, value] => withInt index fun i =>
    call (fun _ => .ok) (Store.lset cfg.engine key i value now)
  | _ => return .wrongArity "lset"

def cmdLTrim : List Bytes → HandlerM σ Reply
  | [key, start, stop] => withInt start fun i => withInt stop fun j =>
    call (fun _ => .ok) (Store.ltrim cfg.engine key i j now)
  | _ => return .wrongArity "ltrim"

/-! ## Sets and sorted sets -/

def cmdSAdd : List Bytes → HandlerM σ Reply
  | key :: member :: members => call .int (Store.sadd cfg.engine key (member :: members) now)
  | _ => return .wrongArity "sadd"

def cmdSRem : List Bytes → HandlerM σ Reply
  | key :: member :: members => call .int (Store.srem cfg.engine key (member :: members) now)
  | _ => return .wrongArity "srem"

def cmdSMembers : List Bytes → HandlerM σ Reply
  | [key] => call .bulks (Store.smembers cfg.engine key now)
  | _ => return .wrongArity "smembers"

def cmdSIsMember : List Bytes → HandlerM σ Reply
  | [key, member] => call .flag (Store.sisMember cfg.engine key member now)
  | _ => return .wrongArity "sismember"

def cmdSCard : List Bytes → HandlerM σ Reply
  | [key] => call .int (Store.scard cfg.engine key now)
  | _ => return .wrongArity "scard"

/-- The scores and members of `ZADD`; `none` when a score is not a number. -/
def zMembers : List Bytes → Option (List (Score × Bytes))
  | score :: member :: rest => do
    let value ← cfg.parseFloat score
    let members ← zMembers rest
    return (value, member) :: members
  | _ => some []

def cmdZAdd (args : List Bytes) : HandlerM σ Reply :=
  match args with
  | key :: pairs =>
    if args.length < 3 ∨ args.length % 2 = 0 then return .wrongArity "zadd"
    else
      match zMembers cfg pairs with
      | none => return .error "ERR value is not a valid float"
      | some members => call .int (Store.zadd cfg.engine key members now)
  | [] => return .wrongArity "zadd"

def cmdZRem : List Bytes → HandlerM σ Reply
  | key :: member :: members => call .int (Store.zrem cfg.engine key (member :: members) now)
  | _ => return .wrongArity "zrem"

/-- `ZRange`: a part of the members in their order. -/
def zrange (key : Bytes) (start stop : Int) : StoreM σ (Except StoreError (List Bytes)) := do
  let scores ← Store.getZSetValue cfg.engine key now
  return Store.orAbsent [] (scores.map fun scores =>
    match Store.normalizeRange (cfg.sortedZMembers scores).length start stop with
    | none => []
    | some (i, j) => Store.slice (cfg.sortedZMembers scores) i j)

def cmdZRange : List Bytes → HandlerM σ Reply
  | [key, start, stop] => withInt start fun i => withInt stop fun j =>
    call .bulks (zrange cfg now key i j)
  | _ => return .wrongArity "zrange"

def cmdZScore : List Bytes → HandlerM σ Reply
  | [key, member] => call (.bulk ∘ cfg.formatFloat) (Store.zscore cfg.engine key member now)
  | _ => return .wrongArity "zscore"

/-- `ZRank`: the place of a member in the order. -/
def zrank (key member : Bytes) : StoreM σ (Except StoreError Int) := do
  match ← Store.getZSetValue cfg.engine key now with
  | .error e => return .error e
  | .ok scores =>
    match (cfg.sortedZMembers scores).idxOf? member with
    | none => return .error .keyNotFound
    | some i => return .ok i

def cmdZRank : List Bytes → HandlerM σ Reply
  | [key, member] => call .int (zrank cfg now key member)
  | _ => return .wrongArity "zrank"

def cmdZCard : List Bytes → HandlerM σ Reply
  | [key] => call .int (Store.zcard cfg.engine key now)
  | _ => return .wrongArity "zcard"

/-! ## Keys -/

def cmdDel (args : List Bytes) : HandlerM σ Reply :=
  match args with
  | [] => return .wrongArity "del"
  | key :: _ =>
    logged .int <| applyReplicationWrite cfg key .del args 0 0 (sureApply (Store.del cfg.engine args))

def cmdExists (args : List Bytes) : HandlerM σ Reply :=
  if args = [] then return .wrongArity "exists"
  else do
    let count ← engineCall (Store.existsKeys cfg.engine now args)
    return .int count

def typeName : Option ValueType → String
  | none => "none"
  | some .string => "string"
  | some .list => "list"
  | some .set => "set"
  | some .hash => "hash"
  | some .zset => "zset"

def cmdType : List Bytes → HandlerM σ Reply
  | [key] => do
    let type ← engineCall (Store.type cfg.engine key now)
    return .simple (typeName type)
  | _ => return .wrongArity "type"

/-- The reply to `RENAME` does not go through `writeDataError`. -/
def renameReply : Except (WriteError ApplyError) Unit → Reply
  | .ok () => .ok
  | .error err => .error ("ERR " ++ writeErrorText err)

def cmdRename (args : List Bytes) : HandlerM σ Reply :=
  match args with
  | [key, newkey] => do
    let result ← applyReplicationWrite cfg key .rename args 0 ()
      (engineApply (Store.rename cfg.engine key newkey now))
    return renameReply result
  | _ => return .wrongArity "rename"

def cmdFlushDB (_args : List Bytes) : HandlerM σ Reply := do
  engineCall (Store.flushDB cfg.engine)
  return .ok

/-- `EXPIRE` and `PEXPIRE`: the log gets the deadline, the engine the time to live. -/
def cmdExpireFor (command : String) (opType : OpType) (unit : Int) (args : List Bytes) :
    HandlerM σ Reply :=
  match args with
  | [key, arg] => withInt arg fun n =>
    logged .flag <| applyReplicationWrite cfg key opType args (addNow now (duration n unit)) false
      (sureApply (Store.expire cfg.engine key (duration n unit) now))
  | _ => return .wrongArity command

def cmdExpire : List Bytes → HandlerM σ Reply := cmdExpireFor cfg now "expire" .expire second

def cmdPExpire : List Bytes → HandlerM σ Reply :=
  cmdExpireFor cfg now "pexpire" .pexpire millisecond

def cmdExpireAt (args : List Bytes) : HandlerM σ Reply :=
  match args with
  | [key, arg] => withInt arg fun ts =>
    logged .flag <| applyReplicationWrite cfg key .expireAt args (unixNano ts) false
      (sureApply (Store.expireAt cfg.engine key (unixTime ts) now))
  | _ => return .wrongArity "expireat"

/-- `TTL` and `PTTL`; the division rounds towards zero. -/
def cmdTTLIn (command : String) (unit : Int) : List Bytes → HandlerM σ Reply
  | [key] => do
    let ttl ← engineCall (Store.ttl cfg.engine key now)
    return .int (ttl.tdiv unit)
  | _ => return .wrongArity command

def cmdTTL : List Bytes → HandlerM σ Reply := cmdTTLIn cfg now "ttl" second

def cmdPTTL : List Bytes → HandlerM σ Reply := cmdTTLIn cfg now "pttl" millisecond

def cmdPersist (args : List Bytes) : HandlerM σ Reply :=
  match args with
  | [key] =>
    logged .flag <| applyReplicationWrite cfg key .persist args 0 false
      (sureApply (Store.persist cfg.engine key now))
  | _ => return .wrongArity "persist"

/-! ## Moving keys -/

/-- `engine.ValueType` of the first byte of a serialized value. -/
def typeOfByte : UInt8 → Option ValueType
  | 0 => some .string
  | 1 => some .list
  | 2 => some .set
  | 3 => some .zset
  | 4 => some .hash
  | _ => none

/-- The end of `RESTORE`: a serialized value is a type and a payload. -/
def restore (key : Bytes) (ttlMs : Int) : Bytes → HandlerM σ Reply
  | [] => return .error "ERR invalid serialized value"
  | type :: payload =>
    match typeOfByte type with
    | none => return .error ("ERR unsupported value type " ++ toString type.toNat)
    | some valueType => do
      let ttl := if ttlMs > 0 then duration ttlMs millisecond else 0
      match ← engineCall (Store.restoreEntry cfg.engine key valueType payload ttl now) with
      | .error e => return .error ("ERR " ++ errorText e)
      | .ok () => return .ok

def hasOption (word : String) (options : List Bytes) : Bool :=
  options.any fun opt => toUpper opt = ascii word

def cmdRestore : List Bytes → HandlerM σ Reply
  | key :: ttl :: serialized :: options =>
    match parseInt ttl with
    | none => return .error "ERR invalid TTL value"
    | some ttlMs =>
      if hasOption "REPLACE" options then restore cfg now key ttlMs serialized
      else do
        let count ← engineCall (Store.existsKeys cfg.engine now [key])
        if count > 0 then return .error "BUSYKEY Target key name already exists."
        else restore cfg now key ttlMs serialized
  | _ => return .wrongArity "restore"

/-- `GetEntry`: a value and its deadline, `0` for none. -/
def getEntry (key : Bytes) : StoreM σ (Option (Value × Int)) := do
  match ← Store.cacheGet cfg.engine key now with
  | some value =>
    match ← Store.cacheTTL cfg.engine key now with
    | some ttl => return some (.string value, if ttl > 0 then now + ttl else 0)
    | none => return some (.string value, 0)
  | none =>
    let o ← Store.objectGet key now
    return o.map fun o => (.object o.value, if o.expireAt > 0 then o.expireAt else 0)

/-- The options of `MIGRATE`. -/
structure MigrateOptions where
  copyKey : Bool := false
  replace : Bool := false
  keysMode : Bool := false
  keys : List Bytes := []

/-- `strings.ToUpper` also takes the long s to `S`. -/
def isKeysOption (opt : Bytes) : Bool :=
  toUpper opt = ascii "KEYS" || toUpper opt = ascii "KEY" ++ [0xC5, 0xBF]

/-- The loop of `cmdMigrate` over its options; all that follows `KEYS` is a key. -/
def migrateOptions : List Bytes → MigrateOptions → MigrateOptions
  | [], opts => opts
  | opt :: rest, opts =>
    if toUpper opt = ascii "COPY" then migrateOptions rest { opts with copyKey := true }
    else if toUpper opt = ascii "REPLACE" then migrateOptions rest { opts with replace := true }
    else if isKeysOption opt then { opts with keysMode := true, keys := rest }
    else migrateOptions rest opts

structure MigrateItem where
  key : Bytes
  ttlMs : Int
  value : Value

def serializesValue : Value → Bool
  | .string _ => true
  | .object v => cfg.serializes v

/-- The items of the keys. With `KEYS`, one that is missing or past its deadline is left out;
otherwise it ends the command. -/
def migrateItems (keysMode : Bool) : List Bytes → StoreM σ (Except Reply (List MigrateItem))
  | [] => return .ok []
  | key :: keys => do
    match ← getEntry cfg now key with
    | none => if keysMode then migrateItems keysMode keys else return .error (.error "ERR no such key")
    | some (value, expireAt) =>
      let ttlMs := if expireAt = 0 then 0 else (Store.timeUntil expireAt now).tdiv millisecond
      if ttlMs < 0 then
        if keysMode then migrateItems keysMode keys else return .error (.simple "NOKEY")
      else if serializesValue cfg value then
        let items ← migrateItems keysMode keys
        return items.map (⟨key, ttlMs, value⟩ :: ·)
      else return .error (.error "ERR unsupported value type for migration")

/-- The items go to the target in turn; what it took is deleted here, unless it was to be copied.
`n` items have gone before. -/
def sendItems (copyKey : Bool) : ℕ → List MigrateItem → HandlerM σ Reply
  | _, [] => return .ok
  | n, item :: items =>
    match cfg.migrated n with
    | .error text => return .error text
    | .ok () => do
      if ¬ copyKey then
        let _ ← engineCall (Store.del cfg.engine [item.key])
      sendItems copyKey (n + 1) items

/-- `MIGRATE` once its arguments are read. -/
def migrate (opts : MigrateOptions) (keys : List Bytes) : HandlerM σ Reply := do
  match ← engineCall (migrateItems cfg now opts.keysMode keys) with
  | .error reply => return reply
  | .ok items =>
    if opts.keysMode ∧ items = [] then return .simple "NOKEY"
    else sendItems cfg opts.copyKey 0 items

def cmdMigrate : List Bytes → HandlerM σ Reply
  | _host :: _port :: key :: db :: timeout :: options => fun s =>
    match parseInt db with
    | none => return (.error "ERR invalid DB index", s)
    | some n =>
      if s.manager.isSome ∧ n ≠ 0 then return (.error "ERR Target DB is not 0 in cluster mode", s)
      else
        match parseInt timeout with
        | none => return (.error "ERR invalid timeout", s)
        | some _ =>
          let opts := migrateOptions options {}
          if opts.keysMode then
            if key ≠ [] then return (.error "ERR key argument must be empty when using KEYS", s)
            else if opts.keys = [] then return (.wrongArity "migrate", s)
            else migrate cfg now opts opts.keys s
          else migrate cfg now opts [key] s
  | _ => return .wrongArity "migrate"

/-! ## A small node -/

/-- A cache with the smallest ring and no slot index. -/
def plainLogical : LogicalConfig where
  size := ⟨Ring.minRingBufferSize, Int.le_refl _⟩
  slotFunc := none
  unmarshal _ _ := .error "unexpected end of JSON input"

/-- A node over it that is alone and keeps all keys in one slot. -/
def plainNode : NodeConfig Cache where
  engine := plainLogical.engine
  view := { selfID := "a", nodeAddr := fun _ => none, keySlot := fun _ => 0,
            keySlot_lt := slotCount_pos }
  parseFloat _ := none
  formatFloat _ := []
  sortedZMembers _ := []
  serializes _ := true
  migrated _ := .ok ()
  other _ := none

lemma plainNode_engine : plainNode.engine = plainLogical.engine := rfl

end AutoCache.Protocol
