import AutoCache.Protocol.Commands

/-!
# Dispatch (`internal/protocol/{handler,cmdmap,crossslot}.go`)

`ExecuteBytes` finds the handler of a command by its name. In a cluster it first asks the router
whether the keys of the command are served here and whether a write is admitted. Outside a cluster
`PING`, `SET`, `GET` and `INCR` never come that far: a fast path answers them with code of its own.
-/

namespace AutoCache.Protocol

open Cluster Replication

/-- The commands on keys, and `PING`. -/
inductive Command where
  | ping | get | set | setNX | setEX | pSetEX | mGet | mSet
  | hGet | hSet | hDel | hExists | hGetAll | hKeys | hVals | hLen
  | lPush | rPush | lPop | rPop | lRange | lLen | lIndex | lSet | lTrim
  | sAdd | sRem | sMembers | sIsMember | sCard
  | zAdd | zRem | zRange | zScore | zRank | zCard
  | incr | incrBy | decr | decrBy | append | strlen | getSet
  | del | existsKeys | type | rename | flushDB | flushAll
  | expire | expireAt | pExpire | ttl | pTTL | persist
  | restore | migrate
  deriving DecidableEq, Repr

namespace Command

def all : List Command :=
  [.ping, .get, .set, .setNX, .setEX, .pSetEX, .mGet, .mSet, .hGet, .hSet, .hDel, .hExists,
    .hGetAll, .hKeys, .hVals, .hLen, .lPush, .rPush, .lPop, .rPop, .lRange, .lLen, .lIndex, .lSet,
    .lTrim, .sAdd, .sRem, .sMembers, .sIsMember, .sCard, .zAdd, .zRem, .zRange, .zScore, .zRank,
    .zCard, .incr, .incrBy, .decr, .decrBy, .append, .strlen, .getSet, .del, .existsKeys, .type,
    .rename, .flushDB, .flushAll, .expire, .expireAt, .pExpire, .ttl, .pTTL, .persist, .restore,
    .migrate]

def name : Command → String
  | .ping => "PING" | .get => "GET" | .set => "SET" | .setNX => "SETNX" | .setEX => "SETEX"
  | .pSetEX => "PSETEX" | .mGet => "MGET" | .mSet => "MSET" | .hGet => "HGET" | .hSet => "HSET"
  | .hDel => "HDEL" | .hExists => "HEXISTS" | .hGetAll => "HGETALL" | .hKeys => "HKEYS"
  | .hVals => "HVALS" | .hLen => "HLEN" | .lPush => "LPUSH" | .rPush => "RPUSH" | .lPop => "LPOP"
  | .rPop => "RPOP" | .lRange => "LRANGE" | .lLen => "LLEN" | .lIndex => "LINDEX"
  | .lSet => "LSET" | .lTrim => "LTRIM" | .sAdd => "SADD" | .sRem => "SREM"
  | .sMembers => "SMEMBERS" | .sIsMember => "SISMEMBER" | .sCard => "SCARD" | .zAdd => "ZADD"
  | .zRem => "ZREM" | .zRange => "ZRANGE" | .zScore => "ZSCORE" | .zRank => "ZRANK"
  | .zCard => "ZCARD" | .incr => "INCR" | .incrBy => "INCRBY" | .decr => "DECR"
  | .decrBy => "DECRBY" | .append => "APPEND" | .strlen => "STRLEN" | .getSet => "GETSET"
  | .del => "DEL" | .existsKeys => "EXISTS" | .type => "TYPE" | .rename => "RENAME"
  | .flushDB => "FLUSHDB" | .flushAll => "FLUSHALL" | .expire => "EXPIRE"
  | .expireAt => "EXPIREAT" | .pExpire => "PEXPIRE" | .ttl => "TTL" | .pTTL => "PTTL"
  | .persist => "PERSIST" | .restore => "RESTORE" | .migrate => "MIGRATE"

/-- What the table of commands has under a name in upper case. -/
def ofName (name : Bytes) : Option Command := all.find? fun c => ascii c.name = name

/-- `multiKeyCommands`: the keys of a command on several keys. -/
def multiKeys? : Command → Option (List Bytes → List Bytes)
  | .mGet | .del | .existsKeys | .rename => some id
  | .mSet => some fun args => if args.length < 2 then [] else everyOther args
  | _ => none
where
  /-- The arguments at the even places. -/
  everyOther : List Bytes → List Bytes
    | key :: _ :: rest => key :: everyOther rest
    | rest => rest

/-- `keyCommands`: the first argument is a key. -/
def isKeyCommand : Command → Bool
  | .ping | .mGet | .mSet | .flushDB | .flushAll | .restore | .migrate => false
  | _ => true

def writeCommands : List Command :=
  [.set, .setNX, .setEX, .pSetEX, .getSet, .mSet, .hSet, .hDel, .lPush, .rPush, .lPop, .rPop,
    .lSet, .lTrim, .sAdd, .sRem, .zAdd, .zRem, .incr, .incrBy, .decr, .decrBy, .append, .del,
    .rename, .expire, .expireAt, .pExpire, .persist, .restore, .migrate]

/-- The keys the router and the write admission look at. -/
def routedKeys (c : Command) (args : List Bytes) : List Bytes :=
  match c.multiKeys? with
  | some keys => keys args
  | none => if c.isKeyCommand then args.take 1 else []

variable {σ : Type} (cfg : NodeConfig σ) (now : Int)

def run : Command → List Bytes → HandlerM σ Reply
  | .ping => cmdPing
  | .get => cmdGet cfg now
  | .set => cmdSet cfg now
  | .setNX => cmdSetNX cfg now
  | .setEX => cmdSetEX cfg now
  | .pSetEX => cmdPSetEX cfg now
  | .mGet => cmdMGet cfg now
  | .mSet => cmdMSet cfg now
  | .hGet => cmdHGet cfg now
  | .hSet => cmdHSet cfg now
  | .hDel => cmdHDel cfg now
  | .hExists => cmdHExists cfg now
  | .hGetAll => cmdHGetAll cfg now
  | .hKeys => cmdHKeys cfg now
  | .hVals => cmdHVals cfg now
  | .hLen => cmdHLen cfg now
  | .lPush => cmdLPush cfg now
  | .rPush => cmdRPush cfg now
  | .lPop => cmdLPop cfg now
  | .rPop => cmdRPop cfg now
  | .lRange => cmdLRange cfg now
  | .lLen => cmdLLen cfg now
  | .lIndex => cmdLIndex cfg now
  | .lSet => cmdLSet cfg now
  | .lTrim => cmdLTrim cfg now
  | .sAdd => cmdSAdd cfg now
  | .sRem => cmdSRem cfg now
  | .sMembers => cmdSMembers cfg now
  | .sIsMember => cmdSIsMember cfg now
  | .sCard => cmdSCard cfg now
  | .zAdd => cmdZAdd cfg now
  | .zRem => cmdZRem cfg now
  | .zRange => cmdZRange cfg now
  | .zScore => cmdZScore cfg now
  | .zRank => cmdZRank cfg now
  | .zCard => cmdZCard cfg now
  | .incr => cmdIncr cfg now
  | .incrBy => cmdIncrBy cfg now
  | .decr => cmdDecr cfg now
  | .decrBy => cmdDecrBy cfg now
  | .append => cmdAppend cfg now
  | .strlen => cmdStrlen cfg now
  | .getSet => cmdGetSet cfg now
  | .del => cmdDel cfg
  | .existsKeys => cmdExists cfg now
  | .type => cmdType cfg now
  | .rename => cmdRename cfg now
  | .flushDB => cmdFlushDB cfg
  | .flushAll => cmdFlushDB cfg
  | .expire => cmdExpire cfg now
  | .expireAt => cmdExpireAt cfg now
  | .pExpire => cmdPExpire cfg now
  | .ttl => cmdTTL cfg now
  | .pTTL => cmdPTTL cfg now
  | .persist => cmdPersist cfg now
  | .restore => cmdRestore cfg now
  | .migrate => cmdMigrate cfg now

end Command

variable {σ : Type} (cfg : NodeConfig σ) (now : Int)

/-! ## Routing -/

def redirectReply : Redirect → Reply
  | .moved slot addr => .error ("MOVED " ++ toString slot.toNat ++ " " ++ addr)
  | .ask slot addr => .error ("ASK " ++ toString slot.toNat ++ " " ++ addr)

def routeKeys (m : Manager) (askingFlag : Bool) : List Bytes → RouteResult
  | [] => .here
  | [key] => cfg.view.route m.slots key askingFlag
  | keys => cfg.view.routeMulti m.slots keys

/-- `canAcceptWrite` looks at the first key. -/
def acceptsWrite (m : Manager) : List Bytes → Bool
  | [] => true
  | key :: _ => cfg.view.canAcceptWrite m.slots key

/-- The reply to a command that does not reach its handler. -/
def refusal (m : Manager) (c : Command) (args : List Bytes) (askingFlag : Bool) : Option Reply :=
  match routeKeys cfg m askingFlag (c.routedKeys args) with
  | .crossSlot => some (.error "CROSSSLOT Keys in request don't hash to the same slot")
  | .redirect r => some (redirectReply r)
  | .here =>
    if c ∈ Command.writeCommands ∧ ¬ acceptsWrite cfg m (c.routedKeys args) then
      some (.error "READONLY slot is not writable on this node")
    else none

/-- The registered handler, behind the router. -/
def dispatch (c : Command) (args : List Bytes) (askingFlag : Bool) : HandlerM σ Reply := fun s =>
  match s.manager with
  | none => c.run cfg now args s
  | some m =>
    match refusal cfg m c args askingFlag with
    | some reply => return (reply, s)
    | none => c.run cfg now args s

/-! ## The fast path -/

/-- `SET` without options: what follows the value is not looked at. -/
def fastSet : List Bytes → HandlerM σ Reply
  | key :: value :: _ => do
    match ← engineCall (Store.set cfg.engine key value 0 now) with
    | .error e => return .error ("ERR " ++ errorText e)
    | .ok () => return .ok
  | _ => return .wrongArity "set"

/-- `GET`: every error is a missing value. -/
def fastGet : List Bytes → HandlerM σ Reply
  | [key] => do
    match ← engineCall (Store.get cfg.engine key now) with
    | .error _ => return .null
    | .ok value => return .bulk value
  | _ => return .wrongArity "get"

def fastIncr : List Bytes → HandlerM σ Reply
  | [key] => do
    match ← engineCall (Store.incr cfg.engine key now) with
    | .error e => return .error ("ERR " ++ errorText e)
    | .ok n => return .int n
  | _ => return .wrongArity "incr"

def fastPing : List Bytes → HandlerM σ Reply
  | [] => return .simple "PONG"
  | message :: _ => return .bulk message

/-- The test for one letter in either case. -/
def isLetter (upper c : UInt8) : Bool := c = upper || c = upper + 32

/-- The names are compared byte by byte, behind a switch on the first one. -/
def fastPath : Bytes → Option (List Bytes → HandlerM σ Reply)
  | [a, b, c, d] =>
    if isLetter 80 a then
      if isLetter 73 b && isLetter 78 c && isLetter 71 d then some fastPing else none
    else if isLetter 73 a then
      if isLetter 78 b && isLetter 67 c && isLetter 82 d then some (fastIncr cfg now) else none
    else none
  | [a, b, c] =>
    if isLetter 83 a then
      if isLetter 69 b && isLetter 84 c then some (fastSet cfg now) else none
    else if isLetter 71 a then
      if isLetter 69 b && isLetter 84 c then some (fastGet cfg now) else none
    else none
  | _ => none

def executeBytes (cmdBytes : Bytes) (args : List Bytes) (askingFlag : Bool) : HandlerM σ Reply :=
  fun s =>
    match if s.manager.isNone then fastPath cfg now cmdBytes else none with
    | some fast => fast args s
    | none =>
      match Command.ofName (toUpper cmdBytes) with
      | some c => dispatch cfg now c args askingFlag s
      | none =>
        match cfg.other (toUpper cmdBytes) with
        | some handler => handler args s
        | none => return (.error ("ERR unknown command '" ++ text (toUpper cmdBytes) ++ "'"), s)

variable {cfg now} in
lemma executeBytes_cluster {s : Server σ} {m : Manager} {c : Command} {cmdBytes : Bytes}
    (hm : s.manager = some m) (hname : Command.ofName (toUpper cmdBytes) = some c)
    (args : List Bytes) (askingFlag : Bool) :
    executeBytes cfg now cmdBytes args askingFlag s = match refusal cfg m c args askingFlag with
      | some reply => .ok (reply, s)
      | none => c.run cfg now args s := by
  simp only [executeBytes, hm, Option.isNone_some, Bool.false_eq_true, if_false, hname, dispatch]
  rfl

end AutoCache.Protocol
