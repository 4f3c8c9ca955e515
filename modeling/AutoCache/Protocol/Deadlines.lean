import AutoCache.Protocol.FastPath
import AutoCache.Store.CollectionCalls

/-!
# The deadlines that commands set

A command names a time to live in seconds or milliseconds, or a Unix time. The handler turns it into
nanoseconds in 64 bits, the store adds the clock in 64 bits, and both take zero and what is negative for no
deadline. An object with a negative deadline, on the other hand, is past it.

A deadline is honoured if at no later time a copy of the key is live.
-/

namespace AutoCache

open World Option

/-- At no time after `d` a copy of the key is live. -/
def Store.Honours (s : Store Cache) (now d : Int) (key : Bytes) : Prop :=
  ∀ t, now ≤ t → d < t → s.live t key = ⟨none, none⟩

/-- The live copies are due by `d`. -/
structure KeyState.DueBy (d : Int) (k : KeyState) : Prop where
  str : ∀ slot ∈ k.str, 0 < slot.deadline ∧ slot.deadline ≤ d
  obj : ∀ o ∈ k.obj, o.expireAt ≠ 0 ∧ o.expireAt ≤ d

lemma Store.honours_iff {s : Store Cache} {now d : Int} {key : Bytes} : s.Honours now d key ↔ (s.live now key).DueBy d := by
  constructor
  · intro h
    have hlate := h (max now (d + 1)) (le_max_left _ _) (lt_of_lt_of_le (Int.lt_succ d) (le_max_right _ _))
    rw [Store.live_later (le_max_left now (d + 1))] at hlate
    have hstr := congrArg KeyState.str hlate
    have hobj := congrArg KeyState.obj hlate
    simp only [later] at hstr hobj
    constructor
    · intro slot hslot
      have hlive := (Store.lookup_of_live hslot).2
      rw [mem_def.1 hslot, filter_eq_none_iff] at hstr
      have hgone := hstr slot rfl
      simp only [decide_eq_true_eq] at hgone
      cases slot with
      | counter n hn => exact absurd trivial hgone
      | entry e =>
        have hexp : e.expired (max now (d + 1)) := by
          by_contra hexp
          exact hgone ⟨hlive.1, hexp⟩
        have hnow : ¬ e.expired now := hlive.2
        simp only [Entry.expired, Slot.deadline] at hexp hnow ⊢
        omega
    · intro o ho
      have hlive : ¬ o.expired now := of_decide_eq_true (mem_filter_iff.1 ho).2
      rw [mem_def.1 ho, filter_eq_none_iff] at hobj
      have hgone := hobj o rfl
      simp only [decide_eq_true_eq, not_not] at hgone
      simp only [Object.expired] at hgone hlive
      omega
  · intro h t hnow hd
    rw [Store.live_later hnow]
    ext1
    · change Option.filter _ _ = none
      rw [filter_eq_none_iff]
      intro slot hslot
      obtain ⟨hpos, hle⟩ := h.str slot hslot
      simp only [decide_eq_true_eq]
      cases slot with
      | counter n hn => exact absurd hpos (lt_irrefl 0)
      | entry e => exact fun hlive => hlive.2 ⟨hpos, lt_of_le_of_lt hle hd⟩
    · change Option.filter _ _ = none
      rw [filter_eq_none_iff]
      intro o ho
      obtain ⟨hne, hle⟩ := h.obj o ho
      simp only [decide_eq_true_eq, not_not]
      exact ⟨hne, lt_of_le_of_lt hle hd⟩

namespace Protocol

open Replication

/-! ## The commands -/

inductive TimeUnit where
  | seconds
  | milliseconds
  deriving DecidableEq

def TimeUnit.ns : TimeUnit → Int
  | .seconds => second
  | .milliseconds => millisecond

inductive SetMode where
  | always
  | nx
  | xx
  deriving DecidableEq

/-- The commands that set a deadline; `SETEX` and `PSETEX` are `setFor`, `EXPIRE` and `PEXPIRE` are `expire`. A
`RESTORE` has a time to live if it is positive. -/
inductive TimedCmd where
  | set (key value : Bytes) (unit : TimeUnit) (n : Int64) (mode : SetMode)
  | setFor (key value : Bytes) (unit : TimeUnit) (n : Int64)
  | expire (key : Bytes) (unit : TimeUnit) (n : Int64)
  | expireAt (key : Bytes) (n : Int64)
  | restore (key : Bytes) (n : Int64) (serialized : Bytes) (replace : Bool) (positive : 0 < n.toInt)

namespace TimedCmd

def key : TimedCmd → Bytes
  | set key .. | setFor key .. | expire key .. | expireAt key _ | restore key .. => key

/-- The words of the command after its name. -/
def args : TimedCmd → List Bytes
  | set key value unit n mode =>
    [key, value, ascii (match unit with | .seconds => "EX" | .milliseconds => "PX"), formatInt n.toInt] ++
      match mode with
      | .always => []
      | .nx => [ascii "NX"]
      | .xx => [ascii "XX"]
  | setFor key value _ n => [key, formatInt n.toInt, value]
  | expire key _ n => [key, formatInt n.toInt]
  | expireAt key n => [key, formatInt n.toInt]
  | restore key n serialized replace _ =>
    [key, formatInt n.toInt, serialized] ++ if replace then [ascii "REPLACE"] else []

def run (cfg : NodeConfig Cache) (now : Int) (c : TimedCmd) : HandlerM Cache Reply :=
  match c with
  | set .. => cmdSet cfg now c.args
  | setFor _ _ .seconds _ => cmdSetEX cfg now c.args
  | setFor _ _ .milliseconds _ => cmdPSetEX cfg now c.args
  | expire _ .seconds _ => cmdExpire cfg now c.args
  | expire _ .milliseconds _ => cmdPExpire cfg now c.args
  | expireAt .. => cmdExpireAt cfg now c.args
  | restore .. => cmdRestore cfg now c.args

/-- The deadline that the command asks for, in unbounded integers. -/
def deadline (now : Int) : TimedCmd → Int
  | set _ _ unit n _ | setFor _ _ unit n | expire _ unit n => now + n.toInt * unit.ns
  | expireAt _ n => n.toInt * second
  | restore _ n .. => now + n.toInt * millisecond

end TimedCmd

/-- The command has been carried out: neither an error, nor a null, nor `0`. -/
def Reply.Accepts : Reply → Prop
  | .simple _ => True
  | .int n => n ≠ 0
  | _ => False

/-! ## When a deadline is honoured -/

/-- A string that is written or expired with the time to live `ttl` has a deadline, and not too late a one: the
sum with the clock stays positive, and `n`, which the command asks for, was positive. -/
def StringDue (n ttl now : Int) : Prop := 0 < n ∧ 0 < ttl ∧ 0 < wrap64 (now + ttl)

/-- The same of an object. A sum that overflows is past, so that the object is gone. -/
def ObjectDue (n ttl now : Int) : Prop :=
  0 < ttl ∧ wrap64 (now + ttl) ≠ 0 ∧ (0 < n ∨ wrap64 (now + ttl) < now)

/-- What `Expire` does to the live copies in time: it meets a string that is no counter, and no later
object is behind it; or only an object. -/
def ExpireDue (n ttl now d : Int) (k : KeyState) : Prop :=
  match k.str with
  | some (.entry _) => StringDue n ttl now ∧ ∀ o ∈ k.obj, o.expireAt ≠ 0 ∧ o.expireAt ≤ d
  | some (.counter _ _) => False
  | none => ObjectDue n ttl now

/-- **When the deadline of a command is honoured**, given the live copies of its key. -/
def TimedCmd.Due (size : RingSize) (now : Int) (k : KeyState) : TimedCmd → Prop
  -- the object behind a new string stays
  | .set key _ unit n .always =>
    (Readable key → StringDue n.toInt (duration n.toInt unit.ns) now) ∧
      ∀ o ∈ k.obj, o.expireAt ≠ 0 ∧ o.expireAt ≤ now + n.toInt * unit.ns
  | .set key _ unit n _ => Readable key → StringDue n.toInt (duration n.toInt unit.ns) now
  -- a string that does not fit leaves the old one, and the reply is the same
  | .setFor key value unit n =>
    (if Cache.TooLarge size key value then
        ∀ e, k.str = some (.entry e) → 0 < e.expireAt.toInt ∧ e.expireAt.toInt ≤ now + n.toInt * unit.ns
      else Readable key → StringDue n.toInt (duration n.toInt unit.ns) now) ∧
      ∀ o ∈ k.obj, o.expireAt ≠ 0 ∧ o.expireAt ≤ now + n.toInt * unit.ns
  | .expire _ unit n => ExpireDue n.toInt (duration n.toInt unit.ns) now (now + n.toInt * unit.ns) k
  -- a time that is past deletes the key
  | .expireAt _ n =>
    let ttl := Store.timeUntil (unixTime n.toInt) now
    ttl < 0 ∨ ExpireDue ttl ttl now (n.toInt * second) k
  | .restore key n serialized _ _ =>
    if serialized.head? = some 0 then Readable key → StringDue n.toInt (duration n.toInt millisecond) now
    else ObjectDue n.toInt (duration n.toInt millisecond) now

/-! ## The arithmetic -/

section Arithmetic

/-- A duration in 64 bits is at most what was asked for, or it is the other way round from zero. -/
lemma wrap64_le {x : Int} (hx : 0 < x) : wrap64 x ≤ x := by
  unfold wrap64
  omega

/-- The sum of a clock and a positive duration, in 64 bits: the sum, or before the clock. -/
lemma wrap64_sum {now ttl : Int} (hnow : -2 ^ 63 ≤ now) (hmax : now < 2 ^ 63) (hpos : 0 < ttl) (httl : ttl < 2 ^ 63) :
    wrap64 (now + ttl) = now + ttl ∨ wrap64 (now + ttl) < now ∧ wrap64 (now + ttl) < 0 := by
  unfold wrap64
  omega

/-- What a command asks for: a positive time to live within the deadline `d`, or a deadline that is not
ahead. -/
def Asks (n ttl now d : Int) : Prop := 0 < ttl → 0 < n ∧ now + ttl ≤ d ∨ n ≤ 0 ∧ d ≤ now

lemma asks_duration (unit : TimeUnit) (n : Int64) (now : Int) :
    Asks n.toInt (duration n.toInt unit.ns) now (now + n.toInt * unit.ns) := by
  have hsign : 0 < n.toInt * unit.ns ↔ 0 < n.toInt := mul_pos_iff_of_pos_right (by cases unit <;> decide)
  intro _
  by_cases hn : 0 < n.toInt
  · have hle := wrap64_le (hsign.2 hn)
    unfold duration
    omega
  · omega

lemma asks_left {n now : Int64} {ttl : Int} (httl : ttl = Store.timeUntil (unixTime n.toInt) now.toInt) :
    Asks ttl ttl now.toInt (n.toInt * second) := by
  have h1 := n.le_toInt
  intro hpos
  unfold unixTime Store.timeUntil wrap64 second at *
  omega

variable {n ttl d : Int} {now : Int64}

lemma due_iff (hmax : ttl < 2 ^ 63) (hasks : Asks n ttl now.toInt d) : (0 < objectDeadline ttl now.toInt ∧
        (objectDeadline ttl now.toInt ≤ d ∨ objectDeadline ttl now.toInt < now.toInt) ↔
      StringDue n ttl now.toInt) ∧
    (objectDeadline ttl now.toInt ≠ 0 ∧ (objectDeadline ttl now.toInt ≤ d ∨ objectDeadline ttl now.toInt < now.toInt) ↔
      ObjectDue n ttl now.toInt) := by
  unfold StringDue ObjectDue objectDeadline
  by_cases hpos : 0 < ttl
  · have hsum := wrap64_sum now.le_toInt now.toInt_lt hpos hmax
    have := hasks hpos
    omega
  · omega

end Arithmetic

/-! ## The effect on the live copies -/

section Effects

variable {now : Int64} {n ttl d : Int} {size : RingSize} {key value : Bytes} {w : World}

lemma freshEntry_due {now : Int} {e : Entry} :
    (∀ slot ∈ freshSlot key now (.entry e), 0 < slot.deadline ∧ slot.deadline ≤ d) ↔
      (Readable key → 0 < e.expireAt.toInt ∧ (e.expireAt.toInt ≤ d ∨ e.expireAt.toInt < now)) := by
  rw [Store.freshSlot_entry]
  by_cases hlive : Readable key ∧ ¬ e.expired now
  · have hexp := hlive.2
    rw [if_pos hlive]
    simp only [mem_def, some.injEq, forall_eq', Slot.deadline, hlive.1, true_implies]
    simp only [Entry.expired] at hexp
    omega
  · simp only [if_neg hlive, mem_def, reduceCtorEq, false_implies, implies_true, true_iff]
    intro hreadable
    have hexp : e.expired now := by
      by_contra hexp
      exact hlive ⟨hreadable, hexp⟩
    exact ⟨hexp.1, .inr hexp.2⟩

lemma freshObject_due {now : Int} {o : Object} : (∀ x ∈ freshObject now o, x.expireAt ≠ 0 ∧ x.expireAt ≤ d) ↔
      o.expireAt ≠ 0 ∧ (o.expireAt ≤ d ∨ o.expireAt < now) := by
  rw [Store.freshObject_eq]
  by_cases hexp : o.expired now
  · simp only [if_pos hexp, mem_def, reduceCtorEq, false_implies, implies_true, true_iff]
    exact ⟨hexp.1, .inr hexp.2⟩
  · simp only [if_neg hexp, mem_def, some.injEq, forall_eq']
    simp only [Object.expired] at hexp
    omega

section

variable (hmax : ttl < 2 ^ 63) (hasks : Asks n ttl now.toInt d)
include hmax hasks

lemma freshWritten_due : (∀ slot ∈ freshSlot key now.toInt (.entry (writtenEntry value ttl now.toInt)),
        0 < slot.deadline ∧ slot.deadline ≤ d) ↔ (Readable key → StringDue n ttl now.toInt) := by
  rw [freshEntry_due, ← (due_iff hmax hasks).1]
  simp only [writtenEntry, Store.deadline_toInt]

lemma putStr_due : (w.putStr key value ttl now.toInt key).DueBy d ↔
      (Readable key → StringDue n ttl now.toInt) ∧ ∀ o ∈ (w key).obj, o.expireAt ≠ 0 ∧ o.expireAt ≤ d := by
  rw [putStr, setStr_key, ← freshWritten_due hmax hasks]
  exact ⟨fun h => ⟨h.str, h.obj⟩, fun h => ⟨h.1, h.2⟩⟩

lemma expire_due (hfnd : (w.expire key ttl now.toInt).1 = true)
    (hreadable : ∀ e, (w key).str = some (.entry e) → Readable key) :
    ((w.expire key ttl now.toInt).2 key).DueBy d ↔ ExpireDue n ttl now.toInt d (w key) := by
  unfold ExpireDue
  unfold expire cacheExpire objectExpire at hfnd ⊢
  cases hstr : (w key).str with
  | some slot =>
    cases slot with
    | entry e =>
      have hdue := @freshEntry_due d key now.toInt { e with expireAt := deadline ttl now.toInt }
      simp only [hreadable e hstr, true_implies, Store.deadline_toInt] at hdue
      simp only [if_true, setStr_key, ← (due_iff hmax hasks).1, ← hdue]
      exact ⟨fun h => ⟨h.str, h.obj⟩, fun h => ⟨h.1, h.2⟩⟩
    | counter c hc =>
      -- the counter stays, and has no deadline
      have hstays {k : KeyState} (hk : k.str = some (.counter c hc)) : ¬ k.DueBy d :=
        fun h => absurd (h.str _ hk).1 (lt_irrefl 0)
      simp only [Bool.false_eq_true, if_false, iff_false]
      cases hobj : (w key).obj with
      | none => exact hstays hstr
      | some o =>
        refine hstays ?_
        simp only [setObj_apply, if_true]
        exact hstr
  | none =>
    cases hobj : (w key).obj with
    | none => simp [hstr, hobj] at hfnd
    | some o =>
      have hdue := @freshObject_due d now.toInt { o with expireAt := objectDeadline ttl now.toInt }
      simp only [Bool.false_eq_true, if_false, setObj_key, hstr, ← (due_iff hmax hasks).2]
      rw [← hdue]
      exact ⟨fun h => h.obj, fun h => ⟨fun _ hx => (by cases hx), h⟩⟩

end

end Effects

/-! ## The handlers -/

section Handlers

variable {cfg : NodeConfig Cache} {L : LogicalConfig} {now : Int} {s s' : Server Cache} {reply : Reply}

/-- The callback runs on the store, and a write that succeeds is one whose callback did. -/
lemma applyReplicationWrite_run {α : Type} (key : Bytes) (opType : OpType) (args : List Bytes)
    (expireAtNs : Int) (zero : α) {apply : StoreM Cache (Except ApplyError α)} {r : Except ApplyError α}
    {store : Store Cache} (h : apply s.store = .ok (r, store)) :
    ∃ result manager, applyReplicationWrite cfg key opType args expireAtNs zero apply s =
        .ok (result, ⟨store, manager⟩) ∧ ∀ a, result = .ok a → r = .ok a := by
  obtain ⟨st, manager⟩ := s
  cases manager with
  | none =>
    refine ⟨r.mapError .apply, none, applyReplicationWrite_alone h, fun a ha => ?_⟩
    cases r with
    | error e => cases ha
    | ok b =>
      cases ha
      rfl
  | some m =>
    cases r with
    | error e =>
      refine ⟨.error (.apply e), some m, ?_, fun a ha => by cases ha⟩
      simp only [applyReplicationWrite, Manager.applyWrite, captured, h]
      rfl
    | ok b =>
      have hcaptured : captured apply (zero, st) = .ok (none, b, store) := by
        simp only [captured, h]
        rfl
      let req : WriteRequest := ⟨cfg.view.keySlot key, opType, key, encodeReplicationPayload args, expireAtNs⟩
      rcases hlog : (m.logWrite req : Except (WriteError ApplyError) Op × Manager) with ⟨result, m'⟩
      have happlied := Manager.applyWrite_of_applied hcaptured hlog
      refine ⟨result.map fun _ => b, some m', ?_, fun a ha => ?_⟩
      · simp only [applyReplicationWrite]
        rw [happlied]
        rfl
      · cases result with
        | error e => cases ha
        | ok op =>
          cases ha
          rfl

lemma not_accepts_writeDataError (err : WriteError ApplyError) : ¬ (writeDataError err).Accepts := by
  unfold writeDataError
  split <;> exact id

lemma logged_accepted {α : Type} {answer : α → Reply} {key : Bytes} {opType : OpType} {args : List Bytes}
    {expireAtNs : Int} {zero : α} {apply : StoreM Cache (Except ApplyError α)} {r : Except ApplyError α}
    {store : Store Cache} (h : apply s.store = .ok (r, store))
    (hrun : logged answer (applyReplicationWrite cfg key opType args expireAtNs zero apply) s =
      .ok (reply, s')) (haccepts : reply.Accepts) :
    s'.store = store ∧ ∃ a, r = .ok a ∧ reply = answer a := by
  obtain ⟨result, manager, hwr, hok⟩ := @applyReplicationWrite_run cfg s α key opType args expireAtNs zero apply r store h
  unfold logged at hrun
  rw [Views.run_bind hwr] at hrun
  cases result with
  | error err =>
    cases hrun
    exact absurd haccepts (not_accepts_writeDataError err)
  | ok a =>
    cases hrun
    exact ⟨rfl, a, hok a rfl, rfl⟩

lemma setOptions_timed (unit : TimeUnit) (n : Int64) (mode : SetMode) :
    setOptions ([ascii (match unit with | .seconds => "EX" | .milliseconds => "PX"), formatInt n.toInt] ++ match mode with
      | .always => []
      | .nx => [ascii "NX"]
      | .xx => [ascii "XX"]) {} =
    .ok ⟨duration n.toInt unit.ns, decide (mode = .nx), decide (mode = .xx)⟩ := by
  have hn := parseInt_formatInt n.le_toInt n.toInt_lt
  cases unit <;> cases mode <;> simp +decide [setOptions, hn, TimeUnit.ns]

lemma cmdSet_accepted (hE : cfg.engine = L.engine) {key value : Bytes} {options : List Bytes} {opts : SetOptions}
    (hopts : setOptions options {} = .ok opts)
    (hrun : cmdSet cfg now (key :: value :: options) s = .ok (reply, s')) (haccepts : reply.Accepts) :
    (setEffect L.size now key value opts (s.store.live now)).1 = .ok () ∧
      s'.store.live now = (setEffect L.size now key value opts (s.store.live now)).2 := by
  obtain ⟨store, happly, hlive⟩ := (@setApply_acts cfg now L hE key value opts).run s.store
  obtain ⟨result, manager, hwr, hok⟩ := @applyReplicationWrite_run cfg s Unit key .set
    (key :: value :: options) (setExpireAtNs now opts.ttl) () _ _ _ happly
  simp only [cmdSet, hopts] at hrun
  split at hrun
  · cases hrun
    exact absurd haccepts id
  rw [Views.run_bind hwr] at hrun
  cases hrun
  cases result with
  | error err =>
    refine absurd haccepts ?_
    unfold setReply
    split
    · next heq => cases heq
    · exact id
    · exact not_accepts_writeDataError _
  | ok u => exact ⟨hok () rfl, hlive⟩

end Handlers

/-! ## Each command -/

section Commands

variable {cfg : NodeConfig Cache} {L : LogicalConfig} {now n : Int64} {s s' : Server Cache} {reply : Reply}
  {key value : Bytes} {unit : TimeUnit}

lemma duration_lt (n unit : Int) : duration n unit < 2 ^ 63 := by
  unfold duration wrap64
  omega

/-- A `SET` that has been carried out: with a condition, no object is left. -/
lemma setEffect_of_ok {size : RingSize} {w : World} {mode : SetMode} {ttl now : Int}
    (h : (setEffect size now key value ⟨ttl, decide (mode = .nx), decide (mode = .xx)⟩ w).1 = .ok ()) :
    (setEffect size now key value ⟨ttl, decide (mode = .nx), decide (mode = .xx)⟩ w).2 =
      (if mode = .always then w else w.setObj key none).putStr key value ttl now := by
  have hnone (hobj : ¬ (w key).obj.isSome) : w.setObj key none = w :=
    setObj_of_eq (not_isSome_iff_eq_none.1 hobj)
  cases mode <;>
    simp only [setEffect, reduceCtorEq, decide_true, decide_false, Bool.false_eq_true, if_true, if_false, World.set,
      World.setNX, World.setXX, World.cacheSetNX, World.cacheSetXX] at h ⊢ <;>
    split_ifs at h ⊢ <;> cases h <;> simp_all

lemma set_honoured_iff {mode : SetMode} (hE : cfg.engine = L.engine)
    (hrun : (TimedCmd.set key value unit n mode).run cfg now.toInt s = .ok (reply, s'))
    (haccepts : reply.Accepts) :
    (s'.store.live now.toInt key).DueBy (now.toInt + n.toInt * unit.ns) ↔
      (TimedCmd.set key value unit n mode).Due L.size now.toInt (s.store.live now.toInt key) := by
  obtain ⟨hok, hlive⟩ := cmdSet_accepted hE (setOptions_timed unit n mode) hrun haccepts
  rw [hlive, setEffect_of_ok hok, putStr_due (duration_lt _ _) (asks_duration unit n _)]
  cases mode with
  | always => rfl
  | nx | xx => simp [setObj_apply, TimedCmd.Due]

lemma setFor_honoured_iff (command : String) (hE : cfg.engine = L.engine)
    (hrun : cmdSetFor cfg now.toInt command unit.ns [key, formatInt n.toInt, value] s = .ok (reply, s')) :
    (s'.store.live now.toInt key).DueBy (now.toInt + n.toInt * unit.ns) ↔
      (TimedCmd.setFor key value unit n).Due L.size now.toInt (s.store.live now.toInt key) := by
  have hn := parseInt_formatInt n.le_toInt n.toInt_lt
  obtain ⟨store, hset, hlive⟩ :=
    (@Store.set_acts L key value (duration n.toInt unit.ns) now.toInt).run s.store
  have hsto : s'.store = store := by
    simp only [cmdSetFor, withInt, hn, hE] at hrun
    rw [engineCall_bind hset] at hrun
    cases hrun
    rfl
  rw [hsto, hlive]
  unfold World.set
  simp only [TimedCmd.Due]
  by_cases hlarge : Cache.TooLarge L.size key value
  · rw [if_pos hlarge, if_pos hlarge]
    dsimp only
    rw [setStr_key]
    constructor
    · intro h
      refine ⟨fun e he => h.str (.entry e) ?_, h.obj⟩
      rw [he]
      rfl
    · intro h
      refine ⟨fun slot hslot => ?_, h.2⟩
      obtain ⟨hmem, hent⟩ := mem_filter_iff.1 hslot
      cases slot with
      | counter c hc => cases hent
      | entry e => exact h.1 e hmem
  · rw [if_neg hlarge, if_neg hlarge]
    exact putStr_due (duration_lt _ _) (asks_duration unit n _)

lemma readable_of_live {t : Int} {e : Entry} (h : (s.store.live t key).str = some (.entry e)) : Readable key :=
  (Store.lookup_of_live h).2.1

/-- An `Expire` that has been carried out. -/
lemma expire_accepted {apply : StoreM Cache Bool} {opType : OpType} {args : List Bytes} {expireAtNs ttl : Int}
    {now : Int} (happly : apply = Store.expire L.engine key ttl now)
    (hrun : logged .flag (applyReplicationWrite cfg key opType args expireAtNs false (sureApply apply)) s =
      .ok (reply, s')) (haccepts : reply.Accepts) :
    s'.store.live now = ((s.store.live now).expire key ttl now).2 ∧ ((s.store.live now).expire key ttl now).1 = true := by
  obtain ⟨store, hexpire, hlive⟩ := (@Store.expire_acts L key ttl now).run s.store
  have hsure : sureApply apply s.store = .ok (.ok ((s.store.live now).expire key ttl now).1, store) := by
    rw [happly, sureApply, Views.run_bind hexpire]
    rfl
  obtain ⟨hsto, found, hfnd, rfl⟩ := logged_accepted hsure hrun haccepts
  refine ⟨by rw [hsto, hlive], ?_⟩
  rw [Except.ok.inj hfnd]
  cases found with
  | false => exact absurd rfl haccepts
  | true => rfl

lemma expire_honoured_iff (command : String) (opType : OpType) (hE : cfg.engine = L.engine)
    (hrun : cmdExpireFor cfg now.toInt command opType unit.ns [key, formatInt n.toInt] s = .ok (reply, s'))
    (haccepts : reply.Accepts) :
    (s'.store.live now.toInt key).DueBy (now.toInt + n.toInt * unit.ns) ↔
      (TimedCmd.expire key unit n).Due L.size now.toInt (s.store.live now.toInt key) := by
  have hn := parseInt_formatInt n.le_toInt n.toInt_lt
  simp only [cmdExpireFor, withInt, hn] at hrun
  obtain ⟨hlive, htrue⟩ := expire_accepted (L := L) (by rw [hE]) hrun haccepts
  rw [hlive]
  exact expire_due (duration_lt _ _) (asks_duration unit n _) htrue fun _ h => readable_of_live h

lemma expireAt_honoured_iff (hE : cfg.engine = L.engine)
    (hrun : (TimedCmd.expireAt key n).run cfg now.toInt s = .ok (reply, s')) (haccepts : reply.Accepts) :
    (s'.store.live now.toInt key).DueBy (n.toInt * second) ↔
      (TimedCmd.expireAt key n).Due L.size now.toInt (s.store.live now.toInt key) := by
  have hn := parseInt_formatInt n.le_toInt n.toInt_lt
  simp only [TimedCmd.run, TimedCmd.args, cmdExpireAt, withInt, hn] at hrun
  simp only [TimedCmd.Due]
  generalize httl : Store.timeUntil (unixTime n.toInt) now.toInt = ttl
  by_cases hneg : ttl < 0
  · -- both copies go
    obtain ⟨done, store, hexpire, hlive⟩ :=
      @Store.expireAt_acts L key now.toInt (unixTime n.toInt) s.store
    have hsure : sureApply (Store.expireAt cfg.engine key (unixTime n.toInt) now.toInt) s.store = .ok (.ok done, store) := by
      unfold sureApply
      rw [hE, Views.run_bind hexpire]
      rfl
    obtain ⟨hsto, -⟩ := logged_accepted hsure hrun haccepts
    have hkey : store.live now.toInt key = ⟨none, none⟩ := by
      have hworld := congrArg Prod.snd hlive
      dsimp only at hworld
      rw [← hworld, expireAt, httl, if_pos hneg, delKey_apply, if_pos rfl]
    rw [hsto, hkey]
    exact iff_of_true ⟨fun _ h => (by cases h), fun _ h => (by cases h)⟩ (.inl hneg)
  · have hsame : Store.expireAt cfg.engine key (unixTime n.toInt) now.toInt = Store.expire L.engine key ttl now.toInt := by
      rw [hE, Store.expireAt, httl, if_neg hneg]
      rfl
    obtain ⟨hlive, htrue⟩ := expire_accepted hsame hrun haccepts
    have hmax : ttl < 2 ^ 63 := by
      rw [← httl]
      unfold Store.timeUntil
      omega
    rw [hlive, expire_due hmax (asks_left httl.symm) htrue fun _ h => readable_of_live h]
    simp [hneg]

def RestoreDue (key : Bytes) (n ttl now : Int) : Value → Prop
  | .string _ => Readable key → StringDue n ttl now
  | .object _ => ObjectDue n ttl now

lemma restore_due {size : RingSize} {w : World} {v : Value} {ttl d : Int} {m : Int} (hmax : ttl < 2 ^ 63)
    (hasks : Asks m ttl now.toInt d) (hok : (w.restore size key ttl now.toInt v).1 = .ok ()) :
    ((w.restore size key ttl now.toInt v).2 key).DueBy d ↔ RestoreDue key m ttl now.toInt v := by
  cases v with
  | string text =>
    simp only [World.restore, World.set, RestoreDue] at hok ⊢
    split at hok
    · cases hok
    · next hfits =>
      rw [if_neg hfits]
      refine (putStr_due hmax hasks).trans ?_
      simp [World.delKey_apply]
  | object o =>
    simp only [World.restore, RestoreDue]
    have hdue := @freshObject_due d now.toInt ⟨o, objectDeadline ttl now.toInt⟩
    rw [setObj_key, delKey_apply, if_pos rfl, ← (due_iff hmax hasks).2, ← hdue]
    exact ⟨fun h => h.obj, fun h => ⟨fun _ hx => (by cases hx), h⟩⟩

lemma restoredValue_isString {type : UInt8} {valueType : ValueType} {payload : Bytes} {v : Value}
    (htype : typeOfByte type = some valueType) (hval : Store.restoredValue L valueType payload = .ok v) :
    type = 0 ↔ ∃ text, v = .string text := by
  constructor
  · rintro rfl
    cases htype
    cases hval
    exact ⟨payload, rfl⟩
  · rintro ⟨text, rfl⟩
    have hobject {type : ValueType} (h : (L.unmarshal type payload).map Value.object = .ok (.string text)) : False := by
      cases hu : L.unmarshal type payload with
      | error e | ok o =>
        rw [hu] at h
        cases h
    cases valueType with
    | string =>
      unfold typeOfByte at htype
      split at htype <;> first | rfl | cases htype
    | list | set | hash | zset => exact (hobject hval).elim

lemma restore_honoured_iff {serialized : Bytes} (hE : cfg.engine = L.engine) (hpos : 0 < n.toInt)
    (hrun : restore cfg now.toInt key n.toInt serialized s = .ok (reply, s')) (haccepts : reply.Accepts) :
    (s'.store.live now.toInt key).DueBy (now.toInt + n.toInt * millisecond) ↔
      if serialized.head? = some 0 then Readable key → StringDue n.toInt (duration n.toInt millisecond) now.toInt
      else ObjectDue n.toInt (duration n.toInt millisecond) now.toInt := by
  cases serialized with
  | nil =>
    cases hrun
    exact absurd haccepts id
  | cons type payload =>
    unfold restore at hrun
    dsimp only at hrun
    cases htype : typeOfByte type with rw [htype] at hrun
    | none =>
      cases hrun
      exact absurd haccepts id
    | some valueType =>
      dsimp only at hrun
      rw [if_pos hpos, hE] at hrun
      obtain ⟨store, hrestore, hlive⟩ := (@Store.restoreEntry_acts L key
        (duration n.toInt millisecond) now.toInt valueType payload).run s.store
      rw [engineCall_bind hrestore] at hrun
      cases hval : Store.restoredValue L valueType payload with
      | error text =>
        rw [hval] at hrun
        cases hrun
        exact absurd haccepts id
      | ok v =>
        rw [hval] at hrun hlive
        cases hok : ((s.store.live now.toInt).restore L.size key (duration n.toInt millisecond) now.toInt v).1 with
        | error e =>
          rw [hok] at hrun
          cases hrun
          exact absurd haccepts id
        | ok u =>
          rw [hok] at hrun
          cases hrun
          have hdue := restore_due (duration_lt _ _) (asks_duration .milliseconds n _) hok
          have hstring := restoredValue_isString htype hval
          rw [hlive]
          refine hdue.trans ?_
          cases v with
          | string text =>
            have hhead : (type :: payload).head? = some 0 := congrArg some (hstring.2 ⟨text, rfl⟩)
            rw [if_pos hhead]
            rfl
          | object o =>
            have hhead : ¬ (type :: payload).head? = some 0 := fun h => by
              obtain ⟨text, htext⟩ := hstring.1 (some.inj h)
              cases htext
            rw [if_neg hhead]
            rfl

/-- Without `REPLACE` the handler looks first whether the key is there. -/
lemma cmdRestore_honoured_iff {serialized : Bytes} {replace : Bool} (hE : cfg.engine = L.engine) (hpos : 0 < n.toInt)
    (hrun : (TimedCmd.restore key n serialized replace hpos).run cfg now.toInt s = .ok (reply, s'))
    (haccepts : reply.Accepts) :
    (s'.store.live now.toInt key).DueBy (now.toInt + n.toInt * millisecond) ↔
      (TimedCmd.restore key n serialized replace hpos).Due L.size now.toInt (s.store.live now.toInt key) := by
  have hn := parseInt_formatInt n.le_toInt n.toInt_lt
  simp only [TimedCmd.run, TimedCmd.args, List.cons_append, List.nil_append, cmdRestore, hn] at hrun
  cases replace with
  | true =>
    exact restore_honoured_iff hE hpos hrun haccepts
  | false =>
    have hword : hasOption "REPLACE" [] = false := rfl
    obtain ⟨store, hexists, hlive⟩ := (@Store.existsKeys_acts L now.toInt [key]).run s.store
    simp only [Bool.false_eq_true, if_false, hword, hE] at hrun
    rw [engineCall_bind hexists] at hrun
    split at hrun
    · cases hrun
      exact absurd haccepts id
    · exact restore_honoured_iff hE hpos hrun haccepts

end Commands

/-- `SET k v EX n` on an empty node, at the moment zero. -/
def setTimed (n : Int64) : TimedCmd := .set [107] [118] .seconds n .always

lemma setTimed_run (n : Int64) : ∃ s', (setTimed n).run plainNode (0 : Int64).toInt ⟨⟨∅, ∅, ∅⟩, none⟩ = .ok (.ok, s') := by
  obtain ⟨s', hrun, -⟩ := @cmdSet_run plainNode 0 plainLogical rfl [107] [118] _ _
    (setOptions_timed .seconds n .always) (by simp) ⟨∅, ∅, ∅⟩
  exact ⟨_, hrun⟩

end Protocol

end AutoCache
