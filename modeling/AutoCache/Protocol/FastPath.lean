import AutoCache.Protocol.Dispatch
import AutoCache.Store.Calls
import AutoCache.Store.Ops

/-!
# The fast path against the registered handlers

Outside a cluster `PING`, `SET`, `GET` and `INCR` are answered by the fast path and never reach
their handlers. The two agree on `PING` and `INCR`; `GET` differs on a key that holds a collection;
`SET` differs as soon as an option would have made a difference, for the fast path reads none.
-/

namespace AutoCache.Protocol

open AutoCache.Ring Cluster Replication Store List

/-- Two handlers write the same reply and leave the same logical state behind. -/
def SameOutcome (t : Int) (x y : HandlerM Cache Reply) (s : Server Cache) : Prop :=
  ∃ reply s₁ s₂, x s = .ok (reply, s₁) ∧ y s = .ok (reply, s₂) ∧
    Store.SameState t s₁.store s₂.store

lemma SameOutcome.refl {t : Int} {x : HandlerM Cache Reply} {s : Server Cache} {reply : Reply}
    {s' : Server Cache} (h : x s = .ok (reply, s')) : SameOutcome t x x s :=
  ⟨reply, s', s', h, h, fun _ => rfl⟩

/-! ## Names -/

lemma isLetter_iff {u c : UInt8} (hl : 65 ≤ u) (hr : u ≤ 90) : isLetter u c = true ↔ upperByte c = u := by
  simp only [isLetter, upperByte, Bool.or_eq_true, decide_eq_true_eq, UInt8.le_iff_toNat_le,
    ← UInt8.toNat_inj, UInt8.reduceToNat] at *
  constructor
  · rintro (h | h)
    · rw [if_neg (by omega)]
      exact h
    · have hc : c.toNat = u.toNat + 32 := by
        rw [h, UInt8.toNat_add]
        simp only [UInt8.reduceToNat]
        omega
      rw [if_pos (by omega), UInt8.toNat_sub_of_le _ _ (by rw [UInt8.le_iff_toNat_le]; simp; omega)]
      simp only [UInt8.reduceToNat]
      omega
  · split
    · rename_i hc
      intro h
      right
      rw [UInt8.toNat_sub_of_le _ _ (by rw [UInt8.le_iff_toNat_le]; simp; omega)] at h
      simp only [UInt8.reduceToNat] at h
      rw [UInt8.toNat_add]
      simp only [UInt8.reduceToNat]
      omega
    · intro h
      exact Or.inl h

def fastCommands : List Command := [.ping, .set, .get, .incr]

def fastHandler (cfg : NodeConfig Cache) (now : Int) : Command → List Bytes → HandlerM Cache Reply
  | .ping => fastPing
  | .set => fastSet cfg now
  | .get => fastGet cfg now
  | .incr => fastIncr cfg now
  | c => c.run cfg now

variable {cfg : NodeConfig Cache} {now : Int}

/-- **Every spelling of the four names takes the fast path.** -/
lemma fastPath_of_name {c : Command} {cmdBytes : Bytes} (hc : c ∈ fastCommands) (h : toUpper cmdBytes = ascii c.name) :
    fastPath cfg now cmdBytes = some (fastHandler cfg now c) := by
  simp only [fastCommands, mem_cons, not_mem_nil, or_false] at hc
  have hping : ascii Command.ping.name = [80, 73, 78, 71] := by decide
  have hset : ascii Command.set.name = [83, 69, 84] := by decide
  have hget : ascii Command.get.name = [71, 69, 84] := by decide
  have hincr : ascii Command.incr.name = [73, 78, 67, 82] := by decide
  have letter {u c : UInt8} (hl : 65 ≤ u) (hr : u ≤ 90) (h : upperByte c = u) :
      isLetter u c = true := (isLetter_iff hl hr).2 h
  have other {u v c : UInt8} (hl : 65 ≤ u) (hr : u ≤ 90) (hv : v ≠ u) (h : upperByte c = v) : isLetter u c = false := by
    rw [Bool.eq_false_iff, ne_eq, isLetter_iff hl hr, h]
    exact hv
  rcases hc with rfl | rfl | rfl | rfl
  · rw [hping] at h
    simp only [toUpper, map_eq_cons_iff, map_eq_nil_iff] at h
    obtain ⟨a, _, rfl, ha, b, _, rfl, hb, c, _, rfl, hc, d, _, rfl, hd, rfl⟩ := h
    simp [fastPath, letter (by decide) (by decide) ha, letter (by decide) (by decide) hb,
      letter (by decide) (by decide) hc, letter (by decide) (by decide) hd, fastHandler]
  · rw [hset] at h
    simp only [toUpper, map_eq_cons_iff, map_eq_nil_iff] at h
    obtain ⟨a, _, rfl, ha, b, _, rfl, hb, c, _, rfl, hc, rfl⟩ := h
    simp [fastPath, letter (by decide) (by decide) ha, letter (by decide) (by decide) hb,
      letter (by decide) (by decide) hc, fastHandler]
  · rw [hget] at h
    simp only [toUpper, map_eq_cons_iff, map_eq_nil_iff] at h
    obtain ⟨a, _, rfl, ha, b, _, rfl, hb, c, _, rfl, hc, rfl⟩ := h
    simp [fastPath, letter (by decide) (by decide) ha, letter (by decide) (by decide) hb,
      letter (by decide) (by decide) hc, fastHandler,
      other (u := 83) (by decide) (by decide) (by decide) ha]
  · rw [hincr] at h
    simp only [toUpper, map_eq_cons_iff, map_eq_nil_iff] at h
    obtain ⟨a, _, rfl, ha, b, _, rfl, hb, c, _, rfl, hc, d, _, rfl, hd, rfl⟩ := h
    simp [fastPath, letter (by decide) (by decide) ha, letter (by decide) (by decide) hb,
      letter (by decide) (by decide) hc, letter (by decide) (by decide) hd, fastHandler,
      other (u := 80) (by decide) (by decide) (by decide) ha]

/-! ## The handlers on worlds -/

def SameContent (w w' : World) : Prop := ∀ key, (w key).content = (w' key).content

lemma sameOutcome_iff {x y : HandlerM Cache Reply} {s s₁ s₂ : Server Cache} {r₁ r₂ : Reply}
    {t : Int} (hx : x s = .ok (r₁, s₁)) (hy : y s = .ok (r₂, s₂)) :
    SameOutcome t x y s ↔ r₁ = r₂ ∧ SameContent (s₁.store.live t) (s₂.store.live t) := by
  constructor
  · rintro ⟨reply, s₁', s₂', hx', hy', hsame⟩
    rw [hx] at hx'
    rw [hy] at hy'
    cases hx'
    cases hy'
    exact ⟨rfl, hsame⟩
  · rintro ⟨rfl, hsame⟩
    exact ⟨r₁, s₁, s₂, hx, hy, hsame⟩

/-- What a conditional write means to its callback. -/
def conditionalResult : Except StoreError Bool → Except ApplyError Unit
  | .error e => .error (.store e)
  | .ok false => .error .noop
  | .ok true => .ok ()

lemma conditional_acts {x : StoreM Cache (Except StoreError Bool)}
    {f : World → Except StoreError Bool × World} (hx : Acts now id x f) :
    Acts now id (conditional x) fun w => (conditionalResult (f w).1, (f w).2) := by
  refine Acts.bind (g := fun r w => (conditionalResult r, w)) hx fun r => ?_
  rcases r with e | _ | _ <;> exact Acts.pure _

lemma engineApply_acts {α : Type} {x : StoreM Cache (Except StoreError α)}
    {f : World → Except StoreError α × World} (hx : Acts now id x f) :
    Acts now id (engineApply x) fun w => ((f w).1.mapError .store, (f w).2) :=
  Acts.bind (g := fun r w => (r.mapError ApplyError.store, w)) hx fun r =>
    Acts.pure (r.mapError ApplyError.store)

/-- The callback of `SET` on worlds. -/
def setEffect (size : RingSize) (now : Int) (key value : Bytes) (opts : SetOptions) (w : World) :
    Except ApplyError Unit × World :=
  if opts.nx then
    (conditionalResult (w.setNX size key value opts.ttl now).1,
      (w.setNX size key value opts.ttl now).2)
  else if opts.xx then
    (conditionalResult (w.setXX size key value opts.ttl now).1,
      (w.setXX size key value opts.ttl now).2)
  else
    ((w.set size key value opts.ttl now).1.mapError .store, (w.set size key value opts.ttl now).2)

variable {L : LogicalConfig}

lemma setApply_acts (hE : cfg.engine = L.engine) {key value : Bytes} {opts : SetOptions} :
    Acts now id (setApply cfg now key value opts) (setEffect L.size now key value opts) := by
  unfold setApply setEffect
  rw [hE]
  by_cases hnx : opts.nx = true
  · simp only [hnx, if_true]
    exact conditional_acts setNX_acts
  · by_cases hxx : opts.xx = true
    · simp only [hnx, hxx, if_true]
      exact conditional_acts setXX_acts
    · simp only [hnx, hxx]
      exact engineApply_acts set_acts

def fastSetReply : Except StoreError Unit → Reply
  | .error e => .error ("ERR " ++ errorText e)
  | .ok () => .ok

lemma fastSet_run (hE : cfg.engine = L.engine) (key value : Bytes) (options : List Bytes) (s : Store Cache) :
    ∃ s', fastSet cfg now (key :: value :: options) ⟨s, none⟩ =
        .ok (fastSetReply ((s.live now).set L.size key value 0 now).1, ⟨s', none⟩) ∧
      s'.live now = ((s.live now).set L.size key value 0 now).2 := by
  obtain ⟨s', hs, hw⟩ := (@set_acts L key value 0 now).run s
  refine ⟨s', ?_, hw⟩
  unfold fastSet
  rw [hE]
  dsimp only
  rw [engineCall_bind hs]
  cases ((s.live now).set L.size key value 0 now).1 <;> rfl

lemma applyReplicationWrite_alone {α : Type} {key : Bytes} {opType : OpType} {args : List Bytes}
    {expireAtNs : Int} {zero : α} {apply : StoreM Cache (Except ApplyError α)} {s s' : Store Cache}
    {r : Except ApplyError α} (h : apply s = .ok (r, s')) :
    applyReplicationWrite cfg key opType args expireAtNs zero apply ⟨s, none⟩ = .ok (r.mapError .apply, ⟨s', none⟩) := by
  simp only [applyReplicationWrite, h]
  rfl

lemma cmdSet_run (hE : cfg.engine = L.engine) {key value : Bytes} {options : List Bytes}
    {opts : SetOptions} (hopts : setOptions options {} = .ok opts) (hboth : ¬ (opts.nx ∧ opts.xx))
    (s : Store Cache) :
    ∃ s', cmdSet cfg now (key :: value :: options) ⟨s, none⟩ =
        .ok (setReply ((setEffect L.size now key value opts (s.live now)).1.mapError .apply), ⟨s', none⟩) ∧
      s'.live now = (setEffect L.size now key value opts (s.live now)).2 := by
  obtain ⟨s', hs, hw⟩ := (@setApply_acts cfg now L hE key value opts).run s
  refine ⟨s', ?_, hw⟩
  simp only [cmdSet, hopts, hboth, if_false]
  change (applyReplicationWrite cfg key .set _ _ () _ ⟨s, none⟩ >>= _) = _
  rw [applyReplicationWrite_alone hs]
  rfl

/-! ## Agreement -/

/-- When a `SET` without conditions does the same with a time to live as without. -/
def NoDeadline (size : RingSize) (now : Int) (key value : Bytes) (ttl : Int) : Prop :=
  Cache.TooLarge size key value ∨ ¬ Readable key ∨ deadline ttl now = 0

/-- **When the fast path agrees with the handler**, in terms of the live copies of the key:
* `GET`: the key holds a string, or nothing;
* `SET`: the options parse, and they ask for no deadline that a read could see;
* with `NX`: moreover the key is free, of an object too, and a value that is too large does not
  meet a counter;
* with `XX`: moreover the key holds an entry, and no object hides behind it. -/
def FastAgrees (size : RingSize) (now : Int) (w : World) : Command → List Bytes → Prop
  | .get, [key] => (w key).str.isSome ∨ (w key).obj = none
  | .set, key :: value :: options =>
    match setOptions options {} with
    | .error _ => False
    | .ok opts =>
      if opts.nx then
        ¬ opts.xx ∧ (w key).obj = none ∧ holdsNX now (w key).str = false ∧
          (Cache.TooLarge size key value → ∀ slot ∈ (w key).str, slot.isCounter = false) ∧
          NoDeadline size now key value opts.ttl
      else if opts.xx then
        (w key).obj = none ∧ holdsXX (w key).str = true ∧ NoDeadline size now key value opts.ttl
      else NoDeadline size now key value opts.ttl
  | _, _ => True

section Content

variable {w : World} {key value : Bytes} {ttl : Int} {size : RingSize}

lemma SameContent.refl (w : World) : SameContent w w := fun _ => rfl

lemma sameContent_setStr_iff {str str' : Option Slot} : SameContent (w.setStr key str) (w.setStr key str') ↔
      str.map (fun slot => (slot.text, slot.deadline)) = str'.map fun slot => (slot.text, slot.deadline) := by
  constructor
  · intro h
    have hk := h key
    simp only [World.setStr_apply, if_true, KeyState.content, Prod.mk.injEq] at hk
    exact hk.1
  · intro h k
    simp only [World.setStr_apply]
    split
    · simp only [KeyState.content, h]
    · rfl

lemma sameContent_dropCounter_iff : SameContent (w.setStr key ((w key).str.filter (!·.isCounter))) w ↔
      ∀ slot ∈ (w key).str, slot.isCounter = false := by
  have h := @sameContent_setStr_iff w key ((w key).str.filter (!·.isCounter)) (w key).str
  rw [World.setStr_self] at h
  rw [h]
  cases (w key).str with
  | none => simp
  | some slot => cases hc : slot.isCounter <;> simp [hc]

lemma sameContent_putStr_iff : SameContent (w.putStr key value 0 now) (w.putStr key value ttl now) ↔
      ¬ Readable key ∨ deadline ttl now = 0 := by
  unfold World.putStr
  rw [sameContent_setStr_iff, freshSlot_written_zero, freshSlot_entry]
  by_cases hr : Readable key
  · by_cases hd : deadline ttl now = 0
    · have heq : writtenEntry value ttl now = writtenEntry value 0 now := by
        simp [writtenEntry, hd, deadline_zero]
      have hexp : ¬ (writtenEntry value 0 now).expired now := fun h => by
        have := h.1
        simp [writtenEntry, deadline_zero] at this
      simp [hr, hd, heq, hexp]
    · have hne : (deadline ttl now).toInt ≠ 0 := fun h => hd (Int64.toInt_inj.1 h)
      simp only [hr, if_true, true_and, not_true_eq_false, hd, or_self, iff_false]
      split
      · intro h
        simp only [Option.map_some, Slot.deadline, writtenEntry, deadline_zero, Slot.text,
          Option.some.injEq, Prod.mk.injEq, true_and] at h
        exact hne h.symm
      · simp
  · simp [hr]

lemma set_obj (k : Bytes) : ((w.set size key value ttl now).2 k).obj = (w k).obj := by
  unfold World.set World.putStr
  split <;> · simp only [World.setStr_apply]; split <;> simp [*]

lemma fastSetReply_ne_null (r : Except StoreError Unit) : fastSetReply r ≠ .null := by
  cases r <;> simp [fastSetReply, Reply.ok]

/-- The outcome of `SET` with the options `opts` is that of the fast path. -/
def SameSet (size : RingSize) (now : Int) (key value : Bytes) (opts : SetOptions) (w : World) :
    Prop :=
  fastSetReply (w.set size key value 0 now).1 =
      setReply ((setEffect size now key value opts w).1.mapError .apply) ∧
    SameContent (w.set size key value 0 now).2 (setEffect size now key value opts w).2

lemma sameSet_plain {opts : SetOptions} (hnx : opts.nx = false) (hxx : opts.xx = false) :
    SameSet size now key value opts w ↔ NoDeadline size now key value opts.ttl := by
  simp only [SameSet, setEffect, hnx, hxx, Bool.false_eq_true, if_false, World.set, NoDeadline]
  by_cases hl : Cache.TooLarge size key value
  · simp only [hl, if_true, true_or, iff_true]
    exact ⟨rfl, SameContent.refl _⟩
  · simp only [hl, if_false, false_or, ← @sameContent_putStr_iff now w key value opts.ttl]
    exact ⟨fun h => h.2, fun h => ⟨rfl, h⟩⟩

lemma not_sameSet_of_refused {opts : SetOptions} (h : (setEffect size now key value opts w).1 = .error .noop) :
    ¬ SameSet size now key value opts w := by
  rintro ⟨hreply, -⟩
  rw [h] at hreply
  exact fastSetReply_ne_null _ hreply

lemma sameSet_nx {opts : SetOptions} (hnx : opts.nx = true) : SameSet size now key value opts w ↔
      (w key).obj = none ∧ holdsNX now (w key).str = false ∧
        (Cache.TooLarge size key value → ∀ slot ∈ (w key).str, slot.isCounter = false) ∧
        NoDeadline size now key value opts.ttl := by
  cases ho : (w key).obj with
  | some o =>
    simp only [reduceCtorEq, false_and, iff_false]
    apply not_sameSet_of_refused
    simp [setEffect, hnx, World.setNX, ho, conditionalResult]
  | none =>
    cases hh : holdsNX now (w key).str with
    | true =>
      simp only [Bool.true_eq_false, false_and, and_false, iff_false]
      apply not_sameSet_of_refused
      simp [setEffect, hnx, World.setNX, ho, World.cacheSetNX, hh, conditionalResult]
    | false =>
      simp only [SameSet, setEffect, hnx, if_true, World.setNX, ho, Option.isSome_none,
        Bool.false_eq_true, if_false, World.cacheSetNX, hh, World.set, true_and, NoDeadline]
      by_cases hl : Cache.TooLarge size key value
      · -- both fail; the fast path has removed a counter
        simp only [hl, if_true, true_or, and_true, forall_const]
        rw [sameContent_dropCounter_iff]
        exact ⟨fun h => h.2, fun h => ⟨rfl, h⟩⟩
      · simp only [hl, if_false, false_or, false_implies, true_and, ← @sameContent_putStr_iff now w key value opts.ttl]
        exact ⟨fun h => h.2, fun h => ⟨rfl, h⟩⟩

lemma sameSet_xx {opts : SetOptions} (hnx : opts.nx = false) (hxx : opts.xx = true) :
    SameSet size now key value opts w ↔ (w key).obj = none ∧ holdsXX (w key).str = true ∧
        NoDeadline size now key value opts.ttl := by
  cases ho : (w key).obj with
  | some o =>
    -- the handler removes the object, the fast path leaves it
    simp only [reduceCtorEq, false_and, iff_false]
    rintro ⟨-, hsame⟩
    have hk := congrArg Prod.snd (hsame key)
    simp only [KeyState.content, set_obj, setEffect, hnx, hxx, World.setXX, ho, Option.isSome_some,
      if_true, Bool.false_eq_true, if_false, World.setObj_apply, reduceCtorEq] at hk
  | none =>
    cases hh : holdsXX (w key).str with
    | false =>
      simp only [Bool.false_eq_true, false_and, and_false, iff_false]
      apply not_sameSet_of_refused
      simp [setEffect, hnx, hxx, World.setXX, ho, World.cacheSetXX, hh, conditionalResult]
    | true =>
      simp only [SameSet, setEffect, hnx, hxx, if_true, World.setXX, ho, Option.isSome_none,
        Bool.false_eq_true, if_false, World.cacheSetXX, hh, World.set, true_and, NoDeadline]
      by_cases hl : Cache.TooLarge size key value
      · simp only [hl, if_true, true_or, iff_true]
        refine ⟨rfl, ?_⟩
        have hkeep : ∀ slot ∈ (w key).str, slot.isCounter = false := by
          intro slot hslot
          rw [Option.mem_def.1 hslot] at hh
          cases slot
          · simp [holdsXX] at hh
          · rfl
        exact sameContent_dropCounter_iff.2 hkeep
      · simp only [hl, if_false, false_or, ← @sameContent_putStr_iff now w key value opts.ttl]
        exact ⟨fun h => h.2, fun h => ⟨rfl, h⟩⟩

end Content

/-! ## The four commands -/

lemma incr_error {E : Engine Cache} {key : Bytes} {s s' : Store Cache} {e : StoreError}
    (h : Store.incr E key now s = .ok (.error e, s')) : e = .notInteger := by
  obtain ⟨⟨outcome, s''⟩, -, h⟩ := Go.bind_eq_ok.1 h
  cases outcome <;> cases h
  rfl

lemma incr_returns (key : Bytes) (s : Store Cache) : ∃ r s', Store.incr L.engine key now s = .ok (r, s') := by
  obtain ⟨⟨c, outcome⟩, hc⟩ : ∃ p, Cache.incrBy s.shards key 1 now = p := ⟨_, rfl⟩
  have hshards : onShards (fun c => L.engine.incrBy c key 1 now) s = .ok (outcome, { s with shards := c }) := by
    change Except.ok ((Cache.incrBy s.shards key 1 now).2,
      ({ s with shards := (Cache.incrBy s.shards key 1 now).1 } : Store Cache)) = _
    rw [hc]
  unfold incr incrBy cacheIncrBy
  rw [bind_assoc, Views.run_bind hshards]
  cases outcome with
  | created n =>
    obtain ⟨s', hs, -⟩ := (@trackKey_acts L key now).run { s with shards := c }
    rw [bind_assoc, Views.run_bind hs]
    exact ⟨_, _, rfl⟩
  | updated n | notInteger => exact ⟨_, _, rfl⟩

open SameOutcome

lemma incr_agrees (hE : cfg.engine = L.engine) (args : List Bytes) (s : Store Cache) :
    SameOutcome now (fastIncr cfg now args) (cmdIncr cfg now args) ⟨s, none⟩ := by
  match args with
  | [] => exact refl rfl
  | _ :: _ :: _ => exact refl rfl
  | [key] =>
    obtain ⟨r, s', hs⟩ := @incr_returns now L key s
    rw [← hE] at hs
    have hreg : cmdIncr cfg now [key] ⟨s, none⟩ = .ok (callReply .int r, ⟨s', none⟩) := call_run hs
    have hfast : fastIncr cfg now [key] ⟨s, none⟩ = .ok (callReply .int r, ⟨s', none⟩) := by
      unfold fastIncr
      dsimp only
      rw [engineCall_bind hs]
      cases r with
      | ok n => rfl
      | error e =>
        rw [incr_error hs]
        rfl
    exact ⟨_, _, _, hfast, hreg, fun _ => rfl⟩

lemma setOptions_error {options : List Bytes} {opts : SetOptions} {reply : Reply}
    (h : setOptions options opts = .error reply) :
    reply = .error "ERR syntax error" ∨ reply = .notInteger := by
  fun_induction setOptions options opts <;> simp_all

lemma fastSetReply_set_ne {w : World} {key value : Bytes} {text : String} (h : text ≠ "ERR entry too large for buffer") :
    fastSetReply (w.set L.size key value 0 now).1 ≠ .error text := by
  unfold World.set
  split
  · intro heq
    simp only [fastSetReply, World.tooLarge, errorText, Reply.error.injEq] at heq
    exact h heq.symm
  · simp [fastSetReply, Reply.ok]

lemma executeBytes_fast {c : Command} (hc : c ∈ fastCommands) {cmdBytes : Bytes}
    (hname : toUpper cmdBytes = ascii c.name) (args : List Bytes) (askingFlag : Bool)
    (s : Store Cache) :
    executeBytes cfg now cmdBytes args askingFlag ⟨s, none⟩ = fastHandler cfg now c args ⟨s, none⟩ := by
  simp [executeBytes, fastPath_of_name hc hname]

lemma get_agrees_iff (hE : cfg.engine = L.engine) (args : List Bytes) (s : Store Cache) :
    SameOutcome now (fastGet cfg now args) (cmdGet cfg now args) ⟨s, none⟩ ↔
      FastAgrees L.size now (s.live now) .get args := by
  match args with
  | [] => exact iff_of_true (refl rfl) trivial
  | _ :: _ :: _ => exact iff_of_true (refl rfl) trivial
  | [key] =>
    obtain ⟨s', hs, -⟩ := (@get_acts L key now).run s
    rw [← hE] at hs
    have hreg : cmdGet cfg now [key] ⟨s, none⟩ = .ok (callReply .bulk ((s.live now).get key), ⟨s', none⟩) := call_run hs
    have hfast : fastGet cfg now [key] ⟨s, none⟩ = .ok (((s.live now).get key).toOption.elim .null .bulk, ⟨s', none⟩) := by
      unfold fastGet
      dsimp only
      rw [engineCall_bind hs]
      cases (s.live now).get key <;> rfl
    rw [sameOutcome_iff hfast hreg]
    simp only [World.get, FastAgrees]
    cases (s.live now key).str with
    | some slot => simp [callReply, SameContent.refl, Except.toOption]
    | none =>
      cases (s.live now key).obj with
      | some o => simp [callReply, writeDataError, Reply.wrongType, Except.toOption]
      | none => simp [callReply, writeDataError, SameContent.refl, Except.toOption]

lemma set_agrees_iff (hE : cfg.engine = L.engine) (args : List Bytes) (s : Store Cache) :
    SameOutcome now (fastSet cfg now args) (cmdSet cfg now args) ⟨s, none⟩ ↔
      FastAgrees L.size now (s.live now) .set args := by
  induction args using twoStepInduction with
  | nil => exact iff_of_true (refl rfl) trivial
  | singleton => exact iff_of_true (refl rfl) trivial
  | cons_cons key value options =>
    obtain ⟨s₁, hfast, hw₁⟩ := @fastSet_run cfg now L hE key value options s
    unfold FastAgrees
    dsimp only
    cases hopts : setOptions options {} with
    | error reply =>
      -- the fast path does not see that the options are wrong
      have hreg : cmdSet cfg now (key :: value :: options) ⟨s, none⟩ = .ok (reply, ⟨s, none⟩) := by
        simp only [cmdSet, hopts]
        rfl
      rw [sameOutcome_iff hfast hreg, iff_false]
      rintro ⟨hreply, -⟩
      rcases setOptions_error hopts with rfl | rfl
      · exact fastSetReply_set_ne (by decide) hreply
      · exact fastSetReply_set_ne (by decide) hreply
    | ok opts =>
      dsimp only
      by_cases hboth : opts.nx ∧ opts.xx
      · have hreg : cmdSet cfg now (key :: value :: options) ⟨s, none⟩ =
            .ok (.error "ERR XX and NX options at the same time are not compatible", ⟨s, none⟩) := by
          simp only [cmdSet, hopts, hboth, and_self, if_true]
          rfl
        rw [sameOutcome_iff hfast hreg]
        simp only [hboth.1, hboth.2, if_true, not_true_eq_false, false_and, iff_false]
        rintro ⟨hreply, -⟩
        exact fastSetReply_set_ne (by decide) hreply
      · obtain ⟨s₂, hreg, hw₂⟩ := @cmdSet_run cfg now L hE key value options opts hopts hboth s
        rw [sameOutcome_iff hfast hreg, hw₁, hw₂]
        change SameSet L.size now key value opts (s.live now) ↔ _
        cases hnx : opts.nx with
        | true =>
          have hxx : opts.xx = false := by simpa [hnx] using hboth
          rw [sameSet_nx hnx]
          simp [hxx]
        | false =>
          cases hxx : opts.xx with
          | true => rw [sameSet_xx hnx hxx]; simp
          | false => rw [sameSet_plain hnx hxx]; simp

end AutoCache.Protocol
