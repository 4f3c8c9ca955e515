import AutoCache.Lib.Hoare
import AutoCache.Protocol.Reachability

/-!
# Commands on several keys (`internal/protocol/{handler,crossslot}.go`)

A command on one key is routed by `Route` with the flag of its connection, a command on several keys
by `RouteMulti`, which compares the slots and then asks `Route` without the flag. What a client sees
of the decision is the reply: `CROSSSLOT`, `MOVED` or `ASK`, and anything else for a command that is
served here. The handlers behind the router never answer with one of the three themselves, so the
replies tell the decisions apart.
-/

namespace AutoCache.Protocol

open Cluster Replication Hoare Reply View String

variable {σ : Type}

def crossSlotReply : Reply := .error "CROSSSLOT Keys in request don't hash to the same slot"

def Answers (outcome : Go (Reply × Server σ)) (reply : Reply) : Prop :=
  ∃ s', outcome = .ok (reply, s')

/-- The reply tells of the decision to send the client elsewhere, or of none. -/
def Shows (outcome : Go (Reply × Server σ)) : RouteResult → Prop
  | .crossSlot => Answers outcome crossSlotReply
  | .redirect r => Answers outcome (redirectReply r)
  | .here => ∀ r, ¬ Answers outcome (redirectReply r)

def CrossesSlots (v : View) (keys : List Bytes) : Prop :=
  ∃ k₁ ∈ keys, ∃ k₂ ∈ keys, v.keySlot k₁ ≠ v.keySlot k₂

/-- **Several keys are routed as each of them is**, as far as the reply of `ExecuteBytes` tells. -/
def RoutesAsEach (cfg : NodeConfig σ) (now : Int) (cmdBytes : Bytes) (keys args : List Bytes)
    (askingFlag : Bool) (m : Manager) (s : Server σ) : Prop :=
  (Answers (executeBytes cfg now cmdBytes args askingFlag s) crossSlotReply ↔
    CrossesSlots cfg.view keys) ∧
  (¬ CrossesSlots cfg.view keys → ∀ key ∈ keys,
    Shows (executeBytes cfg now cmdBytes args askingFlag s)
      (cfg.view.route m.slots key askingFlag))

/-- The slot belongs to another node whose address is known, and this node imports it. -/
def ImportsForeign (v : View) (m : Manager) (slot : UInt16) : Prop :=
  let info := m.slots.slots slot
  info.nodeID ≠ "" ∧ info.nodeID ≠ v.selfID ∧ (v.nodeAddr info.nodeID).isSome ∧
    info.state = .importing ∧ info.importing ≠ ""

/-! ## Replies of the handlers -/

/-- A reply that no routing decision gives: its text starts otherwise. -/
def Reply.FromHandler : Reply → Prop
  | .error text => text.toList.head? = some 'E' ∨ text.toList.head? = some 'W' ∨
      text.toList.head? = some 'R'
  | _ => True

lemma not_fromHandler_redirect (r : Redirect) : ¬ (redirectReply r).FromHandler := by
  cases r with
  | moved slot addr | ask slot addr => simp [redirectReply, FromHandler, toList_append]

lemma fromHandler_err (text : String) : (error ("ERR " ++ text)).FromHandler := by
  simp [FromHandler, toList_append]

lemma fromHandler_wrongArity (command : String) : (wrongArity command).FromHandler := by
  simp [wrongArity, FromHandler, toList_append]

lemma fromHandler_writeDataError (err : WriteError ApplyError) : (writeDataError err).FromHandler := by
  unfold writeDataError
  split
  · simp [wrongType, FromHandler]
  · trivial
  · exact fromHandler_err _

/-- Every reply of the handler is one of its own. -/
def Own (h : HandlerM σ Reply) : Prop := Triple (fun _ => True) h fun reply _ => reply.FromHandler

namespace Own

lemma pure {reply : Reply} (h : reply.FromHandler) : Own (Pure.pure reply : HandlerM σ Reply) :=
  Triple.pure fun _ _ => h

lemma bind {α : Type} {x : HandlerM σ α} {f : α → HandlerM σ Reply} (h : ∀ a, Own (f a)) : Own (x >>= f) :=
  Triple.bind (Q := fun _ _ => True) (fun _ _ _ _ _ => trivial) h

lemma logged {α : Type} {reply : α → Reply} (x : HandlerM σ (Except (WriteError ApplyError) α))
    (h : ∀ a, (reply a).FromHandler) : Own (logged reply x) := by
  refine bind fun result => ?_
  cases result with
  | ok a => exact pure (h a)
  | error err => exact pure (fromHandler_writeDataError err)

end Own

variable (cfg : NodeConfig σ) (now : Int)

lemma own_run_of_multiKeys {c : Command} (hc : c.multiKeys?.isSome) (args : List Bytes) : Own (c.run cfg now args) := by
  cases c with
  | mGet =>
    change Own (cmdMGet cfg now args)
    unfold cmdMGet
    split
    · exact .pure (fromHandler_wrongArity _)
    · exact .bind fun values => .pure trivial
  | mSet =>
    change Own (cmdMSet cfg now args)
    unfold cmdMSet
    split
    · exact .pure (fromHandler_wrongArity _)
    · exact .logged _ fun _ => trivial
  | del =>
    change Own (cmdDel cfg args)
    cases args with
    | nil => exact .pure (fromHandler_wrongArity _)
    | cons key keys => exact .logged _ fun _ => trivial
  | existsKeys =>
    change Own (cmdExists cfg now args)
    unfold cmdExists
    split
    · exact .pure (fromHandler_wrongArity _)
    · exact .bind fun count => .pure trivial
  | rename =>
    change Own (cmdRename cfg now args)
    unfold cmdRename
    split
    · refine .bind fun result => ?_
      cases result with
      | ok _ => exact .pure trivial
      | error err => exact .pure (fromHandler_err _)
    · exact .pure (fromHandler_wrongArity _)
  | _ => cases hc

/-! ## The decision -/

variable {cfg now} {cmdBytes : Bytes} {args : List Bytes} {askingFlag : Bool} {m : Manager}
  {s : Server σ} {c : Command}

section

variable (hm : s.manager = some m) (hname : Command.ofName (toUpper cmdBytes) = some c) (hc : c.multiKeys?.isSome)
include hm hname hc

lemma fromHandler_of_here (hrt : routeKeys cfg m askingFlag (c.routedKeys args) = .here)
    {reply : Reply} (h : Answers (executeBytes cfg now cmdBytes args askingFlag s) reply) :
    reply.FromHandler := by
  obtain ⟨s', hs'⟩ := h
  rw [executeBytes_cluster hm hname] at hs'
  simp only [refusal, hrt] at hs'
  by_cases hwr : c ∈ Command.writeCommands ∧ ¬ acceptsWrite cfg m (c.routedKeys args)
  · rw [if_pos hwr] at hs'
    cases hs'
    simp [FromHandler]
  · rw [if_neg hwr] at hs'
    exact own_run_of_multiKeys cfg now hc args s _ s' trivial hs'

/-- **The reply shows the decision**, for the commands with extracted keys. -/
lemma shows_executeBytes : Shows (executeBytes cfg now cmdBytes args askingFlag s)
      (routeKeys cfg m askingFlag (c.routedKeys args)) := by
  cases hrt : routeKeys cfg m askingFlag (c.routedKeys args) with
  | here => exact fun r h => not_fromHandler_redirect r (fromHandler_of_here hm hname hc hrt h)
  | crossSlot =>
    refine ⟨s, ?_⟩
    rw [executeBytes_cluster hm hname]
    simp only [refusal, hrt]
    rfl
  | redirect r =>
    refine ⟨s, ?_⟩
    rw [executeBytes_cluster hm hname]
    simp only [refusal, hrt]

end

lemma redirectReply_ne_crossSlot (r : Redirect) : redirectReply r ≠ crossSlotReply := by
  intro heq
  have hhead : ∀ text, "MOVED " ++ text ≠ "CROSSSLOT Keys in request don't hash to the same slot" ∧
      "ASK " ++ text ≠ "CROSSSLOT Keys in request don't hash to the same slot" := by
    refine fun text => ⟨fun h => ?_, fun h => ?_⟩
    all_goals
      have := congrArg (fun s => s.toList.head?) h
      simp [toList_append] at this
  cases r with simp only [redirectReply, crossSlotReply, append_assoc] at heq
  | moved slot addr =>
    exact (hhead _).1 (error.inj heq)
  | ask slot addr =>
    exact (hhead _).2 (error.inj heq)

lemma Answers.unique {outcome : Go (Reply × Server σ)} {reply reply' : Reply}
    (h : Answers outcome reply) (h' : Answers outcome reply') : reply = reply' := by
  obtain ⟨s₁, h₁⟩ := h
  obtain ⟨s₂, h₂⟩ := h'
  cases h₁.symm.trans h₂
  rfl

lemma answers_crossSlot_iff (hm : s.manager = some m)
    (hname : Command.ofName (toUpper cmdBytes) = some c) (hc : c.multiKeys?.isSome) :
    Answers (executeBytes cfg now cmdBytes args askingFlag s) crossSlotReply ↔
      routeKeys cfg m askingFlag (c.routedKeys args) = .crossSlot := by
  have hshows : Shows (executeBytes cfg now cmdBytes args askingFlag s)
      (routeKeys cfg m askingFlag (c.routedKeys args)) := shows_executeBytes hm hname hc
  constructor
  · intro hcross
    cases hrt : routeKeys cfg m askingFlag (c.routedKeys args) with
    | here => exact absurd (fromHandler_of_here hm hname hc hrt hcross) (by simp [crossSlotReply, FromHandler])
    | crossSlot => rfl
    | redirect r =>
      rw [hrt] at hshows
      exact absurd (hshows.unique hcross) (redirectReply_ne_crossSlot r)
  · intro hrt
    rw [hrt] at hshows
    exact hshows

/-! ## Slots -/

section

variable {v : View} {sm : SlotManager} {slot : UInt16} {key : Bytes} {keys : List Bytes}

lemma route_ne_crossSlot (askingFlag : Bool) : v.route sm key askingFlag ≠ .crossSlot := by
  unfold route routeSlot
  dsimp only
  split_ifs
  · exact RouteResult.noConfusion
  · exact RouteResult.noConfusion
  · exact RouteResult.noConfusion
  · exact RouteResult.noConfusion
  · split <;> exact RouteResult.noConfusion

lemma crossesSlots_cons : CrossesSlots v (key :: keys) ↔ ¬ ∀ k ∈ keys, v.keySlot k = v.keySlot key := by
  constructor
  · rintro ⟨k₁, h₁, k₂, h₂, hne⟩ hall
    have hhead : ∀ k ∈ key :: keys, v.keySlot k = v.keySlot key := by
      intro k hk
      rcases List.mem_cons.1 hk with rfl | hk
      · rfl
      · exact hall k hk
    exact hne ((hhead k₁ h₁).trans (hhead k₂ h₂).symm)
  · intro hall
    push Not at hall
    obtain ⟨k, hk, hne⟩ := hall
    exact ⟨k, List.mem_cons_of_mem _ hk, key, List.mem_cons_self, hne⟩

lemma route_asking (hforeign : ImportsForeign v m (v.keySlot key)) :
    v.route m.slots key true = .here ∧ ∃ r, v.route m.slots key false = .redirect r := by
  obtain ⟨hempty, hself, haddr, hstate, himporting⟩ := hforeign
  obtain ⟨addr, haddr⟩ := Option.isSome_iff_exists.1 haddr
  refine ⟨?_, _, routeSlot_moved rfl hempty hself haddr⟩
  simp [route, routeSlot, hempty, hself, hstate, himporting]

lemma route_asking_eq (hforeign : ¬ ImportsForeign v m (v.keySlot key)) :
    v.route m.slots key true = v.route m.slots key false := by
  unfold route routeSlot
  dsimp only
  by_cases himport : (m.slots.slots (v.keySlot key)).state = .importing ∧ (m.slots.slots (v.keySlot key)).importing ≠ ""
  · -- the slot has no owner, is the node's own, or has an owner that gossip does not know
    by_cases hempty : (m.slots.slots (v.keySlot key)).nodeID = ""
    · simp [hempty]
    · by_cases hself : (m.slots.slots (v.keySlot key)).nodeID = v.selfID
      · simp [hself]
      · have haddr : v.nodeAddr (m.slots.slots (v.keySlot key)).nodeID = none := by
          by_contra haddr
          exact hforeign ⟨hempty, hself, Option.isSome_iff_ne_none.2 haddr, himport⟩
        simp [hempty, hself, haddr]
  · have hflag : ∀ flag : Prop, ¬ ((m.slots.slots (v.keySlot key)).state = .importing ∧
        (m.slots.slots (v.keySlot key)).importing ≠ "" ∧ flag) :=
      fun _ h => himport ⟨h.1, h.2.1⟩
    rw [if_neg (hflag _), if_neg (hflag _)]

end

lemma routeKeys_of_several {key key' : Bytes} {keys : List Bytes} :
    routeKeys cfg m askingFlag (key :: key' :: keys) = cfg.view.routeMulti m.slots (key :: key' :: keys) := rfl

lemma routeKeys_crossSlot_iff {keys : List Bytes} :
    routeKeys cfg m askingFlag keys = .crossSlot ↔ CrossesSlots cfg.view keys := by
  match keys with
  | [] => simp [routeKeys, CrossesSlots]
  | [key] => simp [routeKeys, crossesSlots_cons, route_ne_crossSlot]
  | key :: key' :: keys =>
    rw [crossesSlots_cons, routeKeys_of_several, routeMulti]
    split
    · next hall => simpa [route_ne_crossSlot] using hall
    · next hall => simpa using hall

lemma routeKeys_of_one_slot {keys : List Bytes} {key : Bytes} (hkey : key ∈ keys) (hsl : ¬ CrossesSlots cfg.view keys) :
    routeKeys cfg m askingFlag keys = cfg.view.route m.slots key (if keys.length ≤ 1 then askingFlag else false) := by
  match keys with
  | [k] =>
    cases List.mem_singleton.1 hkey
    rfl
  | k :: k' :: keys =>
    have hall : ∀ x ∈ k' :: keys, cfg.view.keySlot x = cfg.view.keySlot k := by
      simpa [crossesSlots_cons] using hsl
    have hk : cfg.view.keySlot key = cfg.view.keySlot k := by
      rcases List.mem_cons.1 hkey with rfl | h
      · rfl
      · exact hall key h
    rw [routeKeys_of_several, routeMulti, if_pos (by simpa using hall), if_neg (by simp), route, route, hk]

/-- **One key or several.** For every state of the cluster, both values of the flag and every argument
list of a command with extracted keys, the command is routed as each of its keys is exactly if it has
one key, or keys in several slots, or the connection does not ask, or the slot is not one of another
node's that is imported here. -/
theorem routesAsEach_iff (cfg : NodeConfig σ) (now : Int) (cmdBytes : Bytes) (c : Command)
    (hname : Command.ofName (toUpper cmdBytes) = some c) (hc : c.multiKeys?.isSome) (args : List Bytes)
    (askingFlag : Bool) (m : Manager) (s : Server σ) (hm : s.manager = some m) :
    RoutesAsEach cfg now cmdBytes (c.routedKeys args) args askingFlag m s ↔
      (c.routedKeys args).length ≤ 1 ∨ CrossesSlots cfg.view (c.routedKeys args) ∨
        askingFlag = false ∨
        ∀ key ∈ c.routedKeys args, ¬ ImportsForeign cfg.view m (cfg.view.keySlot key) := by
  have hshows : Shows (executeBytes cfg now cmdBytes args askingFlag s)
      (routeKeys cfg m askingFlag (c.routedKeys args)) := shows_executeBytes hm hname hc
  unfold RoutesAsEach
  rw [answers_crossSlot_iff hm hname hc, routeKeys_crossSlot_iff, and_iff_right Iff.rfl]
  constructor
  · intro heach
    by_contra! hnot
    obtain ⟨hlen, hsl, hflag, key, hkey, hforeign⟩ := hnot
    -- the single key is served here, the same key among several is sent to the owner
    have hhere := heach hsl key hkey
    obtain ⟨hrt, r, hredirect⟩ := route_asking hforeign
    rw [routeKeys_of_one_slot hkey hsl, if_neg (by omega), hredirect] at hshows
    rw [Bool.eq_true_of_not_eq_false hflag, hrt] at hhere
    rw [Bool.eq_true_of_not_eq_false hflag] at hshows
    exact hhere r hshows
  · intro hcond hsl key hkey
    rw [routeKeys_of_one_slot hkey hsl] at hshows
    split at hshows
    · exact hshows
    rename_i hlen
    have hforeign : askingFlag = false ∨ ¬ ImportsForeign cfg.view m (cfg.view.keySlot key) := by
      rcases hcond with h | h | h | h
      · exact absurd h hlen
      · exact absurd h hsl
      · exact .inl h
      · exact .inr (h key hkey)
    rcases hforeign with rfl | hforeign
    · exact hshows
    · cases askingFlag with
      | false => exact hshows
      | true =>
        rw [route_asking_eq hforeign]
        exact hshows

/-- The manager of the node that imports slot 0. -/
def importer : Manager := movingManager .target

theorem routesAsEach_single :
    RoutesAsEach (pairNode "t") 0 (ascii "MGET") [[97]] [[97]] true importer
      (movingServer .target) :=
  (routesAsEach_iff (pairNode "t") 0 (ascii "MGET") .mGet (by decide) rfl [[97]] true importer
    (movingServer .target) rfl).2 (.inl le_rfl)

/-- **The flag is lost on two keys.** With the flag `MGET a` is served by the node that imports the
slot; `MGET a a` is sent to the owner. -/
theorem several_keys_sent_away :
    ¬ RoutesAsEach (pairNode "t") 0 (ascii "MGET") [[97], [97]] [[97], [97]] true importer
        (movingServer .target) ∧
      (pairNode "t").view.route (movingTable .target) [97] true = .here ∧
      executeBytes (pairNode "t") 0 (ascii "MGET") [[97], [97]] true (movingServer .target) =
        .ok (.error "MOVED 0 s", movingServer .target) := by
  have haway : executeBytes (pairNode "t") 0 (ascii "MGET") [[97], [97]] true (movingServer .target) =
      .ok (redirectReply (.moved 0 "s"), movingServer .target) := rfl
  refine ⟨fun heach => ?_, rfl, haway⟩
  have hhere := heach.2 (by simp [CrossesSlots]) [97] List.mem_cons_self
  exact hhere (.moved 0 "s") ⟨_, haway⟩

end AutoCache.Protocol
