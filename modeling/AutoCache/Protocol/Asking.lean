import AutoCache.Lib.Runs
import AutoCache.Protocol.Reachability

/-!
# What `ASKING` is worth (`internal/protocol/{handler,connstate}.go`)

`ASKING` is meant to hold for the next command of its connection. Several connections share one
server here and send their requests in any order. The flag that `ASKING` sets is gone when its own
command ends, so no request ever sees it, and the law holds exactly for the clients that send nothing
on a single key after `ASKING`.
-/

namespace AutoCache.Protocol

open Cluster Replication Function

/-- A request on one of the connections `ι`. -/
structure Request (ι : Type) where
  conn : ι
  now : Int
  name : Bytes
  args : List Bytes

namespace Request

variable {ι : Type}

def IsAsking (r : Request ι) : Prop := toUpper r.name = ascii "ASKING"

def key? (r : Request ι) : Option Bytes :=
  match Command.ofName (toUpper r.name) with
  | none => none
  | some c =>
    match c.routedKeys r.args with
    | [key] => some key
    | _ => none

/-- The request before this one on the same connection was `ASKING`. -/
def FollowsAsking [DecidableEq ι] (r : Request ι) (earlier : List (Request ι)) : Prop :=
  ∃ last ∈ (earlier.filter fun e => e.conn = r.conn).getLast?, last.IsAsking

end Request

/-- The server and the flags of its connections. -/
structure Clients (ι σ : Type) where
  server : Server σ
  askingFlag : ι → Bool := fun _ => false

variable {ι σ : Type} [DecidableEq ι]

/-- One request. -/
def Clients.serve (cfg : NodeConfig σ) (s : Clients ι σ) (r : Request ι) : Go (Clients ι σ) := do
  let (_, c) ← execute cfg r.now r.name r.args ⟨s.server, s.askingFlag r.conn⟩
  return ⟨c.server, update s.askingFlag r.conn c.askingFlag⟩

def Imports (m : Manager) (slot : UInt16) : Prop :=
  (m.slots.slots slot).state = .importing ∧ (m.slots.slots slot).importing ≠ ""

/-- **The law of `ASKING`**, at every request on a single key: it is routed with the flag exactly if
the request before it was `ASKING`, it leaves no flag, and after `ASKING` it is served by a node that
imports the slot. -/
def AskingLaw (cfg : NodeConfig σ) (start : Clients ι σ) (requests : List (Request ι)) : Prop :=
  ∀ earlier r later, requests = earlier ++ r :: later →
    ∀ s, Runs.run (Clients.serve cfg) start earlier = .ok s → ∀ key, r.key? = some key →
      (s.askingFlag r.conn = true ↔ r.FollowsAsking earlier) ∧
      (∀ s', s.serve cfg r = .ok s' → s'.askingFlag r.conn = false) ∧
      (r.FollowsAsking earlier → ∀ m, s.server.manager = some m → Imports m (cfg.view.keySlot key) →
        cfg.view.route m.slots key (s.askingFlag r.conn) = .here)

/-! ## No flag survives -/

variable {cfg : NodeConfig σ} {s s' : Clients ι σ} {r : Request ι} {requests : List (Request ι)}

lemma execute_askingFlag {now : Int} {cmdBytes : Bytes} {args : List Bytes} {server : Server σ}
    {reply : Reply} {c : Connection σ}
    (h : execute cfg now cmdBytes args ⟨server, false⟩ = .ok (reply, c)) : c.askingFlag = false := by
  unfold execute at h
  split at h
  · -- `ASKING` sets the flag and the common exit clears it
    cases h
    rfl
  · obtain ⟨p, -, hrest⟩ := Go.bind_eq_ok.1 h
    dsimp only at hrest
    split at hrest
    · cases hrest
      rfl
    · cases hrest
      rfl

lemma serve_askingFlag (hflags : ∀ conn, s.askingFlag conn = false) (h : s.serve cfg r = .ok s') :
    ∀ conn, s'.askingFlag conn = false := by
  obtain ⟨⟨reply, c⟩, hexec, hrest⟩ := Go.bind_eq_ok.1 h
  rw [hflags r.conn] at hexec
  cases hrest
  intro conn
  dsimp only
  rw [update_apply]
  split
  · exact execute_askingFlag hexec
  · exact hflags conn

lemma run_askingFlag {server : Server σ}
    (h : Runs.run (Clients.serve cfg) (⟨server, fun _ => false⟩ : Clients ι σ) requests = .ok s) :
    ∀ conn, s.askingFlag conn = false :=
  Runs.run_invariant (I := fun s => ∀ conn, s.askingFlag conn = false)
    (fun _ _ _ hflags hserve => serve_askingFlag hflags hserve) (fun _ => rfl) h

/-- **`ASKING` lasts for no command.** For every sequence of requests that a server processes, on any
connections, the law holds exactly if no request on a single key comes directly after `ASKING`. -/
theorem askingLaw_iff (cfg : NodeConfig σ) (server : Server σ) (requests : List (Request ι))
    (s : Clients ι σ) (hrun : Runs.run (Clients.serve cfg) ⟨server, fun _ => false⟩ requests = .ok s) :
    AskingLaw cfg ⟨server, fun _ => false⟩ requests ↔
      ∀ earlier r later, requests = earlier ++ r :: later → r.FollowsAsking earlier → r.key? = none := by
  constructor
  · intro hlaw earlier r later heq hfollows
    obtain ⟨t, ht⟩ := Runs.run_left (heq ▸ hrun)
    cases hkey : r.key? with
    | none => rfl
    | some key =>
      have hflag := (hlaw earlier r later heq t ht key hkey).1.2 hfollows
      rw [run_askingFlag ht] at hflag
      cases hflag
  · intro hnone earlier r later heq t ht key hkey
    have hflags := run_askingFlag ht
    have hfollows : ¬ r.FollowsAsking earlier := by
      intro hfollows
      rw [hnone earlier r later heq hfollows] at hkey
      cases hkey
    refine ⟨?_, fun s' hserve => serve_askingFlag hflags hserve _, fun h => absurd h hfollows⟩
    rw [hflags r.conn]
    exact iff_of_false Bool.false_ne_true hfollows

/-- The requests of one connection at time 0. -/
def request (name : String) (args : List Bytes) : Request Unit := ⟨(), 0, ascii name, args⟩

/-- `ASKING` that is followed by `PING`, and only then by a key. -/
def askedTooEarly : List (Request Unit) :=
  [request "ASKING" [], request "PING" [], request "GET" [[97]]]

theorem askingLaw_askedTooEarly :
    AskingLaw (pairNode "t") ⟨movingServer .target, fun _ => false⟩ askedTooEarly := by
  refine (askingLaw_iff (pairNode "t") (movingServer .target) askedTooEarly _ rfl).2 ?_
  rintro (_ | ⟨_, _ | ⟨_, _ | ⟨_, earlier⟩⟩⟩) r later heq ⟨last, hlast, hasking⟩
  · cases heq
    cases hlast
  · cases heq
    rfl
  · cases heq
    cases hlast
    exact absurd hasking (by unfold Request.IsAsking; decide)
  · simp [askedTooEarly] at heq

/-- **`ASKING`, then `GET`.** The target of a migration imports the slot of `a`; when `GET` comes the
flag is down again, and the router sends the client away. -/
theorem asking_forgotten :
    ¬ AskingLaw (pairNode "t") ⟨movingServer .target, fun _ => false⟩
        [request "ASKING" [], request "GET" [[97]]] ∧
      (pairNode "t").view.route (movingTable .target) [97] false = .redirect (.moved 0 "s") := by
  refine ⟨fun hlaw => ?_, rfl⟩
  have hflag := (hlaw [request "ASKING" []] (request "GET" [[97]]) [] rfl _ rfl [97] rfl).1.2
    ⟨request "ASKING" [], rfl, by unfold Request.IsAsking; decide⟩
  cases hflag

end AutoCache.Protocol
