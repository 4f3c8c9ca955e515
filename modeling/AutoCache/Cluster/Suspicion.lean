import AutoCache.Cluster.Failover

/-!
# Failure detection (`checkNodeFailures` of `internal/cluster/gossip/gossip.go`)

A node that has not answered for a while is suspected (`PFAIL`). Messages carry the suspicions of
their senders, and every second a node looks at the ones it suspects itself: with enough reports about
one of them that are not too old, that node is held for failed.

Enough is more than half of the masters that are *connected* at that moment, whoever the reporters
are. So a failed node need not have been reported by more than half of the masters: the count of
connected ones shrinks with every suspicion, and replicas report too.

Times are in milliseconds, as the code has them. Here a clock that does not go back is part of the
state.
-/

namespace AutoCache.Cluster

open List

def clusterNodeTimeout : Int := 15000

def clusterFailReportValidity : Int := 30000

/-! ## Nodes and messages -/

/-- A node with the times that failure detection looks at. -/
structure Watched extends GossipNode where
  pongReceived : Int := 0
  failReports : GoMap String Int := ∅

/-- An entry with its `PFAIL` flag and the node that reports it. -/
structure FlaggedInfo extends NodeInfo where
  pfail : Bool
  reporterID : String := ""

structure FlaggedMessage where
  sender : String
  nodeInfo : Option FlaggedInfo
  gossipNodes : List FlaggedInfo

/-- The entries in the order they are processed, and whether they are the sender's own. The sender is
written into the entries about others. -/
def FlaggedMessage.stamped (msg : FlaggedMessage) : List (FlaggedInfo × Bool) :=
  msg.nodeInfo.toList.map (·, true) ++
    msg.gossipNodes.map fun info => ({ info with reporterID := msg.sender }, false)

abbrev WatchedNodes := GoMap String Watched

namespace Watched

variable (node : Watched)

def updatePong (now : Int) : Watched := { node with pongReceived := now, state := .connected }

def markPFail : Watched := if node.state = .connected then { node with state := .pfail } else node

def markFail : Watched := { node with state := .fail }

def addFailReport (reporterID : String) (now : Int) : Watched :=
  { node with failReports := node.failReports.insert reporterID now }

def validReports (now : Int) : Finset String :=
  node.failReports.keys.filter fun id =>
    (node.failReports.lookup id).any fun ts => now - ts < clusterFailReportValidity

def countFailReports (now : Int) : ℕ := (node.validReports now).card

/-- Only a node's own report counts for its role. -/
def learnRole (info : NodeInfo) (direct : Bool) : Watched :=
  if direct then
    match info.role with
    | some .master => { node with role := .master, masterID := "" }
    | some .replica => { node with role := .replica, masterID := info.masterID }
    | none => node
  else node

end Watched

namespace WatchedNodes

variable (nodes : WatchedNodes)

def modify (id : String) (f : Watched → Watched) : WatchedNodes :=
  match nodes.lookup id with
  | none => nodes
  | some node => nodes.insert id (f node)

def processNodeInfo (now : Int) (info : FlaggedInfo) (direct : Bool) : WatchedNodes :=
  let node := ((nodes.lookup info.id).getD {}).learnRole info.toNodeInfo direct
  let node := if info.pfail ∧ info.reporterID ≠ "" then node.addFailReport info.reporterID now else node
  nodes.insert info.id node

/-- `handlePing`, which also handles `MEET`, and the answer to `MEET`. -/
def handlePing (now : Int) (msg : FlaggedMessage) : WatchedNodes :=
  msg.stamped.foldl (fun nodes e => nodes.processNodeInfo now e.1 e.2) nodes

def handlePong (now : Int) (msg : FlaggedMessage) : WatchedNodes :=
  (nodes.modify msg.sender fun node => node.updatePong now).handlePing now msg

def handleFail (failNodeID : String) : WatchedNodes := nodes.modify failNodeID Watched.markFail

def masters : Finset String :=
  nodes.keys.filter fun id => (nodes.lookup id).any fun node => node.role = .master

def connectedMasters : Finset String :=
  nodes.keys.filter fun id =>
    (nodes.lookup id).any fun node => node.role = .master && node.state = .connected

def countMasters : ℕ := nodes.connectedMasters.card

/-- A connected node that has been silent for too long is suspected. -/
def suspect (now : Int) (id : String) : WatchedNodes :=
  nodes.modify id fun node =>
    if node.state = .connected ∧ now - node.pongReceived > clusterNodeTimeout then node.markPFail
    else node

/-- One turn of the loop of `checkNodeFailures`. -/
def checkNode (self : String) (now : Int) (id : String) : WatchedNodes :=
  if id = self then nodes
  else
    let nodes := nodes.suspect now id
    nodes.modify id fun node =>
      if node.state = .pfail ∧ node.countFailReports now ≥ nodes.countMasters / 2 + 1 then node.markFail
      else node

/-- The loop, in the order in which Go ranges over the map. -/
def checkNodeFailures (self : String) (now : Int) (order : List String) : WatchedNodes :=
  order.foldl (fun nodes id => nodes.checkNode self now id) nodes

end WatchedNodes

/-! ## Runs -/

/-- What happens at a node. The cluster sets roles: its own, and that of a replica it promotes. -/
inductive GossipEvent where
  | wait (ms : ℕ)
  | ping (msg : FlaggedMessage)
  | pong (msg : FlaggedMessage)
  | fail (failNodeID : String)
  | setRole (id : String) (role : NodeRole) (masterID : String)
  | tick (order : List String)

structure Watch where
  now : Int
  nodes : WatchedNodes

namespace Watch

/-- `NewGossip`: a node knows itself. -/
def new (self : String) (now : Int) : Watch := ⟨now, (∅ : WatchedNodes).insert self {}⟩

def step (self : String) (s : Watch) : GossipEvent → Watch
  | .wait ms => { s with now := s.now + ms }
  | .ping msg => { s with nodes := s.nodes.handlePing s.now msg }
  | .pong msg => { s with nodes := s.nodes.handlePong s.now msg }
  | .fail failNodeID => { s with nodes := s.nodes.handleFail failNodeID }
  | .setRole id role masterID =>
    { s with nodes := s.nodes.modify id fun node => { node with role := role, masterID := masterID } }
  | .tick order => { s with nodes := s.nodes.checkNodeFailures self s.now order }

def run (self : String) (s : Watch) (events : List GossipEvent) : Watch := events.foldl (step self) s

end Watch

/-! ## What was reported -/

/-- A report that came in: `reporter` suspects `node`. -/
structure Heard where
  reporter : String
  node : String
  time : Int
  deriving DecidableEq

def FlaggedInfo.report (now : Int) (info : FlaggedInfo) : List Heard :=
  if info.pfail ∧ info.reporterID ≠ "" then [⟨info.reporterID, info.id, now⟩] else []

def FlaggedMessage.reports (now : Int) (msg : FlaggedMessage) : List Heard :=
  msg.stamped.flatMap fun e => e.1.report now

/-- The reports of a run that starts at time `now`. -/
def heard : Int → List GossipEvent → List Heard
  | _, [] => []
  | now, .wait ms :: events => heard (now + ms) events
  | now, .ping msg :: events => msg.reports now ++ heard now events
  | now, .pong msg :: events => msg.reports now ++ heard now events
  | now, _ :: events => heard now events

/-- Among the reports is one of that node by that reporter, within the validity. -/
def ReportedWithin (reports : List Heard) (now : Int) (id reporter : String) : Prop :=
  ∃ h ∈ reports, h.reporter = reporter ∧ h.node = id ∧ now - h.time < clusterFailReportValidity

instance (reports : List Heard) (now : Int) (id reporter : String) :
    Decidable (ReportedWithin reports now id reporter) :=
  inferInstanceAs (Decidable (∃ h ∈ reports, _))

/-- The turn of the loop for `id` marks it as failed. -/
def Marks (self : String) (now : Int) (nodes : WatchedNodes) (id : String) : Prop :=
  ∃ node node', nodes.lookup id = some node ∧ node.state ≠ .fail ∧
    (nodes.checkNode self now id).lookup id = some node' ∧ node'.state = .fail

/-- **A real majority**: the reports that are counted are those of masters, and more than half of the
nodes known as masters have reported the node. -/
def RealMajority (reports : List Heard) (now : Int) (nodes : WatchedNodes) (id : String) : Prop :=
  (∀ node, nodes.lookup id = some node → node.validReports now ⊆ nodes.masters) ∧
    nodes.masters.card < 2 * (nodes.masters.filter (ReportedWithin reports now id)).card

/-- At every turn of every tick of the run, a node is marked only with a real majority. -/
def FailNeedsMajority (self : String) (start : Watch) (events : List GossipEvent) : Prop :=
  ∀ earlier order later, events = earlier ++ .tick order :: later →
    ∀ before id after, order = before ++ id :: after →
      Marks self (start.run self earlier).now
        ((start.run self earlier).nodes.checkNodeFailures self (start.run self earlier).now before) id →
      RealMajority (heard start.now earlier) (start.run self earlier).now
        ((start.run self earlier).nodes.checkNodeFailures self (start.run self earlier).now before) id

/-- The condition for one turn. A node that is suspected, with more valid reports than half of the
connected masters, has them from masters only, and their number is not in the gap between half of the
connected and half of all masters. -/
def Decisive (self : String) (now : Int) (nodes : WatchedNodes) (id : String) : Prop :=
  ∀ node, id ≠ self → (nodes.suspect now id).lookup id = some node → node.state = .pfail →
    let count := node.countFailReports now
    let connected := (nodes.suspect now id).countMasters
    (connected / 2 < count → node.validReports now ⊆ nodes.masters) ∧
      ¬ (connected / 2 < count ∧ count ≤ nodes.masters.card / 2)

/-! ## Roles

Messages change the roles here as they do in the slot part of gossip, which leaves out suspicions. -/

/-! ## What a turn looks at -/

namespace WatchedNodes

variable {nodes : WatchedNodes} {id id' : String} {f : Watched → Watched}

lemma lookup_modify : (nodes.modify id f).lookup id' = if id' = id then (nodes.lookup id).map f else nodes.lookup id' := by
  unfold modify
  cases hnode : nodes.lookup id with
  | none =>
    dsimp only
    split
    · next h => rw [h, hnode]; rfl
    · rfl
  | some node => rw [GoMap.lookup_insert_eq]; rfl

def reportsOn (nodes : WatchedNodes) (id : String) : GoMap String Int :=
  ((nodes.lookup id).getD {}).failReports

lemma reportsOn_modify (hf : ∀ node, (f node).failReports = node.failReports) :
    (nodes.modify id f).reportsOn = nodes.reportsOn := by
  funext x
  unfold reportsOn
  rw [lookup_modify]
  split
  · next h =>
    rw [h]
    cases nodes.lookup id with
    | none => rfl
    | some node => exact hf node
  · rfl

lemma reportsOn_suspect (now : Int) : (nodes.suspect now id).reportsOn = nodes.reportsOn := by
  refine reportsOn_modify fun node => ?_
  unfold Watched.markPFail
  split_ifs <;> rfl

lemma reportsOn_checkNode (self : String) (now : Int) : (nodes.checkNode self now id).reportsOn = nodes.reportsOn := by
  unfold checkNode
  split
  · rfl
  · refine (reportsOn_modify fun node => ?_).trans (reportsOn_suspect now)
    split <;> rfl

lemma reportsOn_checkNodeFailures (self : String) (now : Int) (order : List String) :
    (nodes.checkNodeFailures self now order).reportsOn = nodes.reportsOn := by
  induction order generalizing nodes with
  | nil => rfl
  | cons id order ih => exact (@ih (nodes.checkNode self now id)).trans (reportsOn_checkNode self now)

lemma reportsOn_of_lookup {node : Watched} (h : nodes.lookup id = some node) : nodes.reportsOn id = node.failReports := by
  rw [reportsOn, h, Option.getD_some]

lemma reportsOn_processNodeInfo (now : Int) (info : FlaggedInfo) (direct : Bool) :
    (nodes.processNodeInfo now info direct).reportsOn id = if id = info.id ∧ info.pfail ∧ info.reporterID ≠ "" then
        (nodes.reportsOn id).insert info.reporterID now
      else nodes.reportsOn id := by
  have hlearn : ∀ node : Watched, (node.learnRole info.toNodeInfo direct).failReports = node.failReports := by
    intro node
    unfold Watched.learnRole
    split
    · split <;> rfl
    · rfl
  unfold reportsOn processNodeInfo
  rw [GoMap.lookup_insert_eq]
  by_cases hid : id = info.id
  · subst hid
    rw [if_pos rfl, Option.getD_some]
    by_cases hreport : info.pfail ∧ info.reporterID ≠ ""
    · rw [if_pos hreport, if_pos ⟨rfl, hreport⟩, Watched.addFailReport, hlearn]
    · rw [if_neg hreport, if_neg (fun h => hreport h.2), hlearn]
  · rw [if_neg hid, if_neg (fun h => hid h.1)]

end WatchedNodes

lemma Watched.mem_validReports {node : Watched} {now : Int} {reporter : String} : reporter ∈ node.validReports now ↔
      ∃ ts, node.failReports.lookup reporter = some ts ∧ now - ts < clusterFailReportValidity := by
  simp only [validReports, Finset.mem_filter, Finmap.mem_keys]
  cases hts : node.failReports.lookup reporter with
  | none => simp
  | some ts => simpa using fun _ => Finmap.mem_of_lookup_eq_some hts

open WatchedNodes

/-- **One turn.** A node is marked exactly if it is suspected and has more valid reports than half of
the connected masters. -/
lemma marks_iff {self : String} {now : Int} {nodes : WatchedNodes} {id : String} : Marks self now nodes id ↔
      ∃ node, id ≠ self ∧ (nodes.suspect now id).lookup id = some node ∧ node.state = .pfail ∧
        (nodes.suspect now id).countMasters / 2 < node.countFailReports now := by
  have hsuspect : ∀ node, nodes.lookup id = some node →
      ∃ node', (nodes.suspect now id).lookup id = some node' ∧ (node.state = .fail ↔ node'.state = .fail) := by
    intro node hnode
    refine ⟨_, by rw [suspect, lookup_modify, if_pos rfl, hnode]; rfl, ?_⟩
    dsimp only
    split
    · next hsilent => simp [Watched.markPFail, hsilent.1]
    · rfl
  constructor
  · rintro ⟨node, node', hnode, halive, hcheck, hfail⟩
    obtain ⟨suspected, hlk, hstate⟩ := hsuspect node hnode
    by_cases hself : id = self
    · rw [checkNode, if_pos hself, hnode] at hcheck
      cases hcheck
      exact absurd hfail halive
    · rw [checkNode, if_neg hself, lookup_modify, if_pos rfl, hlk] at hcheck
      cases hcheck
      dsimp only at hfail
      split at hfail
      · next hcond => exact ⟨suspected, hself, hlk, hcond.1, hcond.2⟩
      · exact absurd (hstate.2 hfail) halive
  · rintro ⟨suspected, hself, hlk, hpfail, hcnt⟩
    cases hnode : nodes.lookup id with
    | none =>
      rw [suspect, lookup_modify, if_pos rfl, hnode] at hlk
      cases hlk
    | some node =>
      obtain ⟨node', hlk', hstate⟩ := hsuspect node hnode
      cases hlk.symm.trans hlk'
      refine ⟨node, suspected.markFail, hnode, fun hfail => ?_, ?_, rfl⟩
      · rw [hstate.1 hfail] at hpfail
        cases hpfail
      · rw [checkNode, if_neg hself, lookup_modify, if_pos rfl, hlk, Option.map_some, if_pos ⟨hpfail, hcnt⟩]

/-! ## The stored reports are the reports that came in -/

structure Remembers (s : Watch) (reports : List Heard) : Prop where
  stored : ∀ id reporter ts, (s.nodes.reportsOn id).lookup reporter = some ts →
    ⟨reporter, id, ts⟩ ∈ reports
  latest : ∀ h ∈ reports, ∃ ts, (s.nodes.reportsOn h.node).lookup h.reporter = some ts ∧ h.time ≤ ts
  past : ∀ h ∈ reports, h.time ≤ s.now

namespace Remembers

variable {s : Watch} {reports : List Heard} {nodes : WatchedNodes}

lemma of_reportsOn (h : Remembers s reports) (heq : nodes.reportsOn = s.nodes.reportsOn) :
    Remembers ⟨s.now, nodes⟩ reports where
  stored := by
    rw [heq]
    exact h.stored
  latest := by
    rw [heq]
    exact h.latest
  past := h.past

lemma processNodeInfo (h : Remembers s reports) (info : FlaggedInfo) (direct : Bool) :
    Remembers ⟨s.now, s.nodes.processNodeInfo s.now info direct⟩ (reports ++ info.report s.now) := by
  unfold FlaggedInfo.report
  by_cases hreport : info.pfail ∧ info.reporterID ≠ ""
  · rw [if_pos hreport]
    constructor
    · intro id reporter ts hts
      rw [reportsOn_processNodeInfo] at hts
      by_cases hid : id = info.id
      · rw [if_pos ⟨hid, hreport⟩, GoMap.lookup_insert_eq] at hts
        split at hts
        · next hrep =>
          cases hts
          simp [hid, hrep]
        · exact mem_append_left _ (h.stored id reporter ts hts)
      · rw [if_neg (fun h => hid h.1)] at hts
        exact mem_append_left _ (h.stored id reporter ts hts)
    · -- an older report of the same reporter is overwritten by one that is not older
      intro e he
      rw [reportsOn_processNodeInfo]
      by_cases hid : e.node = info.id
      · rw [if_pos ⟨hid, hreport⟩, GoMap.lookup_insert_eq]
        by_cases hrep : e.reporter = info.reporterID
        · refine ⟨s.now, if_pos hrep, ?_⟩
          rcases mem_append.1 he with he | he
          · exact h.past e he
          · rw [mem_singleton.1 he]
        · rw [if_neg hrep]
          rcases mem_append.1 he with he | he
          · exact h.latest e he
          · rw [mem_singleton.1 he] at hrep
            exact absurd rfl hrep
      · rw [if_neg (fun h => hid h.1)]
        rcases mem_append.1 he with he | he
        · exact h.latest e he
        · rw [mem_singleton.1 he] at hid
          exact absurd rfl hid
    · intro e he
      rcases mem_append.1 he with he | he
      · exact h.past e he
      · rw [mem_singleton.1 he]
  · rw [if_neg hreport, append_nil]
    refine h.of_reportsOn (funext fun id => ?_)
    rw [reportsOn_processNodeInfo, if_neg (fun h => hreport h.2)]

lemma handlePing (h : Remembers s reports) (msg : FlaggedMessage) :
    Remembers ⟨s.now, s.nodes.handlePing s.now msg⟩ (reports ++ msg.reports s.now) := by
  unfold WatchedNodes.handlePing FlaggedMessage.reports
  generalize msg.stamped = entries
  induction entries generalizing s reports with
  | nil => simpa using h
  | cons e entries ih =>
    rw [flatMap_cons, ← append_assoc]
    exact ih (h.processNodeInfo e.1 e.2)

variable (self : String)

lemma step (h : Remembers s reports) (e : GossipEvent) : Remembers (s.step self e) (reports ++ heard s.now [e]) := by
  cases e with simp only [heard, append_nil]
  | wait ms => exact ⟨h.stored, h.latest, fun e he => (h.past e he).trans (by simp [Watch.step])⟩
  | ping msg => exact h.handlePing msg
  | pong msg =>
    have hpong : Remembers ⟨s.now, s.nodes.modify msg.sender fun node => node.updatePong s.now⟩ reports :=
      h.of_reportsOn (reportsOn_modify fun _ => rfl)
    exact hpong.handlePing msg
  | fail failNodeID | setRole id role masterID => exact h.of_reportsOn (reportsOn_modify fun _ => rfl)
  | tick order => exact h.of_reportsOn (reportsOn_checkNodeFailures self s.now order)

lemma heard_cons (s : Watch) (e : GossipEvent) (events : List GossipEvent) :
    heard s.now (e :: events) = heard s.now [e] ++ heard (s.step self e).now events := by
  cases e <;> simp [heard, Watch.step]

/-- **Along a run.** -/
lemma run (h : Remembers s reports) (events : List GossipEvent) :
    Remembers (s.run self events) (reports ++ heard s.now events) := by
  induction events generalizing s reports with
  | nil => simpa [heard, Watch.run] using h
  | cons e events ih =>
    rw [heard_cons self, ← append_assoc]
    exact ih (h.step self e)

lemma new (now : Int) : Remembers (.new self now) [] where
  stored id reporter ts hts := by
    rw [Watch.new, reportsOn, GoMap.lookup_insert_eq] at hts
    split at hts
    · cases hts
    · cases hts
  latest _ h := by cases h
  past _ h := by cases h

lemma reportedWithin_iff (h : Remembers s reports) {id reporter : String} {node : Watched}
    (hnode : node.failReports = s.nodes.reportsOn id) :
    ReportedWithin reports s.now id reporter ↔ reporter ∈ node.validReports s.now := by
  rw [Watched.mem_validReports, hnode]
  constructor
  · rintro ⟨e, he, rfl, rfl, hvld⟩
    obtain ⟨ts, hts, hle⟩ := h.latest e he
    exact ⟨ts, hts, by omega⟩
  · rintro ⟨ts, hts, hvld⟩
    exact ⟨_, h.stored id reporter ts hts, rfl, rfl, hvld⟩

end Remembers

lemma realMajority_iff {self id : String} {s : Watch} {reports : List Heard} (h : Remembers s reports) :
    (Marks self s.now s.nodes id → RealMajority reports s.now s.nodes id) ↔ Decisive self s.now s.nodes id := by
  have hstored : ∀ node, (s.nodes.suspect s.now id).lookup id = some node →
      ∀ m, ReportedWithin reports s.now id m ↔ m ∈ node.validReports s.now := by
    intro node hnode m
    refine h.reportedWithin_iff ?_
    rw [← reportsOn_suspect s.now, reportsOn_of_lookup hnode]
  -- when all counted reporters are masters, they are the masters that reported
  have hfilter : ∀ node, (s.nodes.suspect s.now id).lookup id = some node → node.validReports s.now ⊆ s.nodes.masters →
      s.nodes.masters.filter (ReportedWithin reports s.now id) = node.validReports s.now := by
    intro node hnode hsub
    ext m
    rw [Finset.mem_filter, hstored node hnode]
    exact ⟨And.right, fun hm => ⟨hsub hm, hm⟩⟩
  have hsame : ∀ node, (s.nodes.suspect s.now id).lookup id = some node →
      ∃ known, s.nodes.lookup id = some known ∧ known.validReports s.now = node.validReports s.now := by
    intro node hnode
    cases hkn : s.nodes.lookup id with
    | none =>
      rw [suspect, lookup_modify, if_pos rfl, hkn] at hnode
      cases hnode
    | some known =>
      refine ⟨known, rfl, ?_⟩
      unfold Watched.validReports
      rw [← reportsOn_of_lookup hkn, ← reportsOn_of_lookup hnode, reportsOn_suspect]
  rw [marks_iff]
  constructor
  · intro hmaj node hself hnode hpfail
    have hreal : (s.nodes.suspect s.now id).countMasters / 2 < node.countFailReports s.now →
        node.validReports s.now ⊆ s.nodes.masters ∧ s.nodes.masters.card < 2 * node.countFailReports s.now := by
      intro hcnt
      obtain ⟨hby, hcard⟩ := hmaj ⟨node, hself, hnode, hpfail, hcnt⟩
      obtain ⟨known, hkn, hvld⟩ := hsame node hnode
      have hsub : node.validReports s.now ⊆ s.nodes.masters := hvld ▸ hby known hkn
      rw [hfilter node hnode hsub] at hcard
      exact ⟨hsub, hcard⟩
    refine ⟨fun hcnt => (hreal hcnt).1, fun hgap => ?_⟩
    omega
  · rintro hdecisive ⟨node, hself, hnode, hpfail, hcnt⟩
    obtain ⟨hby, hgap⟩ := hdecisive node hself hnode hpfail
    refine ⟨fun known hkn => ?_, ?_⟩
    · obtain ⟨known', hkn', hvld⟩ := hsame node hnode
      cases hkn.symm.trans hkn'
      rw [hvld]
      exact hby hcnt
    · rw [hfilter node hnode (hby hcnt)]
      have hcard : ¬ node.countFailReports s.now ≤ s.nodes.masters.card / 2 :=
        fun h => hgap ⟨hcnt, h⟩
      unfold Watched.countFailReports at hcard
      omega

/-- **Majorities.** In every run of message handling and ticks of a new node, every node marked as
failed has a real majority exactly if every turn of every tick is decisive. -/
theorem failNeedsMajority_iff (self : String) (now : Int) (events : List GossipEvent) :
    FailNeedsMajority self (.new self now) events ↔
      ∀ earlier order later, events = earlier ++ .tick order :: later →
        ∀ before id after, order = before ++ id :: after →
          Decisive self ((Watch.new self now).run self earlier).now
            (((Watch.new self now).run self earlier).nodes.checkNodeFailures self
              ((Watch.new self now).run self earlier).now before) id := by
  refine forall_congr' fun earlier => forall_congr' fun order => forall_congr' fun later =>
    forall_congr' fun _ => forall_congr' fun before => forall_congr' fun id =>
    forall_congr' fun after => forall_congr' fun _ => ?_
  have hrem := (Remembers.new self now).run self earlier
  exact realMajority_iff (hrem.of_reportsOn (reportsOn_checkNodeFailures self _ before))

/-! ## A replica is enough -/

def infoOf (id : String) (role : NodeRole) (pfail : Bool) : FlaggedInfo where
  id := id
  role := some role
  masterID := ""
  configEpoch := 0
  slots := []
  pfail := pfail

/-- The replica `r` tells `x` of itself, and that it suspects `n`. -/
def rumour : FlaggedMessage where
  sender := "r"
  nodeInfo := some (infoOf "r" .replica false)
  gossipNodes := [infoOf "n" .master true]

/-- **Failed on the word of a replica.** `x` knows two masters, itself and `n`. A replica reports `n`,
no master does, and at the next tick `x` holds `n` for failed. -/
theorem fail_without_master :
    Marks "x" 20000 ((Watch.new "x" 20000).run "x" [.ping rumour]).nodes "n" ∧
      ((Watch.new "x" 20000).run "x" [.ping rumour]).nodes.masters = {"x", "n"} ∧
      ¬ FailNeedsMajority "x" (.new "x" 20000) [.ping rumour, .tick ["n", "r", "x"]] := by
  have hmarks : Marks "x" 20000 ((Watch.new "x" 20000).run "x" [.ping rumour]).nodes "n" :=
    ⟨_, _, rfl, by decide, rfl, by decide⟩
  refine ⟨hmarks, by decide, fun hlaw => ?_⟩
  have hmaj := hlaw [.ping rumour] ["n", "r", "x"] [] rfl [] "n" ["r", "x"] rfl hmarks
  revert hmaj
  unfold RealMajority
  decide

end AutoCache.Cluster
