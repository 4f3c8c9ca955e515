import AutoCache.Cluster.Ranges
import AutoCache.Controllers.Replies
import Mathlib.Data.List.Sort

/-!
# Who owns the slots, as the operator sees it (`controllers/migration.go`, `controllers/scaling.go`)

The operator asks every ready pod for `CLUSTER SLOTS` and notes the pod for every slot of the reply. A node
answers with the ranges of the whole cluster, and the owner that each range names is not looked at: the pod
that is asked last gets all assigned slots.
-/

namespace AutoCache.Controllers

open Cluster Resp SlotManager List

/-! ## The reply of a node -/

/-- What gossip knows of a node, as Go can hold it. -/
structure NodeAddr where
  ip : Bytes
  port : Int
  id : Bytes
  ip_fits : ip.length < 2 ^ 63
  port_fits : -2 ^ 63 ≤ port ∧ port < 2 ^ 63
  id_fits : id.length < 2 ^ 63

/-- The entry of a range. -/
def writeRange (r : SlotRange) (node : NodeAddr) : Bytes :=
  writeArray 3 ++ writeInt r.start.toNat ++ writeInt r.stop.toNat ++
    writeArray 3 ++ writeBulk node.ip ++ writeInt node.port ++ writeBulk node.id

/-- `clusterSlots`. The entry of an owner that gossip does not know is missing, although the header counts
it. -/
def clusterSlots (sm : SlotManager) (getNode : String → Option NodeAddr) : Bytes :=
  let ranges := sm.getClusterSlots
  writeArray ranges.length ++ ranges.flatMap fun r =>
    match getNode (sm.getSlotNode r.start) with
    | none => []
    | some node => writeRange r node

/-! ## Reading it -/

inductive EntryError where
  /-- `cluster slots[%d]: expected array` -/
  | notArray
  /-- `cluster slots[%d]: expected start/end` -/
  | tooShort
  /-- `cluster slots[%d]: start not integer` -/
  | start
  /-- `cluster slots[%d]: end not integer` -/
  | stop
  /-- `cluster slots[%d]: negative range` -/
  | negative
  /-- `cluster slots[%d]: start greater than end` -/
  | unordered
  /-- `cluster slots[%d]: range overflows int` -/
  | overflow
  deriving DecidableEq

inductive SlotsError where
  | io (err : String)
  | resp (err : ParseError)
  /-- `cluster slots: expected array` -/
  | notArray
  | entry (i : ℕ) (err : EntryError)
  deriving DecidableEq

def maxInt : Int := 2 ^ 63 - 1

/-- The bounds of an entry. -/
def parseEntry : Value → Except EntryError (Int × Int)
  | .array (first :: second :: _) =>
    match first, second with
    | .int start, .int stop =>
      if start < 0 ∨ stop < 0 then .error .negative
      else if start > stop then .error .unordered
      else if start > maxInt ∨ stop > maxInt then .error .overflow
      else .ok (start, stop)
    | .int _, _ => .error .stop
    | _, _ => .error .start
  | .array _ => .error .tooShort
  | _ => .error .notArray

/-- The slots from `start` to `stop`. -/
def slotsBetween (start stop : Int) : List Int :=
  (List.range (stop + 1 - start).toNat).map fun k : ℕ => start + (k : Int)

/-- The loop of `parseClusterSlots`; `i` entries have gone before. -/
def parseEntries : ℕ → List Value → Except SlotsError (List Int)
  | _, [] => .ok []
  | i, entry :: entries => do
    let (start, stop) ← (parseEntry entry).mapError (.entry i)
    let slots ← parseEntries (i + 1) entries
    return slotsBetween start stop ++ slots

def parseClusterSlots : Value → Except SlotsError (List Int)
  | .array entries => parseEntries 0 entries
  | _ => .error .notArray

def parseNodeSlots (reply : Bytes) : Except SlotsError (List Int) := do
  let (resp, _) ← (read (reply.length + 1) reply).mapError .resp
  parseClusterSlots resp

/-! ## The maps the operator builds -/

/-- A pod, the node that runs in it and how the node answers `CLUSTER SLOTS`. -/
structure Pod where
  name : String
  ready : Bool
  podIP : String
  nodeID : String
  answer : Except String Bytes

/-- `getNodeSlots` for the address of a pod. -/
def getNodeSlots (pod : Pod) : Except SlotsError (List Int) := do
  let reply ← pod.answer.mapError .io
  parseNodeSlots reply

def Pod.Asked (pod : Pod) : Prop := pod.ready = true ∧ pod.podIP ≠ ""

instance (pod : Pod) : Decidable pod.Asked := inferInstanceAs (Decidable (_ ∧ _))

/-- The pod is noted for the slots. -/
def claimSlots (name : String) (slots : List Int) (m : GoMap Int String) : GoMap Int String :=
  slots.foldl (fun m slot => m.insert slot name) m

/-- `getCurrentSlotMap`: a pod that does not answer is skipped. -/
def getCurrentSlotMap (pods : List Pod) : GoMap Int String :=
  pods.foldl (fun m pod =>
    if ¬ pod.Asked then m
    else
      match getNodeSlots pod with
      | .error _ => m
      | .ok slots => claimSlots pod.name slots m) ∅

def listReadyPods (pods : List Pod) : List Pod :=
  (pods.filter fun pod => pod.Asked).insertionSort fun a b => a.name ≤ b.name

/-- The loop of `rebalanceSlots` that builds `currentOwnerBySlot`. -/
def ownersOf : List Pod → GoMap Int String → Except SlotsError (GoMap Int String)
  | [], m => .ok m
  | pod :: pods, m => do
    let slots ← getNodeSlots pod
    ownersOf pods (claimSlots pod.name slots m)

def currentOwnerBySlot (pods : List Pod) : Except SlotsError (GoMap Int String) :=
  ownersOf (listReadyPods pods) ∅

/-! ## What the operator reads -/

section Reading

variable {sm : SlotManager} {getNode : String → Option NodeAddr} {r : SlotRange} {node : NodeAddr}

/-- An entry as it is read. -/
def rangeValue (r : SlotRange) (node : NodeAddr) : Value :=
  .array [.int r.start.toNat, .int r.stop.toNat, .array [.text node.ip, .int node.port, .text node.id]]

lemma read_writeRange (depth : ℕ) (r : SlotRange) (node : NodeAddr) (rest : Bytes) :
    read (depth + 3) (writeRange r node ++ rest) = .ok (rangeValue r node, rest) := by
  have hstart : (r.start.toNat : Int) < 2 ^ 63 := by have := r.start.toNat_lt; omega
  have hstop : (r.stop.toNat : Int) < 2 ^ 63 := by have := r.stop.toNat_lt; omega
  have haddr : read (depth + 2) (writeArray 3 ++ (writeBulk node.ip ++ (writeInt node.port ++ (writeBulk node.id ++ rest)))) =
        .ok (.array [.text node.ip, .int node.port, .text node.id], rest) :=
    read_writeArray (by decide) <|
      readItems_cons (read_writeBulk node.ip_fits _) <|
      readItems_cons (read_writeInt node.port_fits.1 node.port_fits.2 _) <|
      readItems_cons (read_writeBulk node.id_fits _) rfl
  simp only [writeRange, append_assoc]
  exact read_writeArray (by decide) <|
    readItems_cons (read_writeInt (by omega) hstart _) <|
    readItems_cons (read_writeInt (by omega) hstop _) <|
    readItems_cons haddr rfl

lemma parseEntry_rangeValue (h : sm.Owns r) :
    parseEntry (rangeValue r node) = .ok ((r.start.toNat : Int), (r.stop.toNat : Int)) := by
  have hord := h.ordered
  have hstop := r.stop.toNat_lt
  simp only [rangeValue, parseEntry]
  rw [if_neg (by omega), if_neg (by omega), if_neg (by unfold maxInt; omega)]

lemma slotsBetween_range (r : SlotRange) : slotsBetween r.start.toNat r.stop.toNat = r.slots.map Nat.cast := by
  unfold slotsBetween SlotRange.slots
  rw [range'_eq_map_range, map_map]
  have hlen : ((r.stop.toNat : Int) + 1 - r.start.toNat).toNat = r.stop.toNat + 1 - r.start.toNat := by
    omega
  rw [hlen]
  rfl

lemma parseEntries_ranges (sm : SlotManager) {ranges : List SlotRange} {value : SlotRange → Value} (i : ℕ)
    (h : ∀ r ∈ ranges, sm.Owns r ∧ ∃ node, value r = rangeValue r node) :
    parseEntries i (ranges.map value) = .ok ((ranges.flatMap SlotRange.slots).map Nat.cast) := by
  induction ranges generalizing i with
  | nil => rfl
  | cons r ranges ih =>
    obtain ⟨⟨howns, node, hval⟩, hrest⟩ := forall_mem_cons.1 h
    rw [map_cons, parseEntries, hval, parseEntry_rangeValue howns, ih (i + 1) hrest,
      flatMap_cons, map_append, ← slotsBetween_range]
    rfl

/-- The slots that have an owner, by number. -/
def assignedSlots (sm : SlotManager) : List ℕ :=
  (List.range slotCount.toNat).filter fun n => sm.ownerOf n ≠ ""

lemma length_getClusterSlots_le (sm : SlotManager) : sm.getClusterSlots.length ≤ slotCount.toNat := by
  have hnonempty : ∀ (ranges : List SlotRange), (∀ r ∈ ranges, sm.Owns r) →
      ranges.length ≤ (ranges.flatMap SlotRange.slots).length := by
    intro ranges
    induction ranges with
    | nil => exact fun _ => le_rfl
    | cons r ranges ih =>
      intro h
      obtain ⟨howns, hrest⟩ := forall_mem_cons.1 h
      have hord := howns.ordered
      have hlen := ih hrest
      rw [flatMap_cons, length_append, length_cons, SlotRange.slots, length_range']
      omega
  have hle := hnonempty _ fun r hr => getClusterSlots_owns hr
  rw [getClusterSlots_slots] at hle
  refine hle.trans ((length_filter_le _ _).trans ?_)
  rw [length_range]

lemma getSlotNode_start (hr : r ∈ sm.getClusterSlots) : sm.getSlotNode r.start = r.nodeID := by
  have howns := getClusterSlots_owns hr
  have hown := howns.owner r.start.toNat (SlotRange.mem_slots.2 ⟨le_rfl, howns.ordered⟩)
  rw [ownerOf, UInt16.ofNat_toNat] at hown
  rw [getSlotNode_of_lt (howns.ordered.trans_lt howns.inside), hown]

/-- Gossip knows the owner of every assigned slot. -/
def KnowsOwners (sm : SlotManager) (getNode : String → Option NodeAddr) : Prop :=
  ∀ slot < slotCount, (sm.slots slot).nodeID ≠ "" → (getNode (sm.slots slot).nodeID).isSome

lemma knowsOwners_iff : KnowsOwners sm getNode ↔ ∀ r ∈ sm.getClusterSlots, (getNode (sm.getSlotNode r.start)).isSome := by
  constructor
  · intro h r hr
    have howns := getClusterSlots_owns hr
    have hstart : r.start < slotCount := howns.ordered.trans_lt howns.inside
    have hown := getSlotNode_start hr
    rw [getSlotNode_of_lt hstart] at hown ⊢
    refine h _ hstart ?_
    rw [hown]
    exact howns.named
  · intro h slot hslot hne
    have hmem : slot.toNat ∈ sm.getClusterSlots.flatMap SlotRange.slots := by
      rw [getClusterSlots_slots, mem_filter, mem_range, ownerOf, UInt16.ofNat_toNat]
      exact ⟨UInt16.lt_iff_toNat_lt.1 hslot, decide_eq_true hne⟩
    obtain ⟨r, hr, hin⟩ := mem_flatMap.1 hmem
    have hown := (getClusterSlots_owns hr).owner _ hin
    rw [ownerOf, UInt16.ofNat_toNat, ← getSlotNode_start hr] at hown
    rw [hown]
    exact h r hr

/-- The bytes of a range in the reply. -/
def writeEntry (sm : SlotManager) (getNode : String → Option NodeAddr) (r : SlotRange) : Bytes :=
  match getNode (sm.getSlotNode r.start) with
  | none => []
  | some node => writeRange r node

lemma parseRESP_clusterSlots_eq (sm : SlotManager) (getNode : String → Option NodeAddr) (rest : Bytes) :
    ∃ depth, parseRESP (clusterSlots sm getNode ++ rest) = (readItems (read (depth + 3)) sm.getClusterSlots.length
        (sm.getClusterSlots.flatMap (writeEntry sm getNode) ++ rest)).map fun r => (.array r.1, r.2) := by
  refine ⟨(clusterSlots sm getNode ++ rest).length - 3, ?_⟩
  have hlen : (clusterSlots sm getNode ++ rest).length + 1 = (clusterSlots sm getNode ++ rest).length - 3 + 3 + 1 := by
    have hheader := three_le_length_writeArray sm.getClusterSlots.length
    rw [clusterSlots, length_append, length_append]
    omega
  rw [parseRESP, hlen, ← read_writeArray_eq ((length_getClusterSlots_le sm).trans_lt (by decide)), ← append_assoc]
  rfl

lemma parseNodeSlots_of_read {reply : Bytes} {items : List Value} (h : parseRESP reply = .ok (.array items, [])) :
    parseNodeSlots reply = parseClusterSlots (.array items) := by
  rw [parseRESP] at h
  rw [parseNodeSlots, h]
  rfl

/-- A range as it is read, if its owner is known. -/
def entryValue (sm : SlotManager) (getNode : String → Option NodeAddr) (r : SlotRange) : Value :=
  match getNode (sm.getSlotNode r.start) with
  | none => .null
  | some node => rangeValue r node

section Known

variable (h : KnowsOwners sm getNode)
include h

lemma parseRESP_clusterSlots (rest : Bytes) : parseRESP (clusterSlots sm getNode ++ rest) =
      .ok (.array (sm.getClusterSlots.map (entryValue sm getNode)), rest) := by
  obtain ⟨depth, hread⟩ := parseRESP_clusterSlots_eq sm getNode rest
  have hitems : ∀ r ∈ sm.getClusterSlots, ∀ rest,
      read (depth + 3) (writeEntry sm getNode r ++ rest) = .ok (entryValue sm getNode r, rest) := by
    intro r hr rest
    obtain ⟨node, hnode⟩ := Option.isSome_iff_exists.1 (knowsOwners_iff.1 h r hr)
    simp only [writeEntry, entryValue, hnode]
    exact read_writeRange depth r node rest
  rw [hread, readItems_flatMap hitems, Except.map]

lemma parseClusterSlots_entries : parseClusterSlots (.array (sm.getClusterSlots.map (entryValue sm getNode))) =
      .ok ((assignedSlots sm).map Nat.cast) := by
  rw [assignedSlots, ← getClusterSlots_slots]
  refine parseEntries_ranges sm 0 fun r hr => ⟨getClusterSlots_owns hr, ?_⟩
  obtain ⟨node, hnode⟩ := Option.isSome_iff_exists.1 (knowsOwners_iff.1 h r hr)
  exact ⟨node, by simp only [entryValue, hnode]⟩

/-- **A node's reply is read as the assigned slots of the whole cluster.** -/
lemma parseNodeSlots_clusterSlots : parseNodeSlots (clusterSlots sm getNode) = .ok ((assignedSlots sm).map Nat.cast) := by
  have hread := parseRESP_clusterSlots h []
  rw [append_nil] at hread
  rw [parseNodeSlots_of_read hread, parseClusterSlots_entries h]

end Known

/-! ### Complete replies -/

/-- The bytes are one array with an item for every range the header counts, whatever follows them, and the
items list the assigned slots, each once. -/
def Complete (sm : SlotManager) (reply : Bytes) : Prop :=
  ∃ items, items.length = sm.getClusterSlots.length ∧
    (∀ rest, parseRESP (reply ++ rest) = .ok (.array items, rest)) ∧
    parseClusterSlots (.array items) = .ok ((assignedSlots sm).map Nat.cast)

/-- Where items are missing, the input ends before the last one is read. -/
lemma readItems_missing {depth count : ℕ} {ranges : List SlotRange} {result : List Value × Bytes}
    (h : (ranges.filter fun r => (getNode (sm.getSlotNode r.start)).isSome).length < count) :
    readItems (read (depth + 3)) count (ranges.flatMap (writeEntry sm getNode)) ≠ .ok result := by
  induction ranges generalizing count result with
  | nil =>
    obtain ⟨count, rfl⟩ : ∃ c, count = c + 1 := ⟨count - 1, (Nat.succ_pred_eq_of_pos h).symm⟩
    exact nofun
  | cons r ranges ih =>
    rw [flatMap_cons, writeEntry]
    cases hnode : getNode (sm.getSlotNode r.start) with
    | none =>
      rw [filter_cons_of_neg (by simp [hnode])] at h
      exact ih h
    | some node =>
      rw [filter_cons_of_pos (by simp [hnode]), length_cons] at h
      obtain ⟨count, rfl⟩ : ∃ c, count = c + 1 := ⟨count - 1, by omega⟩
      rw [readItems, read_writeRange]
      intro hread
      cases hrest : readItems (read (depth + 3)) count (ranges.flatMap (writeEntry sm getNode)) with
      | ok items => exact ih (by omega) hrest
      | error err =>
        dsimp only [bind, Except.bind] at hread
        rw [hrest] at hread
        cases hread

lemma knowsOwners_of_complete (h : Complete sm (clusterSlots sm getNode)) : KnowsOwners sm getNode := by
  obtain ⟨items, -, hread, -⟩ := h
  obtain ⟨depth, heq⟩ := parseRESP_clusterSlots_eq sm getNode []
  have hok := heq.symm.trans (hread [])
  rw [append_nil] at hok
  rw [knowsOwners_iff]
  by_contra hmissing
  push Not at hmissing
  cases hitems : readItems (read (depth + 3)) sm.getClusterSlots.length
      (sm.getClusterSlots.flatMap (writeEntry sm getNode)) with
  | ok result => exact readItems_missing (length_filter_lt_length_iff_exists.2 hmissing) hitems
  | error err =>
    rw [hitems] at hok
    cases hok

/-- **A reply is complete exactly if gossip knows the owner of every assigned slot.** -/
theorem complete_clusterSlots_iff (sm : SlotManager) (getNode : String → Option NodeAddr) :
    Complete sm (clusterSlots sm getNode) ↔
      ∀ slot < slotCount, (sm.slots slot).nodeID ≠ "" → (getNode (sm.slots slot).nodeID).isSome :=
  ⟨knowsOwners_of_complete, fun h => ⟨_, length_map .., parseRESP_clusterSlots h,
    parseClusterSlots_entries h⟩⟩

/-- **An owner that gossip has forgotten.** The reply announces a range and stops. -/
theorem clusterSlots_forgotten :
    ¬ Complete (new.setOwnerLocked 0 "n1") (clusterSlots (new.setOwnerLocked 0 "n1") fun _ => none) := by
  intro h
  exact absurd (knowsOwners_of_complete h 0 (by decide) (by decide)) (by decide)

end Reading

/-! ## What the operator makes of it -/

lemma getNodeSlots_of_answer {pod : Pod} {reply : Bytes} (h : pod.answer = .ok reply) :
    getNodeSlots pod = parseNodeSlots reply := by
  rw [getNodeSlots, h]
  rfl

/-- Every pod is noted for the slots, one after the other. -/
def merged (slots : List Int) (pods : List Pod) (m : GoMap Int String) : GoMap Int String :=
  pods.foldl (fun m pod => claimSlots pod.name slots m) m

lemma lookup_claimSlots {name : String} {slots : List Int} {m : GoMap Int String} {slot : Int} :
    (claimSlots name slots m).lookup slot = if slot ∈ slots then some name else m.lookup slot := by
  induction slots generalizing m with
  | nil => simp [claimSlots]
  | cons s slots ih =>
    change (claimSlots name slots (m.insert s name)).lookup slot = _
    rw [ih, GoMap.lookup_insert_eq]
    by_cases hs : slot = s <;> simp [hs]

lemma lookup_merged (slots : List Int) (pods : List Pod) (slot : Int) : (merged slots pods ∅).lookup slot =
      if slot ∈ slots then pods.getLast?.map Pod.name else none := by
  induction pods using reverseRecOn with
  | nil => simp [merged]
  | append_singleton pods pod ih =>
    have hsnoc : merged slots (pods ++ [pod]) ∅ = claimSlots pod.name slots (merged slots pods ∅) := by
      rw [merged, foldl_append]
      rfl
    rw [hsnoc, lookup_claimSlots, ih]
    split <;> simp

section Answers

variable {slots : List Int} {pods : List Pod}

section

variable (h : ∀ pod ∈ pods, getNodeSlots pod = .ok slots) (m : GoMap Int String)
include h m

/-- All pods give the same answer: the loop of `getCurrentSlotMap`. -/
lemma foldl_answers : pods.foldl (fun m pod =>
      if ¬ pod.Asked then m
      else
        match getNodeSlots pod with
        | .error _ => m
        | .ok slots => claimSlots pod.name slots m) m =
      merged slots (pods.filter fun pod => pod.Asked) m := by
  induction pods generalizing m with
  | nil => rfl
  | cons pod pods ih =>
    obtain ⟨hpod, hrest⟩ := forall_mem_cons.1 h
    rw [foldl_cons, ih hrest]
    by_cases hasked : pod.Asked
    · rw [if_neg (not_not.2 hasked), hpod, filter_cons_of_pos (by simpa using hasked)]
      rfl
    · rw [if_pos hasked, filter_cons_of_neg (by simpa using hasked)]

lemma ownersOf_answers : ownersOf pods m = .ok (merged slots pods m) := by
  induction pods generalizing m with
  | nil => rfl
  | cons pod pods ih =>
    obtain ⟨hpod, hrest⟩ := forall_mem_cons.1 h
    rw [ownersOf, hpod]
    exact ih hrest _

end

end Answers

/-- Pods whose nodes agree on the slots, know all owners and answer with what they know. -/
structure Deployment where
  slots : SlotManager
  pods : List Pod
  getNode : Pod → String → Option NodeAddr
  names_nodup : (pods.map Pod.name).Nodup
  ids_nodup : (pods.map Pod.nodeID).Nodup
  known : ∀ pod ∈ pods, ∀ slot < slotCount, (slots.slots slot).nodeID ≠ "" →
    (getNode pod (slots.slots slot).nodeID).isSome
  answers : ∀ pod ∈ pods, pod.answer = .ok (clusterSlots slots (getNode pod))

namespace Deployment

variable (d : Deployment)

/-- The pods that are asked, in the order of the list. -/
def asked : List Pod := d.pods.filter fun pod => pod.Asked

/-- The map assigns a pod to a slot exactly if the node of the pod owns the slot. -/
def Sees (owners : GoMap Int String) : Prop :=
  ∀ (slot : Int) (name : String), owners.lookup slot = some name ↔
    ∃ pod ∈ d.asked, pod.name = name ∧
      ∃ s < slotCount, slot = s.toNat ∧ (d.slots.slots s).nodeID ≠ "" ∧
        (d.slots.slots s).nodeID = pod.nodeID

/-- Every assigned slot belongs to the pod that is asked last. -/
def LastOwnsAll (pods : List Pod) : Prop :=
  ∀ s < slotCount, (d.slots.slots s).nodeID ≠ "" → ∀ last ∈ pods.getLast?,
    (d.slots.slots s).nodeID = last.nodeID

/-- The assigned slots, as the operator counts. -/
def assigned : List Int := (assignedSlots d.slots).map Nat.cast

variable {d}

lemma mem_assigned {slot : Int} : slot ∈ d.assigned ↔ ∃ s < slotCount, slot = s.toNat ∧ (d.slots.slots s).nodeID ≠ "" := by
  simp only [assigned, assignedSlots, mem_map, mem_filter, mem_range, decide_eq_true_iff]
  constructor
  · rintro ⟨n, ⟨hn, hown⟩, rfl⟩
    refine ⟨UInt16.ofNat n, ?_, ?_, hown⟩
    · rw [UInt16.lt_iff_toNat_lt, toNat_ofNat hn]
      exact hn
    · rw [toNat_ofNat hn]
  · rintro ⟨s, hs, rfl, hown⟩
    refine ⟨s.toNat, ⟨UInt16.lt_iff_toNat_lt.1 hs, ?_⟩, rfl⟩
    rw [ownerOf, UInt16.ofNat_toNat]
    exact hown

/-- **The merged map is right exactly if the last pod owns all.** -/
lemma sees_merged_iff {pods : List Pod} (hperm : pods.Perm d.asked) :
    d.Sees (merged d.assigned pods ∅) ↔ d.LastOwnsAll pods := by
  have hmem : ∀ pod ∈ d.asked, pod ∈ d.pods := fun pod hpod => mem_of_mem_filter hpod
  constructor
  · intro hsees s hs hown last hlast
    have hlastmem : last ∈ d.asked := hperm.mem_iff.1 (mem_of_getLast? hlast)
    have hlk : (merged d.assigned pods ∅).lookup (s.toNat : Int) = some last.name := by
      rw [lookup_merged, if_pos (mem_assigned.2 ⟨s, hs, rfl, hown⟩), hlast]
      rfl
    obtain ⟨pod, hpod, hname, s', hs', hslot, -, hnode⟩ := (hsees _ _).1 hlk
    have hsame : pod = last := inj_on_of_nodup_map d.names_nodup (hmem pod hpod) (hmem last hlastmem) hname
    have hs's : s' = s := UInt16.toNat_inj.1 (by exact_mod_cast hslot.symm)
    rw [← hs's, hnode, hsame]
  · intro hlast slot name
    rw [lookup_merged]
    constructor
    · intro hlk
      split at hlk
      · next hasg =>
        obtain ⟨s, hs, hslot, hown⟩ := mem_assigned.1 hasg
        obtain ⟨last, hl, hname⟩ := Option.map_eq_some_iff.1 hlk
        exact ⟨last, hperm.mem_iff.1 (mem_of_getLast? hl), hname, s, hs, hslot, hown, hlast s hs hown last hl⟩
      · cases hlk
    · rintro ⟨pod, hpod, rfl, s, hs, rfl, hown, hnode⟩
      rw [if_pos (mem_assigned.2 ⟨s, hs, rfl, hown⟩)]
      have hne : pods ≠ [] := ne_nil_of_mem (hperm.mem_iff.2 hpod)
      obtain ⟨last, hl⟩ := Option.isSome_iff_exists.1 (getLast?_isSome.2 hne)
      have hlastmem : last ∈ d.asked := hperm.mem_iff.1 (mem_of_getLast? hl)
      have hsame : pod = last := inj_on_of_nodup_map d.ids_nodup (hmem pod hpod)
        (hmem last hlastmem) (hnode.symm.trans (hlast s hs hown last hl))
      rw [hl, hsame]
      rfl

lemma getNodeSlots_pod {pod : Pod} (hpod : pod ∈ d.pods) : getNodeSlots pod = .ok d.assigned :=
  (getNodeSlots_of_answer (d.answers pod hpod)).trans (parseNodeSlots_clusterSlots (d.known pod hpod))

lemma getCurrentSlotMap_eq : getCurrentSlotMap d.pods = merged d.assigned d.asked ∅ :=
  foldl_answers (fun _ => getNodeSlots_pod) ∅

lemma listReadyPods_perm : (listReadyPods d.pods).Perm d.asked := perm_insertionSort _ _

lemma currentOwnerBySlot_eq : currentOwnerBySlot d.pods = .ok (merged d.assigned (listReadyPods d.pods) ∅) :=
  ownersOf_answers (fun _ hpod => getNodeSlots_pod (mem_of_mem_filter (listReadyPods_perm.mem_iff.1 hpod))) ∅

/-- **The owners the operator sees.** Both maps that it builds are right exactly when every assigned slot
belongs to the pod that was asked last: the last of the list, and the last in the order of the names. -/
theorem sees_owners_iff (d : Deployment) :
    (d.Sees (getCurrentSlotMap d.pods) ∧
      ∃ owners, currentOwnerBySlot d.pods = .ok owners ∧ d.Sees owners) ↔
      d.LastOwnsAll d.asked ∧ d.LastOwnsAll (listReadyPods d.pods) := by
  rw [getCurrentSlotMap_eq, sees_merged_iff (List.Perm.refl _), currentOwnerBySlot_eq,
    ← sees_merged_iff listReadyPods_perm]
  refine and_congr_right' ⟨?_, fun h => ⟨_, rfl, h⟩⟩
  rintro ⟨owners, howners, h⟩
  cases howners
  exact h

/-! ## Two pods -/

/-- Slot 0 belongs to `n1`. -/
def firstSlot : SlotManager where
  slots := Function.update SlotManager.new.slots 0 { nodeID := "n1", primaryID := "n1" }
  nodeSlots := (∅ : GoMap String (List UInt16)).insert "n1" [0]

def someAddr : NodeAddr := ⟨[], 6379, [], by decide, by decide, by decide⟩

/-- A ready pod that knows an address for everyone. -/
def readyPod (name podIP nodeID : String) : Pod :=
  ⟨name, true, podIP, nodeID, .ok (clusterSlots firstSlot fun _ => some someAddr)⟩

/-- The node of `pod-0` owns slot 0, that of `pod-1` nothing. -/
def twoPods : Deployment where
  slots := firstSlot
  pods := [readyPod "pod-0" "10.0.0.1" "n1", readyPod "pod-1" "10.0.0.2" "n2"]
  getNode _ _ := some someAddr
  names_nodup := by simp [readyPod]
  ids_nodup := by simp [readyPod]
  known _ _ _ _ _ := rfl
  answers pod hpod := by
    rcases List.mem_cons.1 hpod with rfl | hpod
    · rfl
    · rw [List.mem_singleton.1 hpod]
      rfl

/-- **The operator takes the wrong pod for the owner.** Both nodes answer that slot 0 belongs to `n1`; the
operator notes it for `pod-1`, which it asked last. -/
theorem operator_sees_wrong_owner :
    (twoPods.slots.slots 0).nodeID = "n1" ∧
      (getCurrentSlotMap twoPods.pods).lookup 0 = some "pod-1" ∧
      ¬ twoPods.Sees (getCurrentSlotMap twoPods.pods) := by
  have hasked : twoPods.asked = twoPods.pods := by
    simp [asked, twoPods, readyPod, Pod.Asked]
  have hasg : (0 : Int) ∈ twoPods.assigned := mem_assigned.2 ⟨0, by decide, rfl, by decide⟩
  have hlk : (getCurrentSlotMap twoPods.pods).lookup 0 = some "pod-1" := by
    rw [getCurrentSlotMap_eq, lookup_merged, if_pos hasg, hasked]
    rfl
  refine ⟨rfl, hlk, fun hsees => ?_⟩
  obtain ⟨pod, hpod, hname, s, hs, hslot, -, hnode⟩ := (hsees 0 "pod-1").1 hlk
  have hs0 : s = 0 := UInt16.toNat_inj.1 (by exact_mod_cast hslot.symm)
  subst hs0
  rcases mem_cons.1 hpod with rfl | hpod
  · simp [readyPod] at hname
  · rw [mem_singleton.1 hpod] at hnode
    simp [twoPods, firstSlot, readyPod] at hnode

end Deployment

end AutoCache.Controllers
