import AutoCache.Lib.Turns
import AutoCache.Replication.Log

/-!
# Concurrent writes of one slot

`ApplyWrite` takes a different lock for each of its steps, so the steps of concurrent calls
interleave: the callback (`req.Apply`), the allocation of a number, the append, the dispatch. A
schedule lists which call takes each turn, and `Writers.run` plays it.

The log accepts numbers in order and refuses the others, and a refused number is never given
again. So what the calls need is that they come in the same order at each of the three steps
(`stepOrder`); then the log shows the order of the callbacks, and otherwise some call fails, the
log is in another order, or the slot stops accepting writes.
-/

namespace AutoCache.Replication

open Cluster List Manager Function UInt64

/-! ## Calls in flight -/

/-- Where a call of `ApplyWrite` stands. -/
inductive Phase where
  | start
  /-- The callback succeeded. -/
  | applied
  | allocated (op : Op)
  | appended (op : Op)
  | done (result : Except (WriteError Unit) Op)

/-- The calls by number, and what they share. -/
structure Writers where
  manager : Manager
  calls : ℕ → Phase

namespace Writers

def start (m : Manager) : Writers := { manager := m, calls := fun _ => .start }

def returnedOp (w : Writers) (i : ℕ) : Option Op :=
  match w.calls i with
  | .done (.ok op) => some op
  | _ => none

def Finished (w : Writers) (i : ℕ) : Prop := ∃ result, w.calls i = .done result

def goTo (w : Writers) (i : ℕ) (phase : Phase) : Writers :=
  { w with calls := update w.calls i phase }

variable (reqs : ℕ → WriteRequest) (applies : ℕ → Bool)

/-- Call `i` takes its next step. `applies i` says whether its callback succeeds; a call that has
returned does nothing. -/
def turn (w : Writers) (i : ℕ) : Writers :=
  match w.calls i with
  | .start => if applies i then w.goTo i .applied else w.goTo i (.done (.error (.apply ())))
  | .applied =>
    match w.manager.slots.allocateLSN (reqs i).slot with
    | .error err => w.goTo i (.done (.error (.allocate (reqs i).slot err)))
    | .ok (slots, epoch, lsn) =>
      { w with manager := { w.manager with slots := slots } }.goTo i
        (.allocated ((reqs i).op epoch lsn))
  | .allocated op =>
    match w.manager.logs.append op with
    | .error err => w.goTo i (.done (.error (.append err)))
    | .ok logs => { w with manager := { w.manager with logs := logs } }.goTo i (.appended op)
  -- the dispatch sends the operation and touches neither the slots nor the log
  | .appended op => w.goTo i (.done (.ok op))
  | .done _ => w

def run (w : Writers) (sched : List ℕ) : Writers := sched.foldl (turn reqs applies) w

@[simp] lemma run_concat (w : Writers) (sched : List ℕ) (i : ℕ) :
    w.run reqs applies (sched ++ [i]) = (w.run reqs applies sched).turn reqs applies i := by
  simp [run]

/-- The calls whose callback succeeds, in the order in which they took step `k`: `0` is the
callback, `1` the allocation, `2` the append. -/
def stepOrder (k : ℕ) (sched : List ℕ) : List ℕ := (turnOrder k sched).filter applies

/-- **What concurrent writes should leave behind.** Every call whose callback succeeded returned
its operation; these operations, in the order of the callbacks, end the slot's log; and the slot
takes the next write. -/
structure LoggedInOrder (m : Manager) (slot : UInt16) (sched : List ℕ) (w : Writers) : Prop where
  returned : ∀ i ∈ sched, applies i = true → ∃ op, w.calls i = .done (.ok op)
  logged : ∃ kept, kept <:+ m.logs.log slot ∧
    w.manager.logs.log slot = kept ++ (stepOrder applies 0 sched).filterMap w.returnedOp
  next : ∀ req : WriteRequest, req.slot = slot → ∃ op m',
    w.manager.applyWrite (ε := Unit) req (fun s => pure (none, s)) () = .ok (.ok op, m', ())

/-! ## Orders -/

section Orders

variable {applies} {k : ℕ} {sched : List ℕ} {i : ℕ}

lemma stepOrder_concat : stepOrder applies k (sched ++ [i]) =
    if applies i = true ∧ sched.count i = k then stepOrder applies k sched ++ [i]
    else stepOrder applies k sched := by
  simp only [stepOrder, turnOrder_concat]
  by_cases hk : sched.count i = k
  · by_cases hi : applies i = true <;> simp [hk, hi]
  · simp [hk]

lemma mem_stepOrder : i ∈ stepOrder applies k sched ↔ k < sched.count i ∧ applies i = true := by
  rw [stepOrder, mem_filter, mem_turnOrder]

lemma nodup_stepOrder : (stepOrder applies k sched).Nodup := nodup_turnOrder.filter _

lemma stepOrder_concat_of_ne (h : ¬(applies i = true ∧ sched.count i = k)) :
    stepOrder applies k (sched ++ [i]) = stepOrder applies k sched := by
  rw [stepOrder_concat, if_neg h]

lemma stepOrder_concat_of_eq (hi : applies i = true) (hk : sched.count i = k) :
    stepOrder applies k (sched ++ [i]) = stepOrder applies k sched ++ [i] := by
  rw [stepOrder_concat, if_pos ⟨hi, hk⟩]

end Orders

/-! ## The invariant of a run -/

/-- The operation of call `i`, when the allocations so far came in the order `order`. -/
def opOf (m : Manager) (slot : UInt16) (order : List ℕ) (i : ℕ) : Op :=
  (reqs i).op (m.slots.slots slot).configEpoch
    (m.logs.lastLSN slot + ofNat (order.idxOf i + 1))

/-- Where call `i` stands after `turns` turns; `ops` are the operations and `accepted` the calls
whose append the log took. -/
inductive Expected (ops : ℕ → Op) (accepted : List ℕ) (i : ℕ) : ℕ → Phase → Prop
  | start : Expected ops accepted i 0 .start
  | failed {turns : ℕ} (h : applies i = false) (err : WriteError Unit) :
      Expected ops accepted i (turns + 1) (.done (.error err))
  | applied (h : applies i = true) : Expected ops accepted i 1 .applied
  | allocated (h : applies i = true) : Expected ops accepted i 2 (.allocated (ops i))
  | appended (h : applies i = true) (ha : i ∈ accepted) :
      Expected ops accepted i 3 (.appended (ops i))
  | returned {turns : ℕ} (h : applies i = true) (ha : i ∈ accepted) :
      Expected ops accepted i (turns + 4) (.done (.ok (ops i)))
  | refused {turns : ℕ} (h : applies i = true) (ha : i ∉ accepted) (err : WriteError Unit) :
      Expected ops accepted i (turns + 3) (.done (.error err))

variable {reqs applies}

lemma Expected.frame {ops ops' : ℕ → Op} {acc acc' : List ℕ} {i turns : ℕ} {p : Phase}
    (h : Expected applies ops acc i turns p)
    (hop : 1 < turns → applies i = true → ops' i = ops i) (hacc : i ∈ acc' ↔ i ∈ acc) :
    Expected applies ops' acc' i turns p := by
  cases h with
  | start => exact .start
  | failed h err => exact .failed h err
  | applied h => exact .applied h
  | allocated h =>
    rw [← hop (by omega) h]
    exact .allocated h
  | appended h ha =>
    rw [← hop (by omega) h]
    exact .appended h (hacc.2 ha)
  | returned h ha =>
    rw [← hop (by omega) h]
    exact .returned h (hacc.2 ha)
  | refused h ha err => exact .refused h (fun hm => ha (hacc.1 hm)) err

/-- **The invariant.** Allocations move the counter and accepted appends move the log; the
accepted calls carry consecutive numbers. As long as the appends follow the allocations, every
append was accepted. -/
structure Inv (reqs : ℕ → WriteRequest) (applies : ℕ → Bool) (m : Manager) (slot : UInt16)
    (sched accepted : List ℕ) (w : Writers) : Prop where
  epoch : (w.manager.slots.slots slot).configEpoch = (m.slots.slots slot).configEpoch
  owner : (w.manager.slots.slots slot).nodeID = (m.slots.slots slot).nodeID
  limit : w.manager.logs.limit = m.logs.limit
  nextLSN : (w.manager.slots.slots slot).nextLSN =
    m.logs.lastLSN slot + ofNat (stepOrder applies 1 sched).length
  last : w.manager.logs.lastLSN slot = m.logs.lastLSN slot + ofNat accepted.length
  log : w.manager.logs.log slot =
    (m.logs.log slot ++ accepted.map (opOf reqs m slot (stepOrder applies 1 sched))).rtake
      m.logs.limit
  sublist : accepted.Sublist (stepOrder applies 2 sched)
  numbers : accepted.map (fun i => ofNat ((stepOrder applies 1 sched).idxOf i + 1)) =
    (List.range accepted.length).map fun j => ofNat (j + 1)
  phase : ∀ i, Expected applies (opOf reqs m slot (stepOrder applies 1 sched)) accepted i
    (sched.count i) (w.calls i)
  inOrder : stepOrder applies 2 sched <+: stepOrder applies 1 sched →
    accepted = stepOrder applies 2 sched

variable {m : Manager} {slot : UInt16} {sched accepted : List ℕ} {w : Writers} {i : ℕ}

lemma ofNat_succ (n : ℕ) : ofNat (n + 1) = ofNat n + 1 := ofNat_add n 1

lemma opOf_concat {order : List ℕ} {j : ℕ} (hj : j ∈ order) :
    opOf reqs m slot (order ++ [i]) j = opOf reqs m slot order j := by
  rw [opOf, opOf, idxOf_append_of_mem hj]

lemma rtake_rtake_concat {α : Type} {n : ℕ} (hn : 0 < n) (l : List α) (a : α) :
    (l.rtake n ++ [a]).rtake n = (l ++ [a]).rtake n := by
  obtain ⟨k, rfl⟩ : ∃ k, n = k + 1 := ⟨n - 1, by omega⟩
  rw [rtake_concat_succ, rtake_concat_succ]
  simp only [rtake_eq_reverse_take_reverse, reverse_reverse, take_take]
  rw [Nat.min_eq_left (by omega)]

/-- A schedule one turn longer: the phases of the others are framed, that of the call itself is
given. -/
lemma expected_turn {ops ops' : ℕ → Op} {acc acc' : List ℕ} {calls : ℕ → Phase} {p : Phase}
    (h : ∀ j, Expected applies ops acc j (sched.count j) (calls j))
    (hop : ∀ j, j ≠ i → 1 < sched.count j → applies j = true → ops' j = ops j)
    (hacc : ∀ j, j ≠ i → (j ∈ acc' ↔ j ∈ acc))
    (hi : Expected applies ops' acc' i (sched.count i + 1) p) (j : ℕ) :
    Expected applies ops' acc' j ((sched ++ [i]).count j) (update calls i p j) := by
  by_cases hj : j = i
  · subst hj
    simpa using hi
  · have hcnt : (sched ++ [i]).count j = sched.count j := by
      simp [Ne.symm hj]
    rw [hcnt, update_of_ne hj]
    exact (h j).frame (hop j hj) (hacc j hj)

namespace Inv

lemma of_start (hstep : m.InStep slot) : Inv reqs applies m slot [] [] (start m) where
  epoch := rfl
  owner := rfl
  limit := rfl
  nextLSN := by
    rw [show (start m).manager = m from rfl, show (m.slots.slots slot).nextLSN = _ from hstep]
    simp [stepOrder]
  last := by simp [start]
  log := by
    have hlen := m.logs.log_length_le slot
    simp [start, rtake, Nat.sub_eq_zero_of_le hlen]
  sublist := by simp [stepOrder]
  numbers := rfl
  phase i := .start
  inOrder _ := rfl

section

variable (h : Inv reqs applies m slot sched accepted w)
include h

lemma mem_allocated {j : ℕ} (hj : j ∈ accepted) : j ∈ stepOrder applies 1 sched := by
  have hmem := mem_stepOrder.1 (h.sublist.subset hj)
  exact mem_stepOrder.2 ⟨by omega, hmem.2⟩

/-- A turn that leaves the slots and the log alone, and allocates nothing. -/
lemma of_goTo {p : Phase} (h1 : stepOrder applies 1 (sched ++ [i]) = stepOrder applies 1 sched)
    (hsub : accepted.Sublist (stepOrder applies 2 (sched ++ [i])))
    (hord : stepOrder applies 2 (sched ++ [i]) <+: stepOrder applies 1 sched → accepted = stepOrder applies 2 (sched ++ [i]))
    (hp : Expected applies (opOf reqs m slot (stepOrder applies 1 sched)) accepted i (sched.count i + 1) p) :
    Inv reqs applies m slot (sched ++ [i]) accepted (w.goTo i p) := by
  refine { h with nextLSN := ?_, log := ?_, sublist := hsub, numbers := ?_, phase := ?_, inOrder := ?_ } <;> rw [h1]
  · exact h.nextLSN
  · exact h.log
  · exact h.numbers
  · exact expected_turn h.phase (fun _ _ _ _ => rfl) (fun _ _ => Iff.rfl) hp
  · exact hord

section

variable (h1 : ¬(applies i = true ∧ sched.count i = 1)) (h2 : ¬(applies i = true ∧ sched.count i = 2))
include h1 h2

lemma of_phase {p : Phase}
    (hp : Expected applies (opOf reqs m slot (stepOrder applies 1 sched)) accepted i (sched.count i + 1) p) :
    Inv reqs applies m slot (sched ++ [i]) accepted (w.goTo i p) := by
  have h2' := stepOrder_concat_of_ne h2
  exact h.of_goTo (stepOrder_concat_of_ne h1) (h2' ▸ h.sublist) (h2' ▸ h.inOrder) hp

lemma of_idle (hp : Expected applies (opOf reqs m slot (stepOrder applies 1 sched)) accepted i
      (sched.count i + 1) (w.calls i)) :
    Inv reqs applies m slot (sched ++ [i]) accepted w := by
  have hw : w.goTo i (w.calls i) = w := by
    rw [goTo, update_eq_self]
  rw [← hw]
  exact h.of_phase h1 h2 hp

end

lemma of_allocate (hi : applies i = true) (hcnt : sched.count i = 1) {slots : SlotManager}
    (hsl : slots.slots = update w.manager.slots.slots slot
      { w.manager.slots.slots slot with nextLSN := (w.manager.slots.slots slot).nextLSN + 1 }) :
    Inv reqs applies m slot (sched ++ [i]) accepted
      ({ w with manager := { w.manager with slots := slots } }.goTo i
        (.allocated ((reqs i).op (w.manager.slots.slots slot).configEpoch
          ((w.manager.slots.slots slot).nextLSN + 1)))) := by
  have h1 := stepOrder_concat_of_eq hi hcnt
  have h2 : stepOrder applies 2 (sched ++ [i]) = stepOrder applies 2 sched :=
    stepOrder_concat_of_ne (by omega)
  have hnot : i ∉ stepOrder applies 1 sched := fun hm => by
    have := (mem_stepOrder.1 hm).1
    omega
  -- the number given out is the one of position `|order|`
  have hop : (reqs i).op (w.manager.slots.slots slot).configEpoch
      ((w.manager.slots.slots slot).nextLSN + 1) =
        opOf reqs m slot (stepOrder applies 1 sched ++ [i]) i := by
    rw [opOf, idxOf_append_of_notMem hnot, idxOf_cons_self, h.epoch, h.nextLSN,
      ofNat_succ, UInt64.add_assoc]
  refine
    { epoch := ?_, owner := ?_, limit := h.limit, nextLSN := ?_, last := h.last, log := ?_,
      sublist := ?_, numbers := ?_, phase := ?_, inOrder := ?_ }
  · simp only [goTo, hsl, update_self]
    exact h.epoch
  · simp only [goTo, hsl, update_self]
    exact h.owner
  · simp only [goTo, hsl, update_self]
    rw [h1, h.nextLSN, length_append, length_singleton, ofNat_succ, UInt64.add_assoc]
  · rw [h1, map_congr_left fun j hj => opOf_concat (h.mem_allocated hj)]
    exact h.log
  · rw [h2]
    exact h.sublist
  · rw [h1, ← h.numbers]
    apply map_congr_left
    intro j hj
    rw [idxOf_append_of_mem (h.mem_allocated hj)]
  · rw [h1]
    refine expected_turn h.phase ?_ (fun _ _ => Iff.rfl) ?_
    · intro j _ hj happ
      exact opOf_concat (mem_stepOrder.2 ⟨hj, happ⟩)
    · rw [hcnt, hop]
      exact .allocated hi
  · rw [h1, h2]
    intro hpre
    rcases prefix_concat_iff.1 hpre with heq | hpre
    · have hmem : i ∈ stepOrder applies 2 sched := by simp [heq]
      have := (mem_stepOrder.1 hmem).1
      omega
    · exact h.inOrder hpre

lemma of_append (hi : applies i = true) (hcnt : sched.count i = 2) (hreq : (reqs i).slot = slot)
    {logs : LogStore}
    (happ : w.manager.logs.append (opOf reqs m slot (stepOrder applies 1 sched) i) = .ok logs) :
    Inv reqs applies m slot (sched ++ [i]) (accepted ++ [i])
      ({ w with manager := { w.manager with logs := logs } }.goTo i
        (.appended (opOf reqs m slot (stepOrder applies 1 sched) i))) := by
  have h1 : stepOrder applies 1 (sched ++ [i]) = stepOrder applies 1 sched :=
    stepOrder_concat_of_ne (by omega)
  have h2 := stepOrder_concat_of_eq hi hcnt
  have hslot : (opOf reqs m slot (stepOrder applies 1 sched) i).slot = slot := hreq
  have hnext := LogStore.append_ok_iff.1 ⟨logs, happ⟩
  have ha := LogStore.appended_of_append happ
  rw [hslot, h.last, UInt64.add_assoc, ← ofNat_succ] at hnext
  have hnumber : UInt64.ofNat ((stepOrder applies 1 sched).idxOf i + 1) =
      UInt64.ofNat (accepted.length + 1) := (UInt64.add_right_inj _).1 hnext
  refine
    { epoch := h.epoch, owner := h.owner, limit := ha.limit.trans h.limit, nextLSN := ?_,
      last := ?_, log := ?_, sublist := ?_, numbers := ?_, phase := ?_, inOrder := ?_ }
  · rw [h1]
    exact h.nextLSN
  · have hlast := ha.last
    rw [hslot, hnext] at hlast
    rw [length_append, length_singleton]
    exact hlast
  · have hlog := ha.log
    rw [hslot, h.log, h.limit, rtake_rtake_concat m.logs.limit_pos] at hlog
    rw [h1, map_append, ← append_assoc]
    exact hlog
  · rw [h2]
    exact h.sublist.append (List.Sublist.refl [i])
  · rw [h1, map_append, h.numbers, length_append, length_singleton,
      range_succ, map_append, map_singleton, map_singleton, hnumber]
  · rw [h1]
    refine expected_turn h.phase (fun _ _ _ _ => rfl) ?_ ?_
    · intro j hj
      simp [hj]
    · rw [hcnt]
      exact .appended hi (by simp)
  · rw [h1, h2]
    intro hpre
    rw [h.inOrder ((prefix_append _ _).trans hpre)]

/-- The append step, when the log refuses: then the appends have left the order of the
allocations. -/
lemma of_refuse (hi : applies i = true) (hcnt : sched.count i = 2) (hreq : (reqs i).slot = slot) {err : AppendError}
    (happ : w.manager.logs.append (opOf reqs m slot (stepOrder applies 1 sched) i) = .error err) :
    Inv reqs applies m slot (sched ++ [i]) accepted (w.goTo i (.done (.error (.append err)))) := by
  have h1 : stepOrder applies 1 (sched ++ [i]) = stepOrder applies 1 sched :=
    stepOrder_concat_of_ne (by omega)
  have h2 := stepOrder_concat_of_eq hi hcnt
  have hnot : i ∉ accepted := fun hm => by
    have := (mem_stepOrder.1 (h.sublist.subset hm)).1
    omega
  refine h.of_goTo h1 ?_ (h2 ▸ fun hpre => ?_) (by rw [hcnt]; exact .refused hi hnot _)
  · rw [h2]
    exact h.sublist.trans (sublist_append_left _ _)
  · -- in order, `i` would hold the number after the last accepted one
    have hacc := h.inOrder ((prefix_append _ _).trans hpre)
    have hidx : (stepOrder applies 1 sched).idxOf i = accepted.length := by
      obtain ⟨rest, hrest⟩ := hpre
      rw [← hrest, ← hacc, append_assoc, idxOf_append_of_notMem hnot]
      simp
    have hok : ∃ logs, w.manager.logs.append (opOf reqs m slot (stepOrder applies 1 sched) i) = .ok logs := by
      apply LogStore.append_ok_iff.2
      rw [show (opOf reqs m slot (stepOrder applies 1 sched) i).slot = slot from hreq, h.last,
        UInt64.add_assoc, ← ofNat_succ, ← hidx]
      rfl
    obtain ⟨logs, hlogs⟩ := hok
    rw [happ] at hlogs
    cases hlogs

/-- **Step lemma.** -/
theorem turn (hslot : slot < slotCount) (howner : (m.slots.slots slot).nodeID ≠ "") (hreq : (reqs i).slot = slot) :
    ∃ accepted', Inv reqs applies m slot (sched ++ [i]) accepted' (w.turn reqs applies i) := by
  have hp := h.phase i
  unfold Writers.turn
  generalize hc : sched.count i = turns at hp
  generalize hw : w.calls i = phase at hp
  cases hp with
  | start =>
    by_cases hi : applies i = true
    · refine ⟨accepted, ?_⟩
      simp only [hi, if_true]
      exact h.of_phase (by omega) (by omega) (by rw [hc]; exact .applied hi)
    · refine ⟨accepted, ?_⟩
      simp only [hi]
      exact h.of_phase (by omega) (by omega) (by rw [hc]; exact .failed (by simpa using hi) _)
  | failed hi err =>
    exact ⟨accepted, h.of_idle (by simp [hi]) (by simp [hi]) (by rw [hc, hw]; exact .failed hi err)⟩
  | applied hi =>
    rw [← h.owner] at howner
    rw [hreq]
    simp only [SlotManager.allocateLSN_of_assigned hslot howner]
    exact ⟨accepted, h.of_allocate hi hc rfl⟩
  | allocated hi =>
    cases happ : w.manager.logs.append (opOf reqs m slot (stepOrder applies 1 sched) i) with
    | ok logs =>
      simp only [happ]
      exact ⟨accepted ++ [i], h.of_append hi hc hreq happ⟩
    | error err =>
      simp only [happ]
      exact ⟨accepted, h.of_refuse hi hc hreq happ⟩
  | appended hi ha =>
    exact ⟨accepted, h.of_phase (by omega) (by omega) (by rw [hc]; exact .returned hi ha)⟩
  | returned hi ha =>
    exact ⟨accepted, h.of_idle (by omega) (by omega) (by rw [hc, hw]; exact .returned hi ha)⟩
  | refused hi ha err =>
    exact ⟨accepted, h.of_idle (by omega) (by omega) (by rw [hc, hw]; exact .refused hi ha err)⟩

end

/-- **Run lemma.** -/
theorem run (applies : ℕ → Bool) (hslot : slot < slotCount) (howner : (m.slots.slots slot).nodeID ≠ "")
    (hstep : m.InStep slot) (hreq : ∀ i, (reqs i).slot = slot) (sched : List ℕ) :
    ∃ accepted, Inv reqs applies m slot sched accepted ((start m).run reqs applies sched) := by
  induction sched using reverseRecOn with
  | nil => exact ⟨[], of_start hstep⟩
  | append_singleton sched i ih =>
    obtain ⟨accepted, h⟩ := ih
    rw [run_concat]
    exact h.turn hslot howner (hreq i)

/-! ## When all calls have returned -/

section

variable (h : Inv reqs applies m slot sched accepted w)
include h

/-- A finished call whose callback succeeded went as far as its append, and returned its operation
exactly if that was accepted. -/
lemma finished_cases (hfin : w.Finished i) (hi : applies i = true) : 2 < sched.count i ∧ ((i ∈ accepted ∧
          w.calls i = .done (.ok (opOf reqs m slot (stepOrder applies 1 sched) i))) ∨
        i ∉ accepted ∧ ∃ err, w.calls i = .done (.error err)) := by
  obtain ⟨result, hres⟩ := hfin
  have hp := h.phase i
  rw [hres] at hp ⊢
  generalize sched.count i = turns at hp ⊢
  cases hp with
  | failed hf err => simp [hf] at hi
  | returned _ ha => exact ⟨by omega, .inl ⟨ha, rfl⟩⟩
  | refused _ ha err => exact ⟨by omega, .inr ⟨ha, err, rfl⟩⟩

lemma perm_stepOrder (hfin : ∀ i ∈ sched, w.Finished i) {k l : ℕ} (hk : k ≤ 2) (hl : l ≤ 2) :
    (stepOrder applies k sched).Perm (stepOrder applies l sched) := by
  have key : ∀ n ≤ 2, ∀ i, i ∈ stepOrder applies n sched ↔ i ∈ sched ∧ applies i = true := by
    intro n hn i
    rw [mem_stepOrder]
    constructor
    · rintro ⟨hc, hi⟩
      exact ⟨count_pos_iff.1 (by omega), hi⟩
    · rintro ⟨hs, hi⟩
      exact ⟨by have := (h.finished_cases (hfin i hs) hi).1; omega, hi⟩
  rw [perm_ext_iff_of_nodup nodup_stepOrder nodup_stepOrder]
  intro i
  rw [key k hk, key l hl]

lemma filterMap_returnedOp (hfin : ∀ i ∈ sched, w.Finished i) (hall : ∀ i ∈ stepOrder applies 0 sched, i ∈ accepted) :
    (stepOrder applies 0 sched).filterMap w.returnedOp =
      (stepOrder applies 0 sched).map (opOf reqs m slot (stepOrder applies 1 sched)) := by
  rw [← filterMap_eq_map]
  apply filterMap_congr
  intro i hi
  obtain ⟨hc, happ⟩ := mem_stepOrder.1 hi
  rcases (h.finished_cases (hfin i (count_pos_iff.1 hc)) happ).2 with ⟨-, hcall⟩ | ⟨hn, -⟩
  · simp [returnedOp, hcall]
  · exact absurd (hall i hi) hn

end

end Inv

lemma rtake_append {α : Type} {n : ℕ} (l : List α) {e : List α} (he : e.length ≤ n) :
    (l ++ e).rtake n = l.rtake (n - e.length) ++ e := by
  have hall : e.reverse.take n = e.reverse := take_of_length_le (by simpa using he)
  simp only [rtake_eq_reverse_take_reverse, reverse_append, take_append, length_reverse, hall, reverse_reverse]

/-- A list of calls that carries the consecutive numbers is the order of the allocations. -/
lemma eq_of_numbers {order calls : List ℕ} (hperm : calls.Perm order) (hlen : order.length < 2 ^ 64)
    (h : calls.map (fun i => ofNat (order.idxOf i + 1)) =
      (List.range calls.length).map fun j => ofNat (j + 1)) : calls = order := by
  apply ext_getElem hperm.length_eq
  intro j hj hj'
  have hidx : order.idxOf calls[j] < order.length :=
    idxOf_lt_length_iff.2 (hperm.subset (getElem_mem hj))
  have hnum : ofNat (order.idxOf calls[j] + 1) = ofNat (j + 1) := by
    have := congrArg (fun l => l[j]?) h
    simpa [hj] using this
  have heq : order.idxOf calls[j] = j := by
    have := congrArg toNat hnum
    rw [toNat_ofNat', toNat_ofNat', Nat.mod_eq_of_lt (by omega), Nat.mod_eq_of_lt (by omega)] at this
    omega
  have hget := getElem_idxOf hidx
  simp only [heq] at hget
  exact hget.symm

/-- **Concurrent writes of a slot.** When all calls on an assigned slot, whose allocator and log
were in step, have returned, they are logged in order and the slot takes further writes exactly
if the calls came in one order at the callback, the allocation and the append, and the log is
long enough to hold them. -/
theorem loggedInOrder_iff (hslot : slot < slotCount) (howner : (m.slots.slots slot).nodeID ≠ "")
    (hstep : m.InStep slot) (hreq : ∀ i, (reqs i).slot = slot)
    (hfin : ∀ i ∈ sched, ((start m).run reqs applies sched).Finished i) :
    LoggedInOrder applies m slot sched ((start m).run reqs applies sched) ↔
      stepOrder applies 0 sched = stepOrder applies 1 sched ∧
      stepOrder applies 1 sched = stepOrder applies 2 sched ∧
      (stepOrder applies 0 sched).length ≤ m.logs.limit := by
  obtain ⟨accepted, h⟩ := Inv.run applies hslot howner hstep hreq sched
  generalize (start m).run reqs applies sched = w at h hfin
  have hlen01 := (h.perm_stepOrder hfin (k := 0) (l := 1) (by omega) (by omega)).length_eq
  have hlen02 := (h.perm_stepOrder hfin (k := 0) (l := 2) (by omega) (by omega)).length_eq
  have hlim := m.logs.limit_lt
  constructor
  · rintro ⟨hret, ⟨kept, -, hlog⟩, -⟩
    -- no append was refused
    have hall : ∀ i, i ∈ sched → applies i = true → i ∈ accepted := by
      intro i hi happ
      rcases (h.finished_cases (hfin i hi) happ).2 with ⟨ha, -⟩ | ⟨-, err, herr⟩
      · exact ha
      · obtain ⟨op, hop⟩ := hret i hi happ
        rw [herr] at hop
        cases hop
    have hsub : ∀ k, ∀ i ∈ stepOrder applies k sched, i ∈ accepted := by
      intro k i hi
      obtain ⟨hc, happ⟩ := mem_stepOrder.1 hi
      exact hall i (count_pos_iff.1 (by omega)) happ
    have hacc : accepted = stepOrder applies 2 sched :=
      h.sublist.eq_of_length_le (subperm_of_subset nodup_stepOrder (hsub 2)).length_le
    rw [h.filterMap_returnedOp hfin (hsub 0)] at hlog
    have hle : (stepOrder applies 0 sched).length ≤ m.logs.limit := by
      have := congrArg length hlog
      have hb := w.manager.logs.log_length_le slot
      rw [length_append, length_map] at this
      rw [h.limit] at hb
      omega
    -- the end of the log is the appends, and it is the callbacks
    rw [h.log, hacc, rtake_append _ (by rw [length_map]; omega)] at hlog
    have hends := (append_inj' hlog (by rw [length_map, length_map]; omega)).2
    have hnums := h.numbers
    rw [hacc] at hnums
    have h2 := eq_of_numbers (h.perm_stepOrder hfin (by omega) (by omega)) (by omega) hnums
    have h0 : stepOrder applies 0 sched = stepOrder applies 1 sched := by
      apply eq_of_numbers (h.perm_stepOrder hfin (by omega) (by omega)) (by omega)
      rw [hlen02, ← hnums]
      have hsub : ∀ n : UInt64, m.logs.lastLSN slot + n - m.logs.lastLSN slot = n := fun n => by
        rw [UInt64.add_comm, UInt64.add_sub_cancel]
      have hlsn := congrArg (map fun op => op.lsn - m.logs.lastLSN slot) hends
      simp only [map_map, comp_def, opOf, WriteRequest.op, hsub] at hlsn
      exact hlsn.symm
    exact ⟨h0, h2.symm, hle⟩
  · rintro ⟨h01, h12, hle⟩
    have hacc := h.inOrder (h12 ▸ prefix_refl _)
    have h0 : stepOrder applies 0 sched = accepted := by rw [h01, h12, hacc]
    refine ⟨?_, ⟨(m.logs.log slot).rtake (m.logs.limit - accepted.length), ?_, ?_⟩, ?_⟩
    · intro i hi happ
      rcases (h.finished_cases (hfin i hi) happ).2 with ⟨-, hcall⟩ | ⟨hn, -⟩
      · exact ⟨_, hcall⟩
      · refine absurd ?_ hn
        rw [← h0]
        exact mem_stepOrder.2 ⟨count_pos_iff.2 hi, happ⟩
    · exact drop_suffix _ _
    · rw [h.filterMap_returnedOp hfin (fun i hi => h0 ▸ hi), h.log, h0,
        rtake_append _ (by rw [length_map, ← h0]; exact hle), length_map]
    · intro req hr
      have hin : w.manager.InStep req.slot := by
        rw [hr, InStep, h.nextLSN, h.last, ← h0, hlen01]
      have ho : (w.manager.slots.slots req.slot).nodeID ≠ "" := by
        rw [hr, h.owner]
        exact howner
      obtain ⟨slots, logs, hw, -⟩ :=
        logWrite_of_inStep (ε := Unit) (hr ▸ hslot) ho hin
      exact ⟨_, _, applyWrite_of_applied rfl hw⟩

/-- Requests of slot `0`, all alike. -/
def zeroRequests : ℕ → WriteRequest := fun _ => ⟨0, .set, [107], [107, 0, 118], 0⟩

/-- A manager that owns slot `0` and has logged nothing. -/
def zeroManager : Manager where
  slots := SlotManager.new.modify 0 fun info => { info with nodeID := "a", primaryID := "a" }
  logs := LogStore.new 1024 LogStore.default_lt

/-- Two calls that overlap but keep their order. -/
theorem loggedInOrder_iff_pair :
    LoggedInOrder (fun _ => true) zeroManager 0 [0, 1, 0, 1, 0, 1, 1, 0]
      ((start zeroManager).run zeroRequests (fun _ => true) [0, 1, 0, 1, 0, 1, 1, 0]) := by
  refine (@loggedInOrder_iff zeroRequests (fun _ => true) zeroManager 0 [0, 1, 0, 1, 0, 1, 1, 0]
    (by decide) (by decide) (by decide) (fun _ => rfl) ?_).2 (by decide)
  intro i hi
  rcases (by simp at hi; omega : i = 0 ∨ i = 1) with rfl | rfl <;> exact ⟨_, rfl⟩

/-- **Two writers can lose a write.** Call `1` allocates after call `0` and appends before it: the
log refuses it, although its callback took effect. -/
theorem overtaking_append_refused :
    (∀ i ∈ [0, 1, 0, 1, 1, 0, 0],
      ((start zeroManager).run zeroRequests (fun _ => true) [0, 1, 0, 1, 1, 0, 0]).Finished i) ∧
    ¬ LoggedInOrder (fun _ => true) zeroManager 0 [0, 1, 0, 1, 1, 0, 0]
      ((start zeroManager).run zeroRequests (fun _ => true) [0, 1, 0, 1, 1, 0, 0]) := by
  constructor
  · intro i hi
    rcases (by simp at hi; omega : i = 0 ∨ i = 1) with rfl | rfl <;> exact ⟨_, rfl⟩
  · intro h
    obtain ⟨op, hop⟩ := h.returned 1 (by decide) rfl
    cases hop

end Writers

end AutoCache.Replication
