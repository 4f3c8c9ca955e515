import AutoCache.Persistence.Provenance

/-!
# Deadlines on the way through the database

A queued entry has its deadline as a time. The flush, the promotion and the load each turn it into the time
that is left, and what they do with nothing left differs: the flush then writes an item that the database
keeps forever, the promotion a string without a deadline, and the load leaves the entry out, except at the
very deadline.
-/

namespace AutoCache.Persistence

open Tiered Views Store

namespace Manager

def dueBy (key : Bytes) (d : Int) : Marks where
  slot k slot := k = key → 0 < slot.deadline ∧ slot.deadline ≤ d
  object k o := k = key → o.expireAt ≠ 0 ∧ o.expireAt ≤ d
  item k item := k = key → item.entry.expireAt = some d ∧ ∃ t ∈ item.expiresAt, t ≤ d
  entry k entry := k = key → entry.expireAt = some d
  promotion p := p.key = key → p.entry.expireAt = some d

/-- The step is taken in time for entries with the deadline `d` under the key: they are flushed and promoted
before `d`; a promotion or a load can tell `d` in 64 bits; and the key gets no other deadline. -/
def InTime (S : Setup) (key : Bytes) (d : Int) (s : Manager) : Event → Prop
  | .loop (.append (.set k entry)) => k = key → entry.expireAt = some d
  | .loop event => leaves (s.loop.flushed S.batchSize event) key ≠ none → s.now < d
  | .set k _ _ => k ≠ key
  | .promote i => ∀ p, s.promotions[i]? = some p → p.key = key → s.now < d ∧ d < 2 ^ 63
  | .load => d < 2 ^ 63
  | _ => True

variable {S : Setup} {key : Bytes} {d : Int} {s s' : Manager}

/-- The deadline of a string or an object that is written with the time that is left. -/
lemma objectDeadline_left {now : Int} (hnow : 0 ≤ now) (hd : now < d) (hmax : d < 2 ^ 63) :
    objectDeadline (timeUntil d now) now = d := by
  unfold objectDeadline timeUntil wrap64
  split <;> omega

lemma flushedItem_due {now : Int} {entry : EngineEntry} (hent : entry.expireAt = some d) (hd : now < d) :
    ∃ t ∈ (flushedItem now entry).expiresAt, t ≤ d := by
  have hleft : timeUntil d now > 0 := by
    unfold timeUntil
    omega
  refine ⟨now + timeUntil d now, ?_, ?_⟩
  · simp only [flushedItem, hent, Option.bind_some, if_pos hleft]
    rfl
  · unfold timeUntil
    omega

lemma closed_dueBy {event : Event} (hnow : 0 ≤ s.now) (h : InTime S key d s event) : (dueBy key d).Closed S s event := by
  cases event with
  | loop event =>
    cases event with
    | append op =>
      intro entry hent
      cases op with
      | set k e =>
        cases hent
        exact h
      | del k => cases hent
    | _ =>
      intro k entry hent hdue hk
      subst hk
      have hbefore : s.now < d := h fun hnone => by
        rw [hnone] at hent
        cases hent
      exact ⟨hdue rfl, flushedItem_due (hdue rfl) hbefore⟩
  | set k value ttl => exact ⟨fun hk => absurd hk h, fun hk => absurd hk h⟩
  | get k promotes =>
    intro item value _ _ hitem hk
    exact (hitem hk).1
  | promote i =>
    intro p hp hdue _ hk
    obtain ⟨hbefore, hmax⟩ := h p hp hk
    have hdl : (Slot.entry (writtenEntry p.value (entryTTL s.now p.entry) s.now)).deadline = d := by
      have hleft : max 0 (timeUntil d s.now) = timeUntil d s.now := by
        unfold timeUntil
        omega
      change (deadline (entryTTL s.now p.entry) s.now).toInt = d
      rw [deadline_toInt, entryTTL, hdue hk]
      dsimp only
      rw [hleft, objectDeadline_left hnow hbefore hmax]
    rw [hdl]
    exact ⟨by omega, le_rfl⟩
  | load =>
    intro k item value hget _ hitem
    -- the item is seen, so its deadline has not passed
    have hbefore (hk : k = key) : s.now < d := by
      obtain ⟨-, t, ht, hle⟩ := hitem hk
      have hvis : item.Visible s.now := of_decide_eq_true (Option.mem_filter_iff.1 hget).2
      exact lt_of_lt_of_le (hvis t ht) hle
    have hdl (hk : k = key) : objectDeadline (loadTTL s.now item.entry) s.now = d := by
      rw [loadTTL, (hitem hk).1]
      exact objectDeadline_left hnow (hbefore hk) h
    cases value with
    | string text =>
      intro hk
      have hslot : (Slot.entry (writtenEntry text (loadTTL s.now item.entry) s.now)).deadline = d :=
        (deadline_toInt _ _).trans (hdl hk)
      have := hbefore hk
      rw [hslot]
      exact ⟨by omega, le_rfl⟩
    | object v =>
      intro hk
      have := hbefore hk
      refine ⟨?_, (hdl hk).le⟩
      change objectDeadline _ _ ≠ 0
      rw [hdl hk]
      omega
  | _ => trivial

lemma now_le_of_step {event : Event} (h : s.step S event = .ok s') : s.now ≤ s'.now := by
  have hcall {α : Type} {x : TierM Cache α} {a : α} {t : Manager} (h : s.call x = .ok (a, t)) : t.now = s.now := by
    obtain ⟨t', -, rfl⟩ := Marks.call_eq_ok h
    rfl
  have hqueue {s s' : Manager} {event : LoopEvent} (h : s.queue S event = .ok s') : s.now ≤ s'.now := by
    obtain ⟨loop, hstep, rfl⟩ := Marks.queue_eq_ok h
    exact Marks.now_le_of_step hstep
  have hdels {keys : List Bytes} {s s' : Manager} (h : appendDels S keys s = .ok s') : s.now ≤ s'.now := by
    induction keys generalizing s with
    | nil =>
      cases h
      exact le_rfl
    | cons key keys ih =>
      rw [appendDels] at h
      split at h
      · cases h
      · next hstep => exact (hqueue hstep).trans (ih h)
  cases event with
  | loop event => exact hqueue h
  | set key value ttl =>
    obtain ⟨⟨result, t⟩, hr, h⟩ := Go.bind_eq_ok.1 h
    cases result with
    | error e =>
      cases h
      exact (hcall hr).ge
    | ok u => exact (hcall hr).ge.trans (hqueue h)
  | del keys =>
    obtain ⟨⟨n, t⟩, hr, h⟩ := Go.bind_eq_ok.1 h
    exact (hcall hr).ge.trans (hdels h)
  | flushDB | restart =>
    cases h
    exact le_rfl
  | get key promotes =>
    obtain ⟨⟨promotion, t⟩, hr, h⟩ := Go.bind_eq_ok.1 h
    have ht := (hcall hr).ge
    cases promotion <;> cases promotes <;> cases h <;> exact ht
  | getEntry key =>
    obtain ⟨⟨entry, t⟩, hr, h⟩ := Go.bind_eq_ok.1 h
    cases h
    exact (hcall hr).ge
  | promote i =>
    simp only [step] at h
    split at h
    · cases h
    · obtain ⟨⟨u, t⟩, hr, h⟩ := Go.bind_eq_ok.1 h
      cases h
      exact (hcall hr).ge
  | load =>
    obtain ⟨⟨u, t⟩, hr, h⟩ := Go.bind_eq_ok.1 h
    cases h
    exact (hcall hr).ge

lemma due_run {program : List Event} (hnow : 0 ≤ s.now) (hs : (dueBy key d).All s)
    (hintime : Runs.Along (step S) (InTime S key d) s program)
    (hrun : Runs.run (step S) s program = .ok s') : (dueBy key d).All s' := by
  have hboth : 0 ≤ s'.now ∧ (dueBy key d).All s' := by
    refine hintime.run_invariant (I := fun s => 0 ≤ s.now ∧ (dueBy key d).All s) ?_ ⟨hnow, hs⟩ hrun
    rintro s event t ⟨hnow, hs⟩ hcond hstep
    exact ⟨hnow.trans (now_le_of_step hstep), hs.step (closed_dueBy hnow hcond) hstep⟩
  exact hboth.2

lemma not_reads_of_due (hs : (dueBy key d).All s) (hlate : d < s.now) (value : Value) : ¬ s.Reads S key value := by
  intro hread
  rcases reads_cases hread with ⟨slot, hslot, -⟩ | ⟨o, ho, -⟩ | ⟨item, hget, -⟩
  · obtain ⟨hpos, hle⟩ := hs.hot.slot key slot hslot rfl
    have hlive := (lookup_of_live hslot).2
    cases slot with
    | counter n hn => exact absurd hpos (lt_irrefl 0)
    | entry e => exact hlive.2 ⟨hpos, lt_of_le_of_lt hle hlate⟩
  · obtain ⟨hne, hle⟩ := hs.hot.object key o ho rfl
    have hlive : ¬ o.expired s.now := of_decide_eq_true (Option.mem_filter_iff.1 ho).2
    exact hlive ⟨hne, lt_of_le_of_lt hle hlate⟩
  · obtain ⟨-, t, ht, hle⟩ := hs.queue.item key item (Option.mem_filter_iff.1 hget).1 rfl
    have hvis : item.Visible s.now := of_decide_eq_true (Option.mem_filter_iff.1 hget).2
    have := hvis t ht
    omega

/-- The string `v` under `k`, until the moment 10. -/
def untilTen : Event := .loop (.append (.set [107] ⟨.string [118], some 10⟩))

/-- The entry is flushed at once, and then time passes. -/
def flushedAtOnce : List Event := [untilTen, .loop .receive, .loop .timer, .loop (.wait 20)]

end Manager

end AutoCache.Persistence
