import AutoCache.Lib.Runs
import Mathlib.Data.Set.Card

/-!
# Pastes of the clipboard

`PasteService.Get` makes up to five calls to the store, and other clients come in between: it reads the
paste, then its view counter, claims a paste that is to be burned, counts the view and deletes what it
burned. A counter that is missing means no limit, and `Delete` removes the claim with the paste; so the
bounds on how often a paste is read rest on what happens between these calls.
-/

namespace AutoCache.Clipboard

open Runs Function Option

/-! ## The store -/

/-- What a key holds; it may have a deadline. -/
structure Entry (α : Type) where
  value : α
  expireAt : Option ℕ

/-- What the store shows of a key at a time. -/
def live {α : Type} (now : ℕ) (e : Option (Entry α)) : Option (Entry α) :=
  e.filter fun e => e.expireAt.all (now < ·)

lemma mem_of_live {α : Type} {now : ℕ} {e : Option (Entry α)} {a : Entry α} (h : live now e = some a) :
    e = some a := (filter_eq_some_iff.1 h).1

lemma live_of_later {α : Type} {now d : ℕ} {e : Option (Entry α)} {a : Entry α}
    (h : live (now + d) e = some a) : live now e = some a := by
  obtain ⟨he, hlive⟩ := filter_eq_some_iff.1 h
  refine filter_eq_some_iff.2 ⟨he, ?_⟩
  cases hexp : a.expireAt with
  | none => rfl
  | some t =>
    simp only [hexp, all_some, decide_eq_true_eq] at hlive ⊢
    omega

/-- The fields of the hash at `pasteKey` on which `Get` depends. -/
structure Fields where
  content : String
  burnAfterRead : Bool

/-- The keys of one paste, `pasteKey`, `viewsKey` and `burnClaimKey`, and the time. -/
structure Keys where
  paste : Option (Entry Fields)
  views : Option (Entry Int)
  burnClaim : Bool
  now : ℕ

/-- `DECR`; a key it creates has no deadline. -/
def decr (now : ℕ) (views : Option (Entry Int)) : Entry Int :=
  match live now views with
  | some e => { e with value := e.value - 1 }
  | none => ⟨-1, none⟩

structure CreatePasteRequest where
  content : String
  ttl : ℕ
  maxViews : Int
  burnAfterRead : Bool

def CreatePasteRequest.normalizedMaxViews (r : CreatePasteRequest) : Int :=
  if r.maxViews ≤ 0 then 0 else r.maxViews

/-- What `Create` has stored when it returns: `EXPIRE` was called at `t`, and the counter set at `t'`. -/
def create (r : CreatePasteRequest) (t t' : ℕ) : Keys where
  paste := some ⟨⟨r.content, r.burnAfterRead⟩, some (t + r.ttl)⟩
  views := if r.normalizedMaxViews > 0 then some ⟨r.normalizedMaxViews, some (t' + r.ttl)⟩ else none
  burnClaim := false
  now := t'

/-! ## Get -/

structure Paste where
  content : String
  burnAfterRead : Bool
  remainingViews : Int

/-- A call of `Get`, before each of its calls to the store. -/
inductive Call where
  | start
  | loaded (fields : Fields)
  | claiming (paste : Paste) (hasViewCounter : Bool)
  | counting (paste : Paste)
  | burning (paste : Paste)
  | done (reply : Option Paste)

namespace Call

def finish (p : Paste) : Call := if p.burnAfterRead then .burning p else .done (some p)

def countView (p : Paste) (hasViewCounter : Bool) : Call :=
  if hasViewCounter ∧ p.remainingViews ≤ 0 then .done none
  else if p.remainingViews > 0 then .counting p
  else finish p

/-- The end of `lookupPaste`. -/
def looked (fields : Fields) (views : Option Int) : Call :=
  let p : Paste := ⟨fields.content, fields.burnAfterRead, views.getD 0⟩
  if p.burnAfterRead then .claiming p views.isSome else countView p views.isSome

/-- The next call to the store, up to the one after it. -/
def next (k : Keys) : Call → Call × Keys
  | .start =>
    match live k.now k.paste with
    | none => (.done none, k)
    | some e => (.loaded e.value, k)
  | .loaded fields => (looked fields ((live k.now k.views).map Entry.value), k)
  | .claiming p hasViewCounter =>
    if k.burnClaim then (.done none, k) else (countView p hasViewCounter, { k with burnClaim := true })
  | .counting p =>
    let e := decr k.now k.views
    (if e.value < 0 then .done none else finish { p with remainingViews := e.value + 1 },
      { k with views := some e })
  | .burning p => (.done (some p), { k with paste := none, views := none })
  | .done reply => (.done reply, k)

/-- The call does not burn the paste. -/
def Spares : Call → Prop
  | .loaded fields => fields.burnAfterRead = false
  | .counting p => p.burnAfterRead = false
  | .claiming _ _ | .burning _ => False
  | _ => True

/-- The call has read the paste and not yet tried to claim it. -/
def Waits : Call → Prop
  | .loaded _ | .claiming _ _ => True
  | _ => False

/-- The call has the claim, and may have returned the content. -/
def Won : Call → Prop
  | .counting _ | .burning _ | .done (some _) => True
  | _ => False

end Call

/-! ## Runs -/

/-- Any number of calls of `Get` on one code. -/
structure PasteService where
  keys : Keys
  calls : ℕ → Call

/-- A call of `Get` goes on, `Delete` is called, or time passes. -/
inductive Event where
  | get (i : ℕ)
  | delete
  | tick (d : ℕ)

namespace PasteService

def created (r : CreatePasteRequest) (t t' : ℕ) : PasteService := ⟨create r t t', fun _ => .start⟩

def step (s : PasteService) : Event → Except Empty PasteService
  | .get i => .ok ⟨((s.calls i).next s.keys).2, update s.calls i ((s.calls i).next s.keys).1⟩
  | .delete => .ok { s with keys := { s.keys with paste := none, views := none, burnClaim := false } }
  | .tick d => .ok { s with keys := { s.keys with now := s.keys.now + d } }

/-- The calls that have returned the content. -/
def returned (s : PasteService) : Set ℕ := { i | ∃ p, s.calls i = .done (some p) }

variable {s s' : PasteService} {e : Event} {r : CreatePasteRequest} {n t t' : ℕ}
  {events : List Event}

/-! ## Pastes that are burned -/

/-- `Delete` does not remove a claim while another reader has the paste and has yet to claim it. -/
def KeepsClaim (s : PasteService) : Event → Prop
  | .delete => s.keys.burnClaim = true → ∀ i, ¬ (s.calls i).Waits
  | _ => True

/-- At most one call has the claim; then the claim is set, or nobody can claim the paste any more. -/
structure Burned (s : PasteService) : Prop where
  paste : ∀ e ∈ s.keys.paste, e.value.burnAfterRead = true
  loaded : ∀ i fields, s.calls i = .loaded fields → fields.burnAfterRead = true
  won : ∀ i j, (s.calls i).Won → (s.calls j).Won → i = j
  claimed : ∀ i, (s.calls i).Won →
    s.keys.burnClaim = true ∨ s.keys.paste = none ∧ ∀ j, ¬ (s.calls j).Waits

open Call

lemma Burned.get (h : s.Burned) (i : ℕ) :
    Burned ⟨((s.calls i).next s.keys).2, update s.calls i ((s.calls i).next s.keys).1⟩ := by
  obtain ⟨hpaste, hloaded, hwon, hclaimed⟩ := h
  -- a call that gets the claim still waited for it, so no call had it before
  cases hc : s.calls i <;> simp only [next, looked, countView, finish]
  all_goals constructor <;> dsimp only
  all_goals grind [update_apply, mem_of_live, Won, Waits]

lemma Burned.step (h : s.Burned) (hkeeps : s.KeepsClaim e) (hs : s.step e = .ok s') : s'.Burned := by
  cases e with
  | get i =>
    cases hs
    exact h.get i
  | delete =>
    cases hs
    refine ⟨nofun, h.loaded, h.won, fun i hi => .inr ⟨rfl, ?_⟩⟩
    exact (h.claimed i hi).elim hkeeps And.right
  | tick d =>
    cases hs
    exact ⟨h.paste, h.loaded, h.won, h.claimed⟩

/-- **The content of a burned paste is returned at most once**, if `Delete` does not take away a claim
for which a reader waits. -/
theorem burned_once (hburn : r.burnAfterRead = true)
    (hkeeps : Along step KeepsClaim (created r t t') events)
    (hrun : run step (created r t t') events = .ok s) : s.returned.encard ≤ 1 := by
  have hnew : (created r t t').Burned := by
    refine ⟨?_, nofun, nofun, nofun⟩
    rintro e ⟨⟩
    exact hburn
  have h := hkeeps.run_invariant (fun _ _ _ h hk hs => h.step hk hs) hnew hrun
  rw [Set.encard_le_one_iff]
  rintro i j ⟨p, hi⟩ ⟨q, hj⟩
  exact h.won i j (by rw [hi]; trivial) (by rw [hj]; trivial)

theorem burned_once_deleted : ∃ s, run step (created ⟨"a", 300, 0, true⟩ 0 0)
    [.get 0, .get 0, .delete, .get 0, .get 0] = .ok s ∧ s.returned.encard ≤ 1 := by
  refine ⟨_, rfl, burned_once (r := ⟨"a", 300, 0, true⟩) rfl ?_
    (show run step (created _ 0 0) [.get 0, .get 0, .delete, .get 0, .get 0] = _ from rfl)⟩
  exact .cons trivial rfl (.cons trivial rfl (.cons nofun rfl (.cons trivial rfl (.cons trivial rfl trivial))))

/-- Two readers load the paste; one claims it and returns, `Delete` removes the claim, and the other
claims it again. -/
theorem burned_twice : ∃ s, run step (created ⟨"a", 300, 0, true⟩ 0 0)
    [.get 0, .get 1, .get 0, .get 1, .get 0, .get 0, .delete, .get 1, .get 1] = .ok s ∧
      ¬ s.returned.encard ≤ 1 := by
  refine ⟨_, rfl, fun h => ?_⟩
  have := Set.encard_le_one_iff.1 h 0 1 ⟨_, rfl⟩ ⟨_, rfl⟩
  omega

/-! ## Pastes with a view limit -/

/-- The counter is not deleted, and does not expire, between the two reads of a call. -/
def KeepsCounter (s : PasteService) : Event → Prop
  | .get _ => True
  | .delete => ∀ i fields, s.calls i ≠ .loaded fields
  | .tick d => live (s.keys.now + d) s.keys.views = none → ∀ i fields, s.calls i ≠ .loaded fields

/-- The views that the counter allows. -/
def left (k : Keys) : ℕ := ((live k.now k.views).elim 0 Entry.value).toNat

/-- The returned reads and the views left are at most `n`, and who has read the paste sees its counter. -/
structure Limited (n : ℕ) (s : PasteService) : Prop where
  paste : ∀ e ∈ s.keys.paste, e.value.burnAfterRead = false
  spares : ∀ i, (s.calls i).Spares
  counter : ∀ t, s.keys.now ≤ t → live t s.keys.views = none → live t s.keys.paste = none
  loaded : live s.keys.now s.keys.views = none → ∀ i fields, s.calls i ≠ .loaded fields
  returned : s.returned.encard + left s.keys ≤ n

lemma encard_returned_le {i : ℕ} {c : Call} {keys : Keys}
    (h : (∀ p, c = .done (some p) → i ∈ s.returned) ∧ left keys ≤ left s.keys ∨ left keys + 1 ≤ left s.keys) :
    (returned ⟨keys, update s.calls i c⟩).encard + left keys ≤ s.returned.encard + left s.keys := by
  have hsub : returned ⟨keys, update s.calls i c⟩ ⊆ insert i s.returned := by
    rintro j ⟨p, hj⟩
    grind [update_apply, returned]
  rcases h with ⟨hold, hleft⟩ | hleft
  · refine add_le_add (Set.encard_le_encard fun j hj => ?_) (Nat.cast_le.2 hleft)
    grind [update_apply, returned]
  · calc (returned ⟨keys, update s.calls i c⟩).encard + left keys ≤ s.returned.encard + 1 + left keys :=
          add_le_add_left ((Set.encard_le_encard hsub).trans (Set.encard_insert_le _ _)) _
      _ = s.returned.encard + (left keys + 1 : ℕ) := by push_cast; rw [add_assoc, add_comm 1]
      _ ≤ _ := add_le_add_right (Nat.cast_le.2 hleft) _

lemma live_decr {now t : ℕ} {views : Option (Entry Int)} (h : live t (some (decr now views)) = none) :
    live t views = none := by
  unfold decr at h
  split at h
  · next e he =>
    rw [mem_of_live he]
    simpa [live, filter_some] using h
  · simp [live] at h

/-- A counter that is not negative after `DECR` has allowed this view. -/
lemma left_decr (k : Keys) : left { k with views := some (decr k.now k.views) } = left k - 1 ∧
    (0 ≤ (decr k.now k.views).value → 0 < left k) := by
  unfold decr left
  cases he : live k.now k.views with
  | none => exact ⟨rfl, nofun⟩
  | some e =>
    have hlive := (filter_eq_some_iff.1 he).2
    simp only [live, filter_some, hlive, if_true, elim_some]
    omega

lemma Limited.get (h : s.Limited n) (i : ℕ) :
    Limited n ⟨((s.calls i).next s.keys).2, update s.calls i ((s.calls i).next s.keys).1⟩ := by
  obtain ⟨hpaste, hspares, hctr, hloaded, hreturned⟩ := h
  have hleft := left_decr s.keys
  refine ⟨?_, ?_, ?_, ?_, (encard_returned_le ?_).trans hreturned⟩
  all_goals cases hc : s.calls i <;> simp only [next, looked, countView, finish]
  case refine_5.loaded fields =>
    -- the call sees the counter, so it returns nothing yet
    obtain ⟨e, he⟩ := ne_none_iff_exists'.1 fun hnone => hloaded hnone i fields hc
    grind [Spares]
  case refine_5.counting p => grind
  case refine_5.done reply => exact .inl ⟨by rintro p ⟨⟩; exact ⟨p, hc⟩, le_rfl⟩
  all_goals grind [update_apply, mem_of_live, Spares, live_decr]

lemma Limited.step (h : s.Limited n) (hkeeps : s.KeepsCounter e) (hs : s.step e = .ok s') : s'.Limited n := by
  cases e with
  | get i =>
    cases hs
    exact h.get i
  | delete =>
    cases hs
    exact ⟨nofun, h.spares, fun _ _ _ => rfl, fun _ => hkeeps,
      (add_le_add_right (Nat.cast_le.2 (Nat.zero_le _)) _).trans h.returned⟩
  | tick d =>
    cases hs
    refine ⟨h.paste, h.spares, fun t ht => h.counter t (by dsimp only at ht; omega), hkeeps, ?_⟩
    refine (add_le_add_right (Nat.cast_le.2 ?_) _).trans h.returned
    cases he : live (s.keys.now + d) s.keys.views with
    | none => simp [left, he]
    | some e =>
      simp [left, he, live_of_later he]

/-- **A view limit holds**, if the counter does not vanish between the two reads of a call. -/
theorem views_limited (hburn : r.burnAfterRead = false) (hmax : r.maxViews = n) (hpos : 0 < n) (ht : t ≤ t')
    (hkeeps : Along step KeepsCounter (created r t t') events)
    (hrun : run step (created r t t') events = .ok s) : s.returned.encard ≤ n := by
  have hviews : (create r t t').views = some ⟨n, some (t' + r.ttl)⟩ := by
    simp [create, CreatePasteRequest.normalizedMaxViews, hmax, hpos.ne']
  have hnew : (created r t t').Limited n := by
    refine ⟨?_, fun _ => trivial, ?_, nofun, ?_⟩
    · rintro e ⟨⟩
      exact hburn
    · intro u _ hu
      simp only [created, hviews, live, filter_some] at hu ⊢
      simp [create, filter_some] at hu ⊢
      omega
    · have hnone : (created r t t').returned = ∅ := Set.eq_empty_of_forall_notMem fun i ⟨p, hp⟩ => nomatch hp
      rw [hnone, Set.encard_empty, zero_add, Nat.cast_le]
      simp only [left, created, hviews, live, filter_some]
      split <;> simp
  have h := hkeeps.run_invariant (fun _ _ _ h hk hs => h.step hk hs) hnew hrun
  exact le_self_add.trans h.returned

theorem views_limited_once : ∃ s, run step (created ⟨"a", 300, 1, false⟩ 0 0)
    [.get 0, .get 0, .get 0, .get 1, .get 1] = .ok s ∧ s.returned.encard ≤ 1 := by
  refine ⟨_, rfl, views_limited (r := ⟨"a", 300, 1, false⟩) (n := 1) rfl rfl Nat.one_pos le_rfl ?_
    (show run step (created _ 0 0) [.get 0, .get 0, .get 0, .get 1, .get 1] = _ from rfl)⟩
  exact .cons trivial rfl (.cons trivial rfl (.cons trivial rfl (.cons trivial rfl (.cons trivial rfl trivial))))

/-- The second reader loads the paste just before it expires, and looks for the counter after that. -/
theorem views_exceeded : ∃ s, run step (created ⟨"a", 300, 1, false⟩ 0 0)
    [.get 0, .get 0, .get 0, .get 1, .tick 300, .get 1] = .ok s ∧ ¬ s.returned.encard ≤ 1 := by
  refine ⟨_, rfl, fun h => ?_⟩
  have := Set.encard_le_one_iff.1 h 0 1 ⟨_, rfl⟩ ⟨_, rfl⟩
  omega

end PasteService

end AutoCache.Clipboard
