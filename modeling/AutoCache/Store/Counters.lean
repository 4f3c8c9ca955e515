import AutoCache.Store.Calls

/-!
# The law of counters

`IncrBy` keeps the sum in 63 bits of the index word, without a sign, and adds in 64 bits without a
check. So the calls count as they should as long as no sum is negative or too large: a negative one
is returned but not kept, and one that leaves the range wraps where an error is due.
-/

namespace AutoCache.Store

inductive Count
  | incr
  | decr
  | incrBy (delta : Int64)
  | decrBy (delta : Int64)

inductive CounterCall
  | get
  | count (c : Count)

def Count.delta : Count → Int
  | .incr => 1
  | .decr => -1
  | .incrBy delta => delta.toInt
  | .decrBy delta => -delta.toInt

def InInt64 (n : Int) : Prop := -2 ^ 63 ≤ n ∧ n < 2 ^ 63

instance (n : Int) : Decidable (InInt64 n) := inferInstanceAs (Decidable (_ ∧ _))

/-- Every sum of the calls is one a counter can keep. -/
def KeptSums : Int → List (ℕ × CounterCall) → Prop
  | _, [] => True
  | v, (_, .get) :: calls => KeptSums v calls
  | v, (_, .count c) :: calls => (0 ≤ v + c.delta ∧ v + c.delta < 2 ^ 63) ∧ KeptSums (v + c.delta) calls

/-- The number a string counts for; a missing one is zero. -/
def countsAs : Option Slot → Option Int
  | none => some 0
  | some slot => parseInt slot.text

def shown : Option Slot → Except StoreError Bytes
  | none => .error .keyNotFound
  | some slot => .ok slot.text

def elapsed (calls : List (ℕ × CounterCall)) : ℕ := (calls.map Prod.fst).sum

variable (L : LogicalConfig) (key : Bytes)

def HoldsString (str : Option Slot) (w : World) : Prop :=
  (w key).str = str ∧ (str = none → (w key).obj = none)

def Count.run (now : Int) : Count → StoreM Cache (Except StoreError Int)
  | .incr => Store.incr L.engine key now
  | .decr => Store.decr L.engine key now
  | .incrBy delta => Store.incrBy L.engine key delta.toInt now
  | .decrBy delta => Store.decrBy L.engine key delta.toInt now

/-- The calls, each after a wait, follow the law from a moment on at which the value is `v` and `Get`
replies `text`. -/
def FollowsLaw : Except StoreError Bytes → Int → Int → List (ℕ × CounterCall) → Store Cache → Prop
  | _, _, _, [], _ => True
  | text, v, now, (wait, .get) :: calls, s =>
    ∃ s', get L.engine key (now + wait) s = .ok (text, s') ∧ FollowsLaw text v (now + wait) calls s'
  | text, v, now, (wait, .count c) :: calls, s =>
    ∃ reply s', c.run L key (now + wait) s = .ok (reply, s') ∧
      if InInt64 (v + c.delta) then
        reply = .ok (v + c.delta) ∧
          (∃ s'', get L.engine key (now + wait) s' = .ok (.ok (formatInt (v + c.delta)), s'')) ∧
          FollowsLaw (.ok (formatInt (v + c.delta))) (v + c.delta) (now + wait) calls s'
      else (∃ e, reply = .error e) ∧ s' = s ∧ FollowsLaw text v (now + wait) calls s'

variable {L key} {str : Option Slot} {w : World} {v now : Int} {s : Store Cache}

lemma wrap64_add_wrap64 (n m : Int) : wrap64 (n + wrap64 m) = wrap64 (n + m) := by
  unfold wrap64
  omega

lemma Count.run_eq (c : Count) : c.run L key now = Store.incrBy L.engine key (wrap64 c.delta) now := by
  cases c with
  | incr => rfl
  | decr => rfl
  | incrBy delta =>
    rw [Count.delta, wrap64_of_fits delta.le_toInt delta.toInt_lt]
    rfl
  | decrBy delta => rfl

lemma HoldsString.later (h : HoldsString key str w) {t : Int} (hlive : ∀ slot ∈ str, slot.Live key t) :
    HoldsString key str (w.later t) := by
  refine ⟨?_, fun hnone => ?_⟩
  · change (w key).str.filter _ = str
    rw [h.1]
    cases str with
    | none => rfl
    | some slot => simp [Option.filter, hlive slot rfl]
  · change (w key).obj.filter _ = none
    rw [h.2 hnone]
    rfl

lemma HoldsString.get (h : HoldsString key str w) : w.get key = shown str := by
  unfold World.get
  rw [h.1]
  cases str with
  | none =>
    rw [h.2 rfl]
    rfl
  | some slot => rfl

lemma HoldsString.incrBy (h : HoldsString key str w) (hv : countsAs str = some v) (delta : Int) :
    w.incrBy key (wrap64 delta) = (.ok (wrap64 (v + delta)), w.setStr key (some (counterSlot (wrap64 (v + delta))))) := by
  unfold World.incrBy
  rw [h.1]
  match str, hv with
  | none, hv =>
    cases hv
    simp only [Int.zero_add]
  | some (.counter n hn), hv =>
    have hn' : parseInt (formatInt n) = some (n : Int) := parseInt_formatInt (by omega) (by omega)
    cases hn'.symm.trans hv
    simp only [wrap64_add_wrap64]
  | some (.entry e), hv =>
    change parseInt e.value = some v at hv
    simp only [hv, wrap64_add_wrap64]

lemma HoldsString.counter (slot : Slot) : HoldsString key (some slot) (w.setStr key (some slot)) := by
  refine ⟨?_, nofun⟩
  rw [World.setStr_apply, if_pos rfl]

/-- One increment: the sum is taken in 64 bits and kept in 63. -/
lemma Count.run_holds (c : Count) (h : HoldsString key str (s.live now)) (hv : countsAs str = some v) :
    ∃ s', c.run L key now s = .ok (.ok (wrap64 (v + c.delta)), s') ∧
      HoldsString key (some (counterSlot (wrap64 (v + c.delta)))) (s'.live now) := by
  rw [c.run_eq]
  obtain ⟨s', hrun, hlive⟩ := (@incrBy_acts L key now _).run s
  rw [h.incrBy hv] at hrun hlive
  refine ⟨s', hrun, ?_⟩
  rw [hlive]
  exact .counter _

lemma get_holds (h : HoldsString key str (s.live now)) :
    ∃ s', get L.engine key now s = .ok (shown str, s') ∧ HoldsString key str (s'.live now) := by
  obtain ⟨s', hrun, hlive⟩ := (@get_acts L key now).run s
  rw [h.get] at hrun
  refine ⟨s', hrun, ?_⟩
  rw [hlive]
  exact h

lemma text_counterSlot_iff {n : Int} (h : InInt64 n) : (counterSlot n).text = formatInt n ↔ 0 ≤ n := by
  have htext : (counterSlot n).text = formatInt (n % 2 ^ 63) := by
    change formatInt ((n % 2 ^ 63).toNat : Int) = _
    rw [Int.toNat_of_nonneg (by omega)]
  have hmin := h.1
  have hmax := h.2
  rw [htext]
  constructor
  · intro heq
    have hparse : some (n % 2 ^ 63) = some n := by
      rw [← parseInt_formatInt hmin hmax, ← heq]
      exact (parseInt_formatInt (by omega) (by omega)).symm
    have := Option.some.inj hparse
    omega
  · intro hpos
    rw [Int.emod_eq_of_lt hpos hmax]

end AutoCache.Store
