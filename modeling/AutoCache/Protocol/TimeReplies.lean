import AutoCache.Protocol.Commands
import AutoCache.Tiered.Demoted

/-!
# The replies of `TTL` and `PTTL`

The engine answers with a duration: `-1` (a nanosecond) for a key without a deadline, `-2 s` for one that is
not there. The handlers divide it by their unit. So `TTL` says `0` of every key without a deadline, as does
`PTTL`, and `PTTL` says `-2000` of a key that is not there.
-/

namespace AutoCache.Protocol

open Tiered Option

inductive EngineAdapter where
  | memory | tiered

inductive TimeCommand where
  | ttl | pttl
  deriving DecidableEq

def TimeCommand.unit : TimeCommand → Int
  | .ttl => second
  | .pttl => millisecond

/-- What the client should be told of a key that is live, if so with which deadline. -/
def TimeCommand.expected (c : TimeCommand) (now : Int) : Option (Option Int) → Int
  | none => -2
  | some none => -1
  | some (some d) => (d - now) / c.unit

namespace EngineAdapter

variable (L : LogicalConfig) (now : Int) (key : Bytes)

/-- The memory adapter is over the hot tier alone. -/
def ttl : EngineAdapter → TierM Cache Int
  | memory => hotCall (Store.ttl L.engine key now)
  | tiered => Tiered.ttl L.engine now key

/-- `cmdTTL` and `cmdPTTL` over either adapter. -/
def reply (a : EngineAdapter) (c : TimeCommand) : TierM Cache Reply := do
  let ttl ← a.ttl L now key
  return .int (ttl.tdiv c.unit)

/-- What the adapter finds where the hot tier has nothing. -/
def behind (v : TierView) : EngineAdapter → Option Item
  | memory => none
  | tiered => v.warm key

/-- Whether the key is live, and its deadline. A string whose deadline is negative never expires. -/
def liveDeadline (a : EngineAdapter) (v : TierView) : Option (Option Int) :=
  match (v.hot key).str, (v.hot key).obj with
  | some slot, _ => some (if 0 < slot.deadline then some slot.deadline else none)
  | none, some o => some (if o.expireAt = 0 then none else some o.expireAt)
  | none, none => (a.behind key v).map Item.expiresAt

/-- The time that the index of the hot tier tells, also of an entry that no read finds. -/
def indexed (s : Tiers Cache) : Option Int := (s.hot.shards.lookup key).bind (Slot.ttl now)

/-- The key has a deadline, or it is not there and the command is `TTL`. An entry that no read finds does
not tell another time. -/
def RepliesWhen (a : EngineAdapter) (c : TimeCommand) (s : Tiers Cache) : Prop :=
  match a.liveDeadline key (s.view now) with
  | none => indexed now key s = none ∧ c = .ttl
  | some none => False
  | some (some d) => ∀ t, indexed now key s = some t → t.tdiv c.unit = (d - now) / c.unit

def timeLeft (a : EngineAdapter) (s : Tiers Cache) : Int :=
  (indexed now key s).getD <| (((s.view now).hot key).obj.bind (Object.ttl now)).getD <|
    ((a.behind key (s.view now)).bind (Item.ttl now)).getD (-2000000000)

variable {L now key} {a : EngineAdapter} {c : TimeCommand} {s : Tiers Cache}

lemma ttl_run : ∃ s', a.ttl L now key s = .ok (a.timeLeft now key s, s') := by
  cases a with
  | tiered =>
    obtain ⟨s', hrun, -⟩ := @Tiered.ttl_run L now key s
    rw [Tiers.timeLeft, TierView.hiddenTTL, getD_or] at hrun
    exact ⟨s', hrun⟩
  | memory =>
    obtain ⟨hot, hrun, -⟩ := @hotTTL_run L now key s.hot
    refine ⟨{ s with hot }, ?_⟩
    rw [getD_or] at hrun
    simp only [ttl, hotCall, hrun]
    rfl

lemma reply_iff {n : Int} : (∃ s', a.reply L now key c s = .ok (.int n, s')) ↔ (a.timeLeft now key s).tdiv c.unit = n := by
  obtain ⟨s', hrun⟩ := @ttl_run L now key a s
  have hreply : a.reply L now key c s = .ok (.int ((a.timeLeft now key s).tdiv c.unit), s') :=
    Views.run_bind hrun
  rw [hreply]
  simp

/-- What a command makes of a duration: nothing is told as `-1`, and only `-2 s` as a negative number. -/
lemma tdiv_unit {t : Int} (h : t = -2000000000 ∨ -1 ≤ t) : t.tdiv c.unit ≠ -1 ∧
    (t.tdiv c.unit = -2 ↔ t = -2000000000 ∧ c = .ttl) ∧ (0 ≤ t → t.tdiv c.unit = t / c.unit) := by
  rcases h with rfl | h
  · cases c <;> decide
  · obtain rfl | h : t = -1 ∨ 0 ≤ t := by omega
    · cases c <;> decide
    · have := Int.tdiv_eq_ediv_of_nonneg (b := c.unit) h
      have : 0 ≤ t / c.unit := Int.ediv_nonneg h (by cases c <;> decide)
      grind

lemma timeLeft_cases : a.timeLeft now key s = -2000000000 ∨ -1 ≤ a.timeLeft now key s := by
  have hgetD {α : Type} {o : Option α} {f : α → Option Int} {d : Int}
      (hf : ∀ a t, f a = some t → -1 ≤ t) (hd : d = -2000000000 ∨ -1 ≤ d) :
      (o.bind f).getD d = -2000000000 ∨ -1 ≤ (o.bind f).getD d := by
    cases h : o.bind f with
    | none => exact hd
    | some t =>
      obtain ⟨a, -, ha⟩ := bind_eq_some_iff.1 h
      exact .inr (hf a t ha)
  refine hgetD (fun _ _ h => (Slot.ttl_range h).1) (hgetD (fun _ _ h => Object.ttl_ge h) (hgetD ?_ (.inl rfl)))
  intro item t h
  grind [Item.ttl]

/-- Where no entry is in the way, a deadline ahead is told by the time that is left. -/
lemma timeLeft_of_deadline {d : Int} (h : a.liveDeadline key (s.view now) = some (some d)) (hfits : d - now < 2 ^ 63)
    (hindex : ((s.view now).hot key).str = none → indexed now key s = none) :
    a.timeLeft now key s = d - now ∧ 0 ≤ d - now := by
  have hwrap (h0 : 0 ≤ d - now) : wrap64 (d - now) = d - now :=
    wrap64_of_fits (by omega) hfits
  unfold liveDeadline at h
  split at h
  · next slot hstr =>
    obtain ⟨hl, hlive⟩ := Store.lookup_of_live hstr
    cases slot with
    | counter n hn => simp [Slot.deadline] at h
    | entry e =>
      obtain ⟨hpos, rfl⟩ : 0 < e.expireAt.toInt ∧ e.expireAt.toInt = d := by
        have hd := ite_none_right_eq_some.1 (some.inj h)
        exact ⟨hd.1, some.inj hd.2⟩
      have h0 : e.expireAt ≠ 0 := fun h0 => by simp [h0] at hpos
      have hexp := hlive.2
      simp only [timeLeft, indexed, hl, bind_some, Slot.ttl, if_neg h0]
      grind [Entry.expired]
  · next o hstr hobj =>
    have hexp : ¬ o.expired now := by
      simp only [Tiers.view, Store.live, filter_eq_some_iff, decide_eq_true_eq] at hobj
      exact hobj.2
    simp only [timeLeft, hindex hstr, hobj, bind_some, Object.ttl]
    grind [Object.expired]
  · next hstr hobj =>
    obtain ⟨item, hitem, hd⟩ := map_eq_some_iff.1 h
    have hvis : item.Visible now := by
      cases a with
      | memory => cases hitem
      | tiered => exact of_decide_eq_true (filter_eq_some_iff.1 hitem).2
    have := hvis d (by rw [hd]; rfl)
    have huntil : Store.timeUntil d now = d - now := by
      unfold Store.timeUntil
      omega
    simp only [timeLeft, hindex hstr, hobj, hitem, bind_some, Item.ttl, hd]
    grind

def oneString (deadline : Int64) : Tiers Cache :=
  ⟨Store.single [107] (some (.entry ⟨[118], deadline, by decide⟩)) none, ∅⟩

end EngineAdapter

end AutoCache.Protocol
