import AutoCache.Lib.Runs
import AutoCache.Tiered.View

/-!
# Reads that go back in time

A ledger keeps, for every key, the value of the latest acknowledged `Set` with its deadline, until it is
deleted. What the tiers show of a key should be what the ledger says.

`Set` and `Expire` write one tier only, so a copy in the warm tier survives a newer one above it and
comes back when that is evicted or has expired. In runs where no key is written while the warm tier has
a copy of it, and where no deadline gets lost on the way, the tiers follow the ledger: every key is in
one tier at most, with the value and the deadline of the ledger.
-/

namespace AutoCache.Tiered

open Function World TierView Option

/-- What the clients were told of a key. `evicted` is set when its hot copy is evicted. -/
structure Record where
  value : Bytes
  deadline : Option Int
  evicted : Bool := false

structure Told where
  now : ℕ
  tiers : Tiers Cache
  ledger : Bytes → Option Record := fun _ => none

inductive TierEvent where
  | set (key value : Bytes) (ttl : Int)
  | del (keys : List Bytes)
  | expire (key : Bytes) (ttl : Int)
  | wait (ns : ℕ)
  | evict (key : Bytes)
  | demote (key : Bytes)
  | promote (key : Bytes)

namespace Told

variable (L : LogicalConfig)

/-- One event, and what the ledger makes of the reply. -/
def step (s : Told) : TierEvent → Go Told
  | .set key value ttl => do
    let (result, tiers) ← set L.engine s.now key value ttl s.tiers
    match result with
    | .error _ => return { s with tiers }
    | .ok () => return { s with
        tiers
        ledger := update s.ledger key (some ⟨value, Warm.deadline ttl s.now, false⟩) }
  | .del keys => do
    let (_, tiers) ← del L.engine s.now keys s.tiers
    return { s with tiers, ledger := fun k => if k ∈ keys then none else s.ledger k }
  | .expire key ttl => do
    let (done, tiers) ← expire L.engine s.now key ttl s.tiers
    if done then
      return { s with
        tiers
        ledger := update s.ledger key
          ((s.ledger key).map fun r => { r with deadline := some (s.now + ttl) }) }
    else return { s with tiers }
  | .wait ns => return { s with now := s.now + ns }
  | .evict key => do
    let (held, tiers) ← evict L.engine key s.tiers
    if held then
      return { s with
        tiers
        ledger := update s.ledger key ((s.ledger key).map fun r => { r with evicted := true }) }
    else return { s with tiers }
  | .demote key => do
    let (_, tiers) ← demoteKey L.engine s.now key s.tiers
    return { s with tiers }
  | .promote key => do
    let (_, tiers) ← promote L.engine s.now key s.tiers
    return { s with tiers }

/-- The ledger explains what is found of a key. At the deadline itself both answers are right. -/
def Explains (now : Int) (record : Option Record) : Option Bytes → Prop
  | some value => ∃ r, record = some r ∧ r.value = value ∧ ∀ t ∈ r.deadline, now ≤ t
  | none => ∀ r, record = some r → r.evicted = true ∨ ∃ t ∈ r.deadline, t ≤ now

/-- **Reads do not go back in time**: `Get` and `GetEntry` find what the ledger explains, or report that
there is nothing. -/
def ReadsRight (s : Told) (key : Bytes) : Prop :=
  ∃ found, Explains s.now (s.ledger key) found ∧
    (∃ s', get L.engine s.now key s.tiers = .ok (found.elim (.error .keyNotFound) .ok, s')) ∧
    ∃ entry s', getEntry L.engine s.now key s.tiers = .ok (entry, s') ∧
      entry.map EngineEntry.value = found.map Value.string

def hotSlot (s : Told) (key : Bytes) : Option Slot := (s.tiers.hot.live s.now key).str

def warmItem (s : Told) (key : Bytes) : Option Item := s.tiers.warm.txnGet key s.now

/-- What an event must find: a key that is written has no copy in the warm tier; a hot copy gets a
deadline in the future and is not moved at the very moment of its deadline; a copy is promoted while
its two deadlines agree. -/
def Orderly (s : Told) : TierEvent → Prop
  | .set key value ttl =>
    Cache.TooLarge L.size key value ∨
      (Readable key ∧ value.length < 65536 ∧ (0 < ttl → s.now + ttl < 2 ^ 63) ∧ s.warmItem key = none)
  | .expire key ttl => (s.hotSlot key).isSome → 0 < ttl ∧ s.now + ttl < 2 ^ 63
  | .demote key => ∀ slot ∈ s.hotSlot key, slot.deadline ≠ s.now
  | .promote key => ∀ item ∈ s.warmItem key, item.entry.expireAt = item.expiresAt
  | .del _ | .wait _ | .evict _ => True

end Told

/-! ## Where a key is -/

def entryDeadline (e : Entry) : Option Int :=
  if e.expireAt = 0 then none else some e.expireAt.toInt

open Told

/-- A key is in the hot tier, or in the warm tier, or nowhere, and the ledger agrees. -/
inductive Placed (key : Bytes) (now : Int) : KeyState → Option Item → Option Record → Prop where
  | hot (e : Entry) (r : Record) (hr : Readable key) (hpos : 0 ≤ e.expireAt.toInt)
      (hlive : ¬ e.expired now) (hval : r.value = e.value) (hdl : r.deadline = entryDeadline e) :
      Placed key now ⟨some (.entry e), none⟩ none (some r)
  | warm (item : Item) (r : Record) (hr : Readable key) (hvis : item.Visible now)
      (hval : item.entry.value = .string r.value) (hshort : r.value.length < 65536)
      (hdl : r.deadline = item.expiresAt) (hmax : ∀ t ∈ item.entry.expireAt, t < 2 ^ 63) :
      Placed key now ⟨none, none⟩ (some item) (some r)
  | nowhere (record : Option Record) (hgone : Explains now record none) :
      Placed key now ⟨none, none⟩ none record

namespace Placed

variable {key : Bytes} {now t : Int} {k : KeyState} {item : Option Item} {record : Option Record}

lemma obj (h : Placed key now k item record) : k.obj = none := by
  cases h <;> rfl

lemma later (h : Placed key now k item record) (ht : now ≤ t) :
    Placed key t ⟨k.str.filter (Slot.Live key t), k.obj.filter (¬ Object.expired · t)⟩
      (item.filter (Item.Visible t)) record := by
  cases h with
  | hot e r hr hpos hlive hval hdl =>
    by_cases hexp : e.expired t
    · have hdead : ¬ Slot.Live key t (.entry e) := fun h => h.2 hexp
      have hne : e.expireAt ≠ 0 := fun h => by simp [Entry.expired, h] at hexp
      simp only [filter_some, hdead, decide_false, filter_none, Bool.false_eq_true, if_false]
      refine .nowhere _ fun r' hr' => ?_
      cases hr'
      refine .inr ⟨e.expireAt.toInt, by simp [hdl, entryDeadline, hne], ?_⟩
      exact le_of_lt hexp.2
    · have halive : Slot.Live key t (.entry e) := ⟨hr, hexp⟩
      simp only [filter_some, halive, decide_true, filter_none, if_true]
      exact .hot e r hr hpos hexp hval hdl
  | warm item r hr hvis hval hshort hdl hmax =>
    by_cases hseen : item.Visible t
    · simp only [filter_some, hseen, decide_true, filter_none, if_true]
      exact .warm item r hr hseen hval hshort hdl hmax
    · simp only [filter_some, hseen, decide_false, filter_none, Bool.false_eq_true, if_false]
      refine .nowhere _ fun r' hr' => ?_
      cases hr'
      simp only [Item.Visible, not_forall] at hseen
      obtain ⟨d, hd, hpast⟩ := hseen
      exact .inr ⟨d, by rw [hdl]; exact hd, by omega⟩
  | nowhere record hgone =>
    refine .nowhere _ fun r hr => ?_
    rcases hgone r hr with hev | ⟨d, hd, hpast⟩
    · exact .inl hev
    · exact .inr ⟨d, hd, le_trans hpast ht⟩

end Placed

def AllPlaced (now : Int) (v : TierView) (ledger : Bytes → Option Record) : Prop :=
  ∀ key, Placed key now (v.hot key) (v.warm key) (ledger key)

namespace AllPlaced

variable {now t : Int} {v v' : TierView} {ledger ledger' : Bytes → Option Record} {key value : Bytes}
  {L : LogicalConfig} {ttl : Int}

lemma at_key (h : AllPlaced now v ledger) (key : Bytes)
    (hoff : ∀ k, k ≠ key → v'.hot k = v.hot k ∧ v'.warm k = v.warm k ∧ ledger' k = ledger k)
    (hkey : Placed key now (v'.hot key) (v'.warm key) (ledger' key)) : AllPlaced now v' ledger' := by
  intro k
  by_cases hk : k = key
  · rw [hk]
    exact hkey
  · obtain ⟨hhot, hwarm, hledger⟩ := hoff k hk
    rw [hhot, hwarm, hledger]
    exact h k

lemma placed_written (hnow : 0 ≤ now) (hr : Readable key) (hshort : value.length < 65536)
    (hmax : 0 < ttl → now + ttl < 2 ^ 63) (evicted : Bool) :
    freshSlot key now (.entry (writtenEntry value ttl now)) = some (.entry (writtenEntry value ttl now)) ∧
      Placed key now ⟨some (.entry (writtenEntry value ttl now)), none⟩ none
        (some ⟨value, Warm.deadline ttl now, evicted⟩) := by
  have hdl : (writtenEntry value ttl now).expireAt.toInt = if 0 < ttl then now + ttl else 0 := by
    rw [writtenEntry, Store.deadline_toInt, objectDeadline, wrap64]
    split
    · omega
    · rfl
  have hlive : ¬ (writtenEntry value ttl now).expired now := by
    rintro ⟨hpos, hpast⟩
    rw [hdl] at hpos hpast
    split at hpos <;> omega
  have hzero : (writtenEntry value ttl now).expireAt = 0 ↔ ¬ 0 < ttl := by
    rw [← Int64.toInt_inj, hdl]
    split
    · simp only [Int64.toInt_zero, not_true_eq_false, iff_false, *]
      omega
    · simp [*]
  refine ⟨by rw [Store.freshSlot_entry, if_pos ⟨hr, hlive⟩], .hot _ _ hr ?_ hlive ?_ ?_⟩
  · rw [hdl]
    split <;> omega
  · exact (storedValue_of_short hshort).symm
  · unfold entryDeadline Warm.deadline
    by_cases hpos : 0 < ttl
    · rw [if_pos hpos, if_neg (fun h => hzero.1 h hpos), hdl, if_pos hpos]
    · rw [if_neg hpos, if_pos (hzero.2 hpos)]

section

variable (h : AllPlaced now v ledger)
include h

lemma write (hnow : 0 ≤ now) (hr : Readable key) (hshort : value.length < 65536)
    (hmax : 0 < ttl → now + ttl < 2 ^ 63) (hwarm : v'.warm = update v.warm key none)
    (hhot : v'.hot = v.hot.putStr key value ttl now) (evicted : Bool) {record : Record}
    (hrecord : record = ⟨value, Warm.deadline ttl now, evicted⟩) :
    AllPlaced now v' (update ledger key (some record)) := by
  obtain ⟨hfresh, hplaced⟩ := placed_written hnow hr hshort hmax evicted
  refine h.at_key key (fun k hk => ⟨?_, ?_, ?_⟩) ?_
  · rw [hhot, putStr, setStr_apply, if_neg hk]
  · rw [hwarm, update_of_ne hk]
  · rw [update_of_ne hk]
  · have hkey : v'.hot key = ⟨some (.entry (writtenEntry value ttl now)), none⟩ := by
      rw [hhot, putStr, setStr_apply, if_pos rfl, hfresh]
      ext1
      · rfl
      · exact (h key).obj
    rw [hkey, hwarm, update_self, update_self, hrecord]
    exact hplaced

lemma set_tooLarge : v.hot.setStr key ((v.hot key).str.filter (!·.isCounter)) = v.hot := by
  have hsame : (v.hot key).str.filter (!·.isCounter) = (v.hot key).str := by
    have hplaced := h key
    generalize v.hot key = k at hplaced ⊢
    generalize v.warm key = item at hplaced
    generalize ledger key = record at hplaced
    cases hplaced <;> simp [Slot.isCounter]
  rw [hsame, setStr_self]

lemma del (keys : List Bytes) : AllPlaced now (v.del keys) fun k => if k ∈ keys then none else ledger k := by
  intro k
  have hhot : (v.del keys).hot k = if k ∈ keys then ⟨none, none⟩ else v.hot k := del_apply _ _ _
  rw [hhot]
  simp only [TierView.del]
  by_cases hk : k ∈ keys
  · simp only [hk, if_true]
    exact .nowhere none (fun r hr => by cases hr)
  · simp only [hk, if_false]
    exact h k

lemma expire (hnow : 0 ≤ now) (hhot : (v.hot key).str.isSome → 0 < ttl ∧ now + ttl < 2 ^ 63) :
    AllPlaced now (v.expire now key ttl).2 (if (v.expire now key ttl).1 then update ledger key
        ((ledger key).map fun r => { r with deadline := some (now + ttl) }) else ledger) := by
  have hplaced := h key
  generalize hk : v.hot key = k at hplaced
  generalize hi : v.warm key = item at hplaced
  generalize hl : ledger key = record at hplaced ⊢
  have hcold (hk : v.hot key = ⟨none, none⟩) : v.expire now key ttl =
      ((seenExpire now key ttl v.warm).1, ⟨v.hot, (seenExpire now key ttl v.warm).2⟩) := by
    simp [TierView.expire, World.expire, World.cacheExpire, World.objectExpire, hk]
  cases hplaced with
  | hot e r hr hpos hlive hval hdl =>
    obtain ⟨httl, hmax⟩ := hhot (by rw [hk]; rfl)
    have hent : { e with expireAt := AutoCache.deadline ttl now } = writtenEntry e.value ttl now := by
      simp [writtenEntry, storedValue_of_short e.short]
    have hexpire : v.expire now key ttl = (true, { v with hot := v.hot.putStr key e.value ttl now }) := by
      simp [TierView.expire, World.expire, World.cacheExpire, hk, hent, World.putStr]
    rw [hexpire]
    refine h.write hnow hr e.short (fun _ => hmax) ?_ rfl r.evicted ?_
    · exact (update_eq_self_iff.2 hi.symm).symm
    · simp [hval, Warm.deadline, httl]
  | warm item r hr hvis hval hshort hdl hmax =>
    have hseen : seenExpire now key ttl v.warm = (true, update v.warm key
        (if 0 < ttl then some ⟨item.entry, some (now + ttl)⟩ else none)) := by
      simp only [seenExpire, hi]
    rw [hcold hk, hseen]
    refine h.at_key key (fun k hne => ⟨rfl, update_of_ne hne _ _, ?_⟩) ?_
    · exact update_of_ne hne _ _
    simp only [if_true, update_self, hk, map_some]
    by_cases httl : 0 < ttl
    · rw [if_pos httl]
      refine .warm ⟨item.entry, some (now + ttl)⟩ _ hr (fun t ht => ?_) hval hshort rfl hmax
      cases ht
      omega
    · rw [if_neg httl]
      refine .nowhere _ fun r' hr' => ?_
      cases hr'
      exact .inr ⟨now + ttl, rfl, by omega⟩
  | nowhere record hgone =>
    have hseen : seenExpire now key ttl v.warm = (false, v.warm) := by simp only [seenExpire, hi]
    rw [hcold hk, hseen]
    exact h

end

lemma entryDeadline_lt {e : Entry} {t : Int} (h : t ∈ entryDeadline e) : t < 2 ^ 63 := by
  unfold entryDeadline at h
  split at h
  · cases h
  · cases h
    exact e.expireAt.toInt_lt

lemma future_of_live {e : Entry} (hlive : ¬ e.expired now) (hpos : 0 ≤ e.expireAt.toInt)
    (hne : e.expireAt.toInt ≠ now) (ht : t ∈ entryDeadline e) : now < t := by
  unfold entryDeadline at ht
  split at ht
  · cases ht
  · next hzero =>
    cases ht
    have hne' : e.expireAt.toInt ≠ 0 := fun h => hzero (Int64.toInt_inj.1 h)
    simp only [Entry.expired, not_and, not_lt] at hlive
    omega

lemma ttl_of_future {e : Entry} (hnow : 0 ≤ now) (hfuture : ∀ t ∈ entryDeadline e, now < t) :
    ((Slot.entry e).ttl now).bind (fun ttl => if ttl > 0 then some (now + ttl) else none) = entryDeadline e := by
  unfold entryDeadline at hfuture ⊢
  simp only [Slot.ttl]
  split
  · rfl
  · next hzero =>
    rw [if_neg hzero] at hfuture
    have hlt := hfuture _ rfl
    have hmax := e.expireAt.toInt_lt
    rw [wrap64_of_fits (by omega) (by omega), if_neg (by omega), bind_some, if_pos (by omega)]
    congr 1
    omega

lemma deadline_entryTTL {entry : EngineEntry} (hnow : 0 ≤ now) (h : ∀ t ∈ entry.expireAt, now < t ∧ t < 2 ^ 63) :
    Warm.deadline (entryTTL now entry) now = entry.expireAt := by
  cases hd : entry.expireAt with
  | none => simp [Warm.deadline, entryTTL, hd]
  | some t =>
    obtain ⟨hlt, hmax⟩ := h t (by rw [hd]; rfl)
    have httl : entryTTL now entry = t - now := by
      simp only [entryTTL, hd, Store.timeUntil]
      omega
    rw [httl, Warm.deadline, if_pos (by omega)]
    congr 1
    omega

section

variable (h : AllPlaced now v ledger)
include h

lemma evict (held : Bool) (hheld : held = false → (v.hot key).str = none) :
    AllPlaced now (v.evict key) (if held then update ledger key
      ((ledger key).map fun r => { r with evicted := true }) else ledger) := by
  cases held with
  | false =>
    have hsame : v.evict key = v := by
      have hstr := hheld rfl
      unfold TierView.evict
      rw [← hstr, setStr_self]
    rw [hsame]
    exact h
  | true =>
    refine h.at_key key (fun k hne => ⟨?_, rfl, update_of_ne hne _ _⟩) ?_
    · change v.hot.setStr key none k = _
      rw [setStr_apply, if_neg hne]
    have hplaced := h key
    have hkey : (v.evict key).hot key = ⟨none, (v.hot key).obj⟩ := by
      change v.hot.setStr key none key = _
      rw [setStr_apply, if_pos rfl]
    rw [hkey, hplaced.obj, if_pos rfl, update_self]
    change Placed key now ⟨none, none⟩ (v.warm key) _
    generalize v.hot key = k at hplaced
    generalize v.warm key = item at hplaced ⊢
    generalize ledger key = record at hplaced ⊢
    cases hplaced with
    | hot e r hr hpos hlive hval hdl =>
      refine .nowhere _ fun r' hr' => ?_
      cases hr'
      exact .inl rfl
    | warm item r hr hvis hval hshort hdl hmax =>
      exact .warm item _ hr hvis hval hshort hdl hmax
    | nowhere record hgone =>
      refine .nowhere _ fun r hr => ?_
      obtain ⟨r', -, rfl⟩ := map_eq_some_iff.1 hr
      exact .inl rfl

lemma demote (hnow : 0 ≤ now) (hhot : ∀ slot ∈ (v.hot key).str, slot.deadline ≠ now) :
    AllPlaced now (v.demote now key).2 ledger := by
  have hplaced := h key
  generalize hk : v.hot key = k at hplaced hhot
  generalize hi : v.warm key = item at hplaced
  generalize hl : ledger key = record at hplaced
  have hcold (hk : v.hot key = ⟨none, none⟩) : v.demote now key = (false, v) := by
    simp [TierView.demote, engineEntry, hk]
  cases hplaced with
  | hot e r hr hpos hlive hval hdl =>
    have hne : e.expireAt.toInt ≠ now := hhot _ rfl
    have hfuture : ∀ t ∈ entryDeadline e, now < t := fun t ht => future_of_live hlive hpos hne ht
    have hent : v.hot.engineEntry key now = some ⟨.string e.value, entryDeadline e⟩ := by
      simp only [engineEntry, hk, Slot.text, ttl_of_future hnow hfuture]
    have hdem : v.demote now key = (true, ⟨v.hot.del [key], update v.warm key
        (some ⟨⟨.string e.value, entryDeadline e⟩, entryDeadline e⟩)⟩) := by
      have hsame := @deadline_entryTTL now ⟨.string e.value, entryDeadline e⟩ hnow
        fun t ht => ⟨hfuture t ht, entryDeadline_lt ht⟩
      simp only [TierView.demote, hent, hsame]
      rw [if_neg]
      rintro ⟨t, ht, hpast⟩
      have := hfuture t ht
      unfold Store.timeUntil at hpast
      omega
    rw [hdem]
    refine h.at_key key (fun k hne => ⟨?_, update_of_ne hne _ _, rfl⟩) ?_
    · change v.hot.del [key] k = _
      rw [del_apply, if_neg (by simpa using hne)]
    · have hgone : v.hot.del [key] key = ⟨none, none⟩ := by
        rw [del_apply, if_pos (List.mem_singleton_self key)]
      change Placed key now (v.hot.del [key] key) (update v.warm key _ key) _
      rw [hgone, update_self, hl]
      exact .warm _ r hr hfuture (by rw [hval]) (by rw [hval]; exact e.short) hdl fun t ht => entryDeadline_lt ht
  | warm item r hr hvis hval hshort hdl hmax | nowhere record hgone =>
    rw [hcold hk]
    exact h

lemma promote (hnow : 0 ≤ now) (hwarm : ∀ item ∈ v.warm key, item.entry.expireAt = item.expiresAt) :
    AllPlaced now (v.promote now key L.size).2 ledger := by
  have hplaced := h key
  generalize hk : v.hot key = k at hplaced
  generalize hi : v.warm key = item at hplaced hwarm
  generalize hl : ledger key = record at hplaced
  cases hplaced with
  | hot e r hr hpos hlive hval hdl =>
    have hsame : v.promote now key L.size = (false, v) := by
      simp [TierView.promote, World.get, hk]
    rw [hsame]
    exact h
  | warm item r hr hvis hval hshort hdl hmax =>
    have hagree := hwarm item rfl
    have httl : Warm.deadline (entryTTL now item.entry) now = r.deadline := by
      rw [hdl, ← hagree]
      exact deadline_entryTTL hnow fun t ht => ⟨hvis t (by rw [← hagree]; exact ht), hmax t ht⟩
    have hprom : v.promote now key L.size = (true,
        ⟨v.hot.putStr key r.value (entryTTL now item.entry) now, update v.warm key none⟩) := by
      simp only [TierView.promote, World.get, hk, hi, stringEntryValue, hval, World.set,
        if_neg (Store.not_tooLarge_of_short hr hshort), isSome_none, Bool.false_eq_true, if_false]
    have hrecord : ledger = update ledger key (some r) :=
      (update_eq_self_iff.2 hl.symm).symm
    rw [hprom, hrecord]
    refine h.write hnow hr hshort (fun hpos => ?_) rfl rfl r.evicted ?_
    · have hd : r.deadline = some (now + entryTTL now item.entry) := by
        rw [← httl, Warm.deadline, if_pos hpos]
      exact hmax _ (by rw [hagree, ← hdl, hd]; rfl)
    · rw [httl]
  | nowhere record hgone =>
    have hsame : v.promote now key L.size = (false, v) := by
      simp [TierView.promote, World.get, hk, hi]
    rw [hsame]
    exact h

lemma later (ht : now ≤ t) : AllPlaced t (v.later t) ledger :=
  fun k => (h k).later ht

end

end AllPlaced

namespace Told

/-- Every key is where the ledger says. -/
def Settled (s : Told) : Prop := AllPlaced s.now (s.tiers.view s.now) s.ledger

variable {L : LogicalConfig} {s : Told}

lemma Settled.readsRight (h : s.Settled) (key : Bytes) : ReadsRight L s key := by
  obtain ⟨s₁, hget, -⟩ := (@get_simulates L s.now key).run s.tiers
  obtain ⟨s₂, hent, -⟩ := (@getEntry_simulates L s.now key).run s.tiers
  have hplaced := h key
  generalize Tiers.view s.now s.tiers = v at hget hent hplaced
  suffices hfnd : ∃ found, Explains s.now (s.ledger key) found ∧ v.get key = found.elim (.error .keyNotFound) .ok ∧
      (v.entry s.now key).map EngineEntry.value = found.map Value.string by
    obtain ⟨found, hexplains, hg, he⟩ := hfnd
    rw [hg] at hget
    exact ⟨found, hexplains, ⟨s₁, hget⟩, _, s₂, hent, he⟩
  generalize hk : v.hot key = k at hplaced
  generalize hi : v.warm key = item at hplaced
  generalize s.ledger key = record at hplaced ⊢
  cases hplaced with
  | hot e r hr hpos hlive hval hdl =>
    have hstr : (v.hot key).str = some (.entry e) := by rw [hk]
    obtain ⟨t, ht⟩ := @entry_hot v key s.now _ hstr
    refine ⟨some e.value, ⟨r, rfl, hval, fun d hd => ?_⟩, get_hot hstr, by rw [ht]; rfl⟩
    rw [hdl, entryDeadline] at hd
    split at hd
    · cases hd
    · next hne =>
      cases hd
      have hne' : e.expireAt.toInt ≠ 0 := fun h => hne (Int64.toInt_inj.1 h)
      simp only [Entry.expired, not_and, not_lt] at hlive
      exact hlive (by omega)
  | warm item r hr hvis hval hshort hdl hmax =>
    refine ⟨some r.value, ⟨r, rfl, rfl, fun d hd => ?_⟩, ?_, ?_⟩
    · rw [hdl] at hd
      exact le_of_lt (hvis d hd)
    · rw [get_cold hk, hi]
      simp [stringEntryValue, hval]
    · rw [entry_cold hk, hi]
      simp [hval]
  | nowhere record hgone =>
    refine ⟨none, hgone, ?_, ?_⟩
    · rw [get_cold hk, hi]
      rfl
    · rw [entry_cold hk, hi]
      rfl

lemma str_of_not_held {key : Bytes} {now : Int} {t t' : Tiers Cache}
    (h : evict L.engine key t = .ok (false, t')) : (t.hot.live now key).str = none := by
  by_cases hmem : key ∈ t.hot.shards
  · have hdelete : L.engine.delete t.hot.shards key = (t.hot.shards.erase key, true) := if_pos hmem
    have hshards : Store.onShards (fun c => return L.engine.delete c key) t.hot =
        .ok (true, { t.hot with shards := t.hot.shards.erase key }) := by
      unfold Store.onShards
      dsimp only
      rw [hdelete]
      rfl
    obtain ⟨s', huntrack, -⟩ := (@Store.untrackKey_acts L key now).run { t.hot with shards := t.hot.shards.erase key }
    have hheld : Store.cacheDelete L.engine key t.hot = .ok (true, s') := by
      unfold Store.cacheDelete
      rw [Views.run_bind hshards, if_pos rfl, Views.run_bind huntrack]
      rfl
    simp only [evict, hotCall, hheld, Go.ok_bind] at h
    cases h
  · rw [Store.live, Finmap.lookup_eq_none.2 hmem, filter_none]

/-- **An orderly event keeps every key in its place.** -/
lemma Settled.step {e : TierEvent} (h : s.Settled) (hc : s.Orderly L e) : ∃ s', step L s e = .ok s' ∧ s'.Settled := by
  have hnow : (0 : Int) ≤ s.now := Int.natCast_nonneg _
  cases e with
  | set key value ttl =>
    obtain ⟨tiers, hs, hview⟩ := (@set_simulates L s.now key value ttl).run s.tiers
    simp only [Told.step, hs, Go.ok_bind]
    simp only [TierView.set, World.set] at hview ⊢
    by_cases hlarge : Cache.TooLarge L.size key value
    · simp only [if_pos hlarge, Except.mapError, h.set_tooLarge] at hview ⊢
      refine ⟨_, rfl, ?_⟩
      unfold Settled at h ⊢
      rw [hview]
      exact h
    · obtain ⟨hr, hshort, hmax, hwarm⟩ := hc.resolve_left hlarge
      simp only [if_neg hlarge, Except.mapError] at hview ⊢
      refine ⟨_, rfl, ?_⟩
      unfold Settled
      rw [hview]
      refine h.write hnow hr hshort hmax ?_ rfl false rfl
      exact (update_eq_self_iff.2 hwarm.symm).symm
  | del keys =>
    obtain ⟨n, tiers, hs, hview⟩ := @del_simulates L s.now keys s.tiers
    simp only [Told.step, hs, Go.ok_bind]
    refine ⟨_, rfl, ?_⟩
    unfold Settled
    rw [← (Prod.mk.inj hview).2]
    exact h.del keys
  | expire key ttl =>
    obtain ⟨tiers, hs, hview⟩ := (@expire_simulates L s.now key ttl).run s.tiers
    simp only [Told.step, hs, Go.ok_bind]
    have hplaced := AllPlaced.expire h hnow hc
    rw [← hview] at hplaced
    cases hdone : ((s.tiers.view s.now).expire s.now key ttl).1 with
    | true | false =>
      rw [hdone] at hplaced
      exact ⟨_, rfl, hplaced⟩
  | wait ns =>
    refine ⟨_, rfl, ?_⟩
    have hle : (s.now : Int) ≤ (s.now + ns : ℕ) := by omega
    unfold Settled
    rw [Tiers.view_later hle]
    exact h.later hle
  | evict key =>
    obtain ⟨held, tiers, hs, hview⟩ := @evict_simulates L s.now key s.tiers
    simp only [Told.step, hs, Go.ok_bind]
    have hplaced := h.evict held fun hfalse => by
      rw [hfalse] at hs
      exact str_of_not_held hs
    rw [(Prod.mk.inj hview).2] at hplaced
    cases held <;> exact ⟨_, rfl, hplaced⟩
  | demote key =>
    obtain ⟨tiers, hs, hview⟩ := (@demote_simulates L s.now key).run s.tiers
    simp only [Told.step, hs, Go.ok_bind]
    refine ⟨_, rfl, ?_⟩
    unfold Settled
    rw [hview]
    exact h.demote hnow hc
  | promote key =>
    obtain ⟨tiers, hs, hview⟩ := (@promote_simulates L s.now key).run s.tiers
    simp only [Told.step, hs, Go.ok_bind]
    refine ⟨_, rfl, ?_⟩
    unfold Settled
    rw [hview]
    exact h.promote hnow hc

def start (now : ℕ) : Told := { now, tiers := ⟨⟨∅, ∅, ∅⟩, ∅⟩ }

lemma settled_start (now : ℕ) : (start now).Settled := fun key => by
  have hhot : ((start now).tiers.view now).hot key = ⟨none, none⟩ := by
    simp [start, Tiers.view, Store.live]
  have hwarm : ((start now).tiers.view now).warm key = none := by
    simp [start, Tiers.view, Warm.seen, Warm.txnGet]
  have hplaced : Placed key now ⟨none, none⟩ none none := .nowhere none fun r hr => by cases hr
  exact hplaced

end Told

end AutoCache.Tiered
