import AutoCache.Store.Lasting

/-!
# What `Rename` and `RestoreEntry` leave behind

Both delete first and write afterwards. The write fails when the entry is too large, and then what was
deleted is gone. `Rename` of a string looks at the string alone: a collection behind it comes to light, a time
to live of zero becomes none, and under a name that no read finds the string is lost.
-/

namespace AutoCache

open World KeyState

/-- The copy that a client sees: its value, with its type, and its deadline. -/
def KeyState.seen (k : KeyState) : Option (Value × Int) :=
  match k.str with
  | some slot => some (.string slot.text, slot.deadline)
  | none => k.obj.map fun o => (.object o.value, o.expireAt)

lemma KeyState.seen_eq_none_iff {k : KeyState} : k.seen = none ↔ k = .gone := by
  obtain ⟨str, obj⟩ := k
  cases str <;> cases obj <;> simp [seen, gone]

namespace Store

inductive ReplaceCall where
  | rename (key newkey : Bytes)
  | restoreEntry (key : Bytes) (type : ValueType) (payload : Bytes) (ttl : Int)

namespace ReplaceCall

def run {σ : Type} (E : Engine σ) (now : Int) : ReplaceCall → StoreM σ (Except StoreError Unit)
  | rename key newkey => Store.rename E key newkey now
  | restoreEntry key type payload ttl => Store.restoreEntry E key type payload ttl now

/-- An error leaves every key as it was. A rename moves what is seen of the key, nothing is left of what the
other key held, and no third key changes. -/
def Exact (w w' : World) : ReplaceCall → Except StoreError Unit → Prop
  | _, .error _ => ∀ k, (w' k).seen = (w k).seen
  | rename key newkey, .ok _ => key ≠ newkey →
      w' key = .gone ∧ (w' newkey).seen = (w key).seen ∧
        ((w' newkey).str = none ∨ (w' newkey).obj = none) ∧
        ∀ k, k ≠ key → k ≠ newkey → (w' k).seen = (w k).seen
  | restoreEntry _ _ _ _, .ok _ => True

/-- A string that is renamed fits, has no collection behind it, can be read under its new name and has time
left; a string that is restored fits, or there was nothing to lose. -/
def ExactWhen (size : RingSize) (now : Int) (w : World) : ReplaceCall → Prop
  | rename key newkey => ∀ slot, (w key).str = some slot →
      ¬ Cache.TooLarge size newkey slot.text ∧ (key ≠ newkey → (w key).obj = none ∧ Readable newkey ∧
        (slot.deadline = 0 ∨ 0 < wrap64 (slot.deadline - now)))
  | restoreEntry key .string payload _ => Cache.TooLarge size key payload → w key = .gone
  | restoreEntry _ _ _ _ => True

end ReplaceCall

variable {w : World} {size : RingSize} {key newkey : Bytes} {slot : Slot} {ttl now : Int}

lemma text_short (slot : Slot) : slot.text.length < 65536 := by
  cases slot with
  | counter n hn =>
    have : (formatInt n).length ≤ 19 := (formatInt_length_le_iff (by decide)).2 (by omega)
    exact lt_of_le_of_lt this (by decide)
  | entry e => exact e.short

/-- The deadline that the string gets under its new name. -/
lemma deadline_renamed (hobj : (w key).obj = none) : objectDeadline (w.renameTTL key now slot) now = slot.deadline ↔
      slot.deadline = 0 ∨ 0 < wrap64 (slot.deadline - now) := by
  unfold renameTTL objectDeadline
  rw [hobj, Option.bind_none, Option.or_none]
  cases slot with
  | counter n hn => simp [Slot.ttl, Slot.deadline]
  | entry e =>
    have hmin := e.expireAt.le_toInt
    have hmax := e.expireAt.toInt_lt
    have h0 : e.expireAt = 0 ↔ e.expireAt.toInt = 0 := Int64.toInt_inj.symm
    simp only [Slot.ttl, Slot.deadline, h0]
    by_cases hz : e.expireAt.toInt = 0
    · simp [hz]
    · by_cases hneg : wrap64 (e.expireAt.toInt - now) < 0
      · rw [if_neg hz, if_pos hneg, Option.getD_none, if_neg (by decide)]
        omega
      · rw [if_neg hz, if_neg hneg, Option.getD_some, max_eq_right (by omega)]
        unfold wrap64 at hneg ⊢
        split <;> omega

lemma seen_renamed (hlive : slot.Live key now) (hobj : (w key).obj = none) :
    seen ⟨freshSlot newkey now (.entry (writtenEntry slot.text (w.renameTTL key now slot) now)), none⟩ =
        some (.string slot.text, slot.deadline) ↔
      Readable newkey ∧ (slot.deadline = 0 ∨ 0 < wrap64 (slot.deadline - now)) := by
  have hexp (h : objectDeadline (w.renameTTL key now slot) now = slot.deadline) :
      ¬ (writtenEntry slot.text (w.renameTTL key now slot) now).expired now := by
    simp only [Entry.expired, writtenEntry, deadline_toInt, h]
    cases slot with
    | counter n hn => simp [Slot.deadline]
    | entry e => exact hlive.2
  have htext := storedValue_of_short (text_short slot)
  rw [← deadline_renamed hobj, freshSlot_entry]
  split
  · next hfresh =>
    change some (Value.string (storedValue slot.text), (deadline _ now).toInt) = _ ↔ _
    rw [htext, deadline_toInt]
    simp [hfresh.1]
  · next hfresh =>
    refine iff_of_false (by simp [seen]) fun h => hfresh ⟨h.1, hexp h.2⟩

namespace ReplaceCall

/-- The string of a key goes, whether or not it arrives under its new name. -/
lemma rename_key (hstr : (w key).str = some slot) (hne : key ≠ newkey ∨ Cache.TooLarge size newkey slot.text) :
    (w.rename size key newkey now).2 key = ⟨none, if key = newkey then none else (w key).obj⟩ := by
  unfold World.rename World.set World.putStr
  rw [hstr]
  dsimp only
  split <;> by_cases hk : key = newkey <;> simp_all [setStr_apply, setObj_apply]

lemma rename_exact_iff (s : Store Cache) : (rename key newkey).Exact (s.live now) ((s.live now).rename size key newkey now).2
        ((s.live now).rename size key newkey now).1 ↔
      (rename key newkey).ExactWhen size now (s.live now) := by
  cases hstr : (s.live now key).str with
  | none =>
    unfold World.rename ExactWhen
    cases hobj : (s.live now key).obj with
    | none => simp [Exact, hstr, hobj]
    | some o =>
      simp only [hstr, hobj, Exact, reduceCtorEq, false_implies, implies_true, iff_true]
      intro hne
      refine ⟨?_, ?_, ?_, fun k hk hnew => ?_⟩ <;> simp [setStr_apply, setObj_apply, seen, gone, *, Ne.symm hne]
  | some slot =>
    have hseen : (s.live now key).seen = some (.string slot.text, slot.deadline) := by
      rw [seen, hstr]
    simp only [ExactWhen, hstr, Option.some.injEq, forall_eq']
    by_cases hlarge : Cache.TooLarge size newkey slot.text
    · have hkey := @rename_key (s.live now) size key newkey slot now hstr (.inr hlarge)
      have herror : ((s.live now).rename size key newkey now).1 = .error tooLarge := by
        simp [World.rename, World.set, hstr, hlarge]
      refine iff_of_false (fun h => ?_) fun h => h.1 hlarge
      rw [herror] at h
      have := h key
      rw [hkey, hseen] at this
      cases hobj : (if key = newkey then none else (s.live now key).obj) <;> simp [seen, hobj] at this
    · have hok : ((s.live now).rename size key newkey now).1 = .ok () := by
        simp [World.rename, World.set, hstr, hlarge]
      rw [hok]
      simp only [Exact, hlarge, not_false_eq_true, true_and]
      refine forall_congr' fun hne => ?_
      have hkey := @rename_key (s.live now) size key newkey slot now hstr (.inl hne)
      have hnew : ((s.live now).rename size key newkey now).2 newkey = ⟨freshSlot newkey now
          (.entry (writtenEntry slot.text ((s.live now).renameTTL key now slot) now)), none⟩ := by
        simp [World.rename, World.set, World.putStr, hstr, hlarge, World.setStr_apply, World.setObj_apply]
      have hoth (k : Bytes) (hk : k ≠ key) (hk' : k ≠ newkey) :
          ((s.live now).rename size key newkey now).2 k = s.live now k := by
        simp [World.rename, World.set, World.putStr, hstr, hlarge, World.setStr_apply, World.setObj_apply, hk, hk']
      have hgone : (⟨none, (s.live now key).obj⟩ : KeyState) = .gone ↔ (s.live now key).obj = none := by
        simp [gone]
      rw [hkey, if_neg hne, hgone, hnew, hseen]
      refine and_congr_right fun hobj => ?_
      rw [seen_renamed (lookup_of_live hstr).2 hobj]
      exact and_iff_left ⟨.inr rfl, fun k hk hk' => by rw [hoth k hk hk']⟩

lemma restore_string_exact_iff {payload : Bytes} :
    (restoreEntry key .string payload ttl).Exact w (w.restore size key ttl now (.string payload)).2
        (w.restore size key ttl now (.string payload)).1 ↔
      (restoreEntry key .string payload ttl).ExactWhen size now w := by
  unfold World.restore World.set ExactWhen
  by_cases hlarge : Cache.TooLarge size key payload
  · have hgone : (w.delKey key).setStr key (((w.delKey key) key).str.filter (!·.isCounter)) = w.delKey key := by
      have := setStr_self (w.delKey key) key
      simpa [delKey_apply] using this
    simp only [hlarge, if_true, Exact, true_implies, hgone]
    constructor
    · intro h
      rw [← seen_eq_none_iff, ← h key, delKey_apply, if_pos rfl]
      rfl
    · intro h k
      rw [delKey_apply]
      split
      · next hk => rw [hk, h]; rfl
      · rfl
  · simp [hlarge, Exact]

end ReplaceCall

end Store

end AutoCache
