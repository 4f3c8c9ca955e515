import AutoCache.Store.Calls

/-!
# What does not pass

Copies without a deadline, and keys without a copy, stay as they are while time goes on.
-/

namespace AutoCache

open KeyState

def plain (value : Bytes) : Slot := .entry (writtenEntry value 0 0)

def KeyState.gone : KeyState := ⟨none, none⟩

variable {w : World} {key value : Bytes} {t : Int}

lemma storedValue_short (value : Bytes) : (storedValue value).length < 65536 := by
  rw [storedValue_length]
  omega

lemma live_plain (h : Readable key) : Slot.Live key t (plain value) :=
  ⟨h, fun hexp => by simp [writtenEntry, Store.deadline_zero, Entry.expired] at hexp⟩

lemma later_plain (hr : Readable key) (h : (w key).str = some (plain value)) : (w.later t key).str = some (plain value) := by
  simp [World.later, h, @live_plain key value t hr]

lemma later_gone (h : w key = gone) : w.later t key = gone := by
  simp [World.later, h, gone]

lemma later_object {o : TypedValue} (h : w key = ⟨none, some ⟨o, 0⟩⟩) : w.later t key = ⟨none, some ⟨o, 0⟩⟩ := by
  simp [World.later, h, Object.expired]

lemma del_gone : w.del [key] key = gone := by
  rw [World.del_apply, if_pos (List.mem_singleton_self key)]
  rfl

lemma value_eq_none_iff {k : KeyState} : k.value = none ↔ k = gone := by
  obtain ⟨str, obj⟩ := k
  cases str <;> cases obj <;> simp [value, gone]

lemma World.set_of_fits {size : RingSize} {now : Int} (h : ¬ Cache.TooLarge size key value) :
    w.set size key value 0 now = (.ok (), w.setStr key (if Readable key then some (plain value) else none)) := by
  rw [World.set, if_neg h, World.putStr, Store.freshSlot_written_zero]
  rfl

end AutoCache
