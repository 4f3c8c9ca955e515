import AutoCache.Store.Indexed
import AutoCache.Store.Logical

/-!
# What the map holds

The map is a backend in which no two keys share a hash: its calls add and remove the keys that the
slot index expects.
-/

namespace AutoCache

open Cache Finmap Except

section Logical

variable {size : RingSize} {c c' : Cache} {k x key value : Bytes} {now ttl : Int}

lemma Cache.get_fst (c : Cache) (key : Bytes) (now : Int) : (c.get key now).1 = c ∨ (c.get key now).1 = c.erase key := by
  unfold get
  split
  · exact .inl rfl
  · exact .inl rfl
  · split
    · exact .inl rfl
    · split
      · exact .inr rfl
      · exact .inl rfl

lemma Cache.get_some {v : Bytes} (h : (c.get key now).2 = some v) : key ∈ c := by
  unfold get at h
  cases hl : c.lookup key with
  | none => simp [hl] at h
  | some slot => exact mem_of_lookup_eq_some hl

lemma Cache.put_mem {c' : Cache} {o : WriteOutcome} (h : c.put size key value ttl now = (c', o))
    (hx : x ∈ c') : x ∈ c ∨ x = key ∧ o = .appended := by
  unfold put at h
  split at h
  · cases h
    exact .inl hx
  · cases h
    rcases mem_insert.1 hx with rfl | hx
    · exact .inr ⟨rfl, rfl⟩
    · exact .inl hx

lemma Cache.set_mem {o : WriteOutcome} (h : c.set size key value ttl now = (c', o)) (hx : x ∈ c') :
    x ∈ c ∨ x = key ∧ o = .appended := by
  unfold set at h
  cases hl : c.lookup key with rw [hl] at h
  | none =>
    exact put_mem h hx
  | some slot =>
    cases slot with
    | counter n hn =>
      exact (put_mem h hx).imp_left fun hm => (mem_erase.1 hm).2
    | entry e =>
      dsimp only at h
      split at h
      · cases h
        rcases mem_insert.1 hx with rfl | hx
        · exact .inl (mem_of_lookup_eq_some hl)
        · exact .inl hx
      · exact put_mem h hx

lemma Cache.mem_of_insert {slot : Slot} (hk : key ∈ c) (hx : x ∈ c.insert key slot) : x ∈ c := by
  rcases mem_insert.1 hx with rfl | hx
  · exact hk
  · exact hx

lemma Cache.setXX_mem {o : WriteOutcome} (h : c.setXX size key value ttl now = (c', o)) (hx : x ∈ c') : x ∈ c := by
  unfold setXX at h
  split at h
  · rename_i hold
    obtain ⟨e, hl, -⟩ := hold
    rcases put_mem h hx with hx | ⟨rfl, -⟩
    · exact hx
    · exact mem_of_lookup_eq_some hl
  · cases h
    exact hx

lemma Cache.expire_mem {b : Bool} (h : c.expire key ttl now = (c', b)) (hx : x ∈ c') : x ∈ c := by
  unfold expire at h
  split at h
  · rename_i e hl
    split at h
    · cases h
      exact mem_of_insert (mem_of_lookup_eq_some hl) hx
    · cases h
      exact hx
  · cases h
    exact hx

lemma Cache.incrBy_mem {delta : Int} {o : Shard.IncrOutcome} (h : c.incrBy key delta now = (c', o))
    (hx : x ∈ c') : x ∈ c ∨ x = key ∧ ∃ n, o = .created n := by
  unfold incrBy at h
  cases hl : c.lookup key with rw [hl] at h
  | none =>
    cases h
    rcases mem_insert.1 hx with rfl | hx
    · exact .inr ⟨rfl, delta, rfl⟩
    · exact .inl hx
  | some slot =>
    have hmem := mem_of_lookup_eq_some hl
    cases slot with
    | counter n hn =>
      cases h
      exact .inl (mem_of_insert hmem hx)
    | entry e =>
      dsimp only at h
      split at h
      · cases h
        exact .inl (mem_of_insert hmem hx)
      · split at h
        · cases h
          exact .inl hx
        · cases h
          exact .inl (mem_of_insert hmem hx)

lemma Cache.delete_mem : x ∈ (c.delete key).1 ↔ x ≠ key ∧ x ∈ c := by
  unfold delete
  split
  · exact mem_erase
  · rename_i hnot
    exact ⟨fun hx => ⟨fun h => hnot (h ▸ hx), hx⟩, fun h => h.2⟩

lemma Cache.ttl_delete {d : Int} (h : (c.delete k).1.ttl x now = some d) : c.ttl x now = some d := by
  unfold delete at h
  split at h
  · unfold ttl at h ⊢
    by_cases hx : x = k
    · simp [hx] at h
    · simpa [hx] using h
  · exact h

lemma Cache.get_other {c' : Cache} {v : Option Bytes} (h : c.get k now = (c', v)) (hx : x ≠ k) :
    (c'.get x now).2 = (c.get x now).2 := by
  have hlk : c'.lookup x = c.lookup x := by
    have hc := get_fst c k now
    rw [h] at hc
    rcases hc with rfl | rfl
    · rfl
    · exact lookup_erase_ne hx
  unfold get
  rw [hlk]
  cases c.lookup x with
  | none => rfl
  | some slot =>
    cases slot with
    | counter n hn => rfl
    | entry e =>
      dsimp only
      split
      · rfl
      · split <;> rfl

end Logical

/-- **What the map holds.** -/
theorem logicalBackend_indexed (size : RingSize) : (logicalBackend size).Indexed Set.univ fun c k => k ∈ c where
  get {c c' k now v} h x _ hx := by
    have hc := get_fst c k now
    rw [ok.inj h] at hc
    rcases hc with rfl | rfl
    · exact hx
    · exact (mem_erase.1 hx).2
  get_some h := get_some (congrArg Prod.snd (ok.inj h))
  set _ h x _ hx := set_mem (ok.inj h) hx
  setNX {c c' k value ttl now o} _ h x _ hx := by
    have hset : setNX size c k value ttl now = (c', o) := ok.inj h
    unfold setNX at hset
    split at hset
    · cases hset
      exact .inl hx
    · exact put_mem hset hx
  setXX h x _ hx := setXX_mem (ok.inj h) hx
  expire h x _ hx := expire_mem (ok.inj h) hx
  incrBy _ h x _ hx := incrBy_mem (ok.inj h) hx
  delete _ x _ := delete_mem
  delete_done {c k} := by
    change (delete c k).2 = true ↔ k ∈ c
    unfold delete
    split
    · rename_i h
      exact ⟨fun _ => h, fun _ => rfl⟩
    · rename_i h
      exact ⟨fun hf => absurd hf (by simp), fun hk => absurd hk h⟩
  clear := notMem_empty
  ttl_delete _ x _ h := congrArg ok (ttl_delete (ok.inj h))
  get_other {c c' k now v} _ h x _ hx :=
    congrArg ok (get_other (ok.inj h) hx)

end AutoCache
