import AutoCache.Ring.Defs

/-!
# Ring accesses stay in the buffer

Each operation of the ring is first given a closed form that no longer mentions faults. A
buffer is *well formed* when its head, tail and fill lie where they should (`Wf`); every
operation keeps that, and `WriteWithEvict` always returns: each pass of its loops lowers `used`
by at least a header. The one access that can leave the buffer is the copy of the value in
`UpdateInPlace` (`updateInPlace_eq`).
-/

namespace AutoCache.Ring

/-! ## Headers -/

@[simp] lemma EntryHeader.marshal_length (h : EntryHeader) : h.marshal.length = 24 := by
  simp [marshal]

lemma EntryHeader.unmarshal_marshal (h : EntryHeader) (rest : Bytes) : unmarshal (h.marshal ++ rest) = h := by
  obtain ⟨e, hash, k, v, c, f⟩ := h
  have he : leNat (leBytes 8 e.toUInt64.toNat) = e.toUInt64.toNat :=
    leNat_leBytes_of_lt (e.toUInt64.toNat_lt)
  have hh : leNat (leBytes 8 hash.toNat) = hash.toNat := leNat_leBytes_of_lt hash.toNat_lt
  have hk : leNat (leBytes 2 k.toNat) = k.toNat := leNat_leBytes_of_lt k.toNat_lt
  have hv : leNat (leBytes 2 v.toNat) = v.toNat := leNat_leBytes_of_lt v.toNat_lt
  have hc : leNat (leBytes 2 c.toNat) = c.toNat := leNat_leBytes_of_lt c.toNat_lt
  have hf : leNat (leBytes 2 f.toNat) = f.toNat := leNat_leBytes_of_lt f.toNat_lt
  simp [unmarshal, marshal, List.drop_append, List.drop_of_length_le, he, hh, hk, hv, hc, hf]

lemma headerSize_eq : headerSize = 24 := rfl

lemma headerEntrySize_ge (h : EntryHeader) : 24 ≤ headerEntrySize h := by
  unfold headerEntrySize headerSize
  omega

namespace RingBuffer

variable {rb : RingBuffer}

/-! ## Closed forms -/

/-- The header the bytes at `offset` denote. -/
def headerAt (rb : RingBuffer) (offset : Int) : EntryHeader :=
  .unmarshal (rb.data.load offset 24)

lemma slice_ok {lo hi : Int} (h0 : 0 ≤ lo) (h1 : lo ≤ hi) (h2 : hi ≤ rb.capacity) :
    rb.slice lo hi = .ok () := if_pos ⟨h0, h1, h2⟩

lemma slice_fault {lo hi : Int} (h : rb.capacity < hi ∨ hi < lo) : rb.slice lo hi = .error .sliceBounds := if_neg (by omega)

variable {offset : Int} {c c' : Cursor} {cond : Cursor → Bool}

lemma unmarshalFrom_eq (h0 : 0 ≤ offset) (h1 : offset + 24 ≤ rb.capacity) :
    rb.unmarshalFrom offset = .ok (rb.headerAt offset) := by
  unfold unmarshalFrom
  rw [headerSize_eq, slice_ok h0 (by omega) le_rfl, slice_ok h0 (by omega) h1]
  rfl

lemma readHeaderAt_eq (rb : RingBuffer) (offset : Int) :
    rb.readHeaderAt offset = .ok (if offset < 0 ∨ offset + 24 > rb.capacity
      then .error .invalidOffset else .ok (rb.headerAt offset)) := by
  unfold readHeaderAt
  rw [headerSize_eq]
  split
  · rfl
  · rw [unmarshalFrom_eq (by omega) (by omega)]
    rfl

/-- The key and the value the bytes at `offset` denote. -/
def entryAt (rb : RingBuffer) (offset : Int) : Bytes × Bytes × EntryHeader :=
  let h := rb.headerAt offset
  (rb.data.load (offset + 24) h.keyLen.toNat,
    rb.data.load (offset + 24 + h.keyLen.toNat) h.valLen.toNat, h)

/-- What `ReadAt` returns. -/
def peek (rb : RingBuffer) (offset : Int) : Except RingError (Bytes × Bytes × EntryHeader) :=
  if offset < 0 ∨ offset + headerEntrySize (rb.headerAt offset) > rb.capacity
  then .error .invalidOffset else .ok (rb.entryAt offset)

lemma readAt_eq (rb : RingBuffer) (offset : Int) : rb.readAt offset = .ok (rb.peek offset) := by
  have hsz : headerEntrySize (rb.headerAt offset) =
      24 + (rb.headerAt offset).keyLen.toNat + (rb.headerAt offset).valLen.toNat := rfl
  unfold readAt peek
  rw [headerSize_eq]
  by_cases h0 : offset < 0 ∨ offset + 24 > rb.capacity
  · rw [if_pos h0, if_pos (by omega)]
    rfl
  rw [if_neg h0, unmarshalFrom_eq (by omega) (by omega)]
  simp only [Go.ok_bind]
  by_cases h1 : offset + 24 + (rb.headerAt offset).keyLen.toNat + (rb.headerAt offset).valLen.toNat > rb.capacity
  · rw [if_pos h1, if_pos (by omega)]
    rfl
  · rw [if_neg h1, if_neg (by omega), slice_ok (by omega) (by omega) (by omega), slice_ok (by omega) (by omega) (by omega)]
    rfl

/-- The memory after an entry is written: what lies past the end of the buffer is cut off. -/
def put (rb : RingBuffer) (offset : Int) (header : EntryHeader) (key value : Bytes) :
    RingBuffer :=
  let room := (rb.capacity - (offset + 24 + key.length)).toNat
  { rb with data := rb.data.store offset (header.marshal ++ key ++ value.take room) }

lemma put_data (header : EntryHeader) {key value : Bytes} (h : offset + 24 + key.length + value.length ≤ rb.capacity) :
    (rb.put offset header key value).data = rb.data.store offset (header.marshal ++ key ++ value) := by
  unfold put
  dsimp only
  rw [List.take_of_length_le (by omega)]

def overwrite (rb : RingBuffer) (offset : Int) (header : EntryHeader) (key value : Bytes) :
    RingBuffer :=
  { rb.put offset header key value with writeCount := rb.writeCount + 1 }

lemma marshalTo_eq (h : EntryHeader) (h0 : 0 ≤ offset) (h1 : offset + 24 ≤ rb.capacity) :
    rb.marshalTo offset h = .ok { rb with data := rb.data.store offset h.marshal } := by
  unfold marshalTo
  rw [headerSize_eq, slice_ok h0 (by omega) le_rfl, slice_ok h0 (by omega) h1]
  rfl

lemma copyTo_eq (src : Bytes) (h0 : 0 ≤ offset) (h1 : offset ≤ rb.capacity) : rb.copyTo offset src = .ok { rb with
      data := rb.data.store offset (src.take (rb.capacity - offset).toNat) } := by
  unfold copyTo
  rw [slice_ok h0 h1 le_rfl]
  rfl

lemma writeEntry_eq (header : EntryHeader) {key : Bytes} (value : Bytes)
    (h0 : 0 ≤ offset) (h1 : offset + 24 + key.length ≤ rb.capacity) :
    rb.writeEntry offset header key value = .ok (rb.put offset header key value) := by
  unfold writeEntry
  rw [headerSize_eq, marshalTo_eq header h0 (by omega)]
  simp only [Go.ok_bind]
  rw [copyTo_eq key (by omega) (by simpa using by omega)]
  simp only [Go.ok_bind]
  rw [copyTo_eq value (by omega) (by simpa using h1)]
  have hk : key.take (rb.capacity - (offset + 24)).toNat = key :=
    List.take_of_length_le (by omega)
  have e : offset + 24 = offset + ((header.marshal.length : ℕ) : Int) := by simp
  have e2 : offset + 24 + (key.length : Int) = offset + ((header.marshal ++ key).length : ℕ) := by
    simp
    omega
  simp only [put, hk, Except.ok.injEq, mk.injEq, and_true]
  rw [e2, e, Mem.store_store_append, Mem.store_store_append]

lemma writeEntry_fault (header : EntryHeader) {key : Bytes} (value : Bytes) (h0 : 0 ≤ offset) (h1 : offset + 24 ≤ rb.capacity)
    (h2 : rb.capacity < offset + 24 + key.length) :
    rb.writeEntry offset header key value = .error .sliceBounds := by
  unfold writeEntry
  rw [headerSize_eq, marshalTo_eq header h0 h1]
  simp only [Go.ok_bind]
  rw [copyTo_eq key (by omega) (by simpa using h1)]
  simp only [Go.ok_bind]
  unfold copyTo
  rw [slice_fault (Or.inr (by simpa using h2))]
  rfl

/-- An in-place update at `offset` is tried and finds its entry large enough. -/
def FitsInPlace (rb : RingBuffer) (offset : Int) (key value : Bytes) : Prop :=
  0 ≤ offset ∧ offset + 24 ≤ rb.capacity ∧
    24 + (key.length : Int) + value.length ≤ headerEntrySize (rb.headerAt offset)

instance (offset : Int) (key value : Bytes) : Decidable (rb.FitsInPlace offset key value) := by
  unfold FitsInPlace
  infer_instance

/-- **`UpdateInPlace` in closed form.** It compares the new size with the size the old header
gives, but never with the end of the buffer. -/
lemma updateInPlace_eq (rb : RingBuffer) (offset : Int) (header : EntryHeader) (key value : Bytes) :
    rb.updateInPlace offset header key value = if rb.FitsInPlace offset key value then
        if offset + 24 + key.length ≤ rb.capacity then
          .ok (rb.overwrite offset header key value, true)
        else .error .sliceBounds
      else .ok (rb, false) := by
  unfold updateInPlace
  rw [headerSize_eq]
  by_cases h0 : offset < 0 ∨ offset + 24 > rb.capacity
  · have hn : ¬ rb.FitsInPlace offset key value := by
      unfold FitsInPlace
      omega
    simp only [if_pos h0, if_neg hn]
    rfl
  · simp only [if_neg h0]
    rw [unmarshalFrom_eq (by omega) (by omega)]
    simp only [Go.ok_bind]
    by_cases h1 : 24 + (key.length : Int) + value.length > headerEntrySize (rb.headerAt offset)
    · have hn : ¬ rb.FitsInPlace offset key value := by
        unfold FitsInPlace
        omega
      simp only [if_pos h1, if_neg hn]
      rfl
    · have hf : rb.FitsInPlace offset key value := ⟨by omega, by omega, by omega⟩
      simp only [if_neg h1, if_pos hf]
      by_cases h2 : offset + 24 + key.length ≤ rb.capacity
      · rw [writeEntry_eq header value (by omega) h2, if_pos h2]
        rfl
      · rw [writeEntry_fault header value (by omega) (by omega) (by omega), if_neg h2]
        rfl

/-! ## The loops -/

/-- One eviction without the monad. -/
def evictStep (rb : RingBuffer) (c : Cursor) : Option Cursor :=
  if c.head < 0 ∨ c.head + 24 > rb.capacity ∨
      headerEntrySize (rb.headerAt c.head) > rb.capacity then none
  else
    let size := headerEntrySize (rb.headerAt c.head)
    some { c with
      evicted := c.evicted ++ [⟨(rb.headerAt c.head).hash64, c.head⟩]
      head := if c.head + size ≥ rb.capacity then 0 else c.head + size
      used := c.used - size
      evictCount := c.evictCount + 1 }

lemma evictOne_eq (rb : RingBuffer) (c : Cursor) : rb.evictOne c = .ok (rb.evictStep c) := by
  unfold evictOne evictStep
  rw [readHeaderAt_eq]
  have hge := headerEntrySize_ge (rb.headerAt c.head)
  by_cases h0 : c.head < 0 ∨ c.head + 24 > rb.capacity
  · rw [if_pos h0, if_pos (by omega)]
    rfl
  simp only [if_neg h0, Go.ok_bind]
  by_cases h1 : headerEntrySize (rb.headerAt c.head) > rb.capacity
  · rw [if_pos (Or.inr h1), if_pos (by omega)]
    rfl
  · have h2 : ¬ (headerEntrySize (rb.headerAt c.head) ≤ 0 ∨ headerEntrySize (rb.headerAt c.head) > rb.capacity) := by omega
    have h3 : ¬ (c.head < 0 ∨ c.head + 24 > rb.capacity ∨ headerEntrySize (rb.headerAt c.head) > rb.capacity) := by omega
    simp only [if_neg h2, if_neg h3]
    rfl

lemma evictStep_used (h : rb.evictStep c = some c') : c'.used + 24 ≤ c.used := by
  unfold evictStep at h
  have hge := headerEntrySize_ge (rb.headerAt c.head)
  split at h
  · cases h
  · cases h
    simp only
    omega

/-- **The rule for the eviction loops.** A loop whose condition needs something to be left
returns, with what holds when the condition fails or the body breaks. -/
lemma evictLoop_rule {P Q : Cursor → Prop} (hpos : ∀ c, P c → cond c = true → 0 < c.used)
    (hstep : ∀ c c', P c → cond c = true → rb.evictStep c = some c' → P c')
    (hbreak : ∀ c, P c → cond c = true → rb.evictStep c = none → Q c.reset)
    (hexit : ∀ c, P c → cond c = false → Q c) :
    ∀ (fuel : ℕ) (c : Cursor), P c → c.used.toNat ≤ fuel → ∃ c', rb.evictLoop cond fuel c = .ok c' ∧ Q c' := by
  intro fuel
  induction fuel with
  | zero =>
    intro c hP hf
    cases hc : cond c with
    | false => exact ⟨c, by simp [evictLoop, hc], hexit c hP hc⟩
    | true => have := hpos c hP hc; omega
  | succ fuel ih =>
    intro c hP hf
    cases hc : cond c with
    | false => exact ⟨c, by simp [evictLoop, hc], hexit c hP hc⟩
    | true =>
      cases hs : rb.evictStep c with
      | none =>
        refine ⟨c.reset, ?_, hbreak c hP hc hs⟩
        simp [evictLoop, hc, evictOne_eq, hs]
      | some c' =>
        have hu := evictStep_used hs
        obtain ⟨c'', h1, h2⟩ := ih c' (hstep c c' hP hc hs) (by omega)
        refine ⟨c'', ?_, h2⟩
        simp [evictLoop, hc, evictOne_eq, hs, h1]

lemma evictLoop_exit {c : Cursor} (fuel : ℕ) (h : cond c = false) : rb.evictLoop cond fuel c = .ok c := by
  cases fuel <;> simp [evictLoop, h]

lemma evictLoop_mono {fuel fuel' : ℕ} (hle : fuel ≤ fuel')
    (h : rb.evictLoop cond fuel c = .ok c') : rb.evictLoop cond fuel' c = .ok c' := by
  induction fuel generalizing fuel' c with
  | zero =>
    cases hc : cond c with
    | true => simp [evictLoop, hc] at h
    | false =>
      simp only [evictLoop, hc, Bool.false_eq_true, if_false, Go.pure_eq_ok, Except.ok.injEq] at h
      rw [evictLoop_exit fuel' hc, h]
  | succ fuel ih =>
    obtain ⟨fuel', rfl⟩ := Nat.exists_eq_add_of_le' (Nat.zero_lt_of_lt hle)
    cases hc : cond c with
    | false => rw [evictLoop_exit _ hc] at h ⊢; exact h
    | true =>
      cases hs : rb.evictStep c with
      | none => simpa [evictLoop, hc, evictOne_eq, hs] using h
      | some d =>
        simp only [evictLoop, hc, evictOne_eq, hs, Go.ok_bind, if_true] at h ⊢
        exact ih (by omega) h

lemma makeRoom_of_le {n : Int} {c : Cursor} (h : c.used + n ≤ rb.capacity) : rb.makeRoom n c = .ok c :=
  evictLoop_exit _ (decide_eq_false (by omega))

lemma makeRoom_step {n : Int} (hn : n ≤ rb.capacity) (h : rb.capacity < c.used + n) (hs : rb.evictStep c = some c') :
    rb.makeRoom n c = rb.makeRoom n c' := by
  obtain ⟨r, hr, -⟩ := @evictLoop_rule rb (fun c => decide (n > rb.capacity - c.used)) (fun _ => True) (fun _ => True)
    (fun c _ hc => by have := of_decide_eq_true hc; omega) (fun _ _ _ _ _ => trivial)
    (fun _ _ _ _ => trivial) (fun _ _ _ => trivial) c'.used.toNat c' trivial le_rfl
  have hu := evictStep_used hs
  obtain ⟨f, hf⟩ : ∃ f, c.used.toNat = f + 1 := ⟨c.used.toNat - 1, by omega⟩
  have hc : decide (n > rb.capacity - c.used) = true := decide_eq_true (by omega)
  unfold makeRoom
  rw [hr, hf]
  simp only [evictLoop, hc, evictOne_eq, hs, Go.ok_bind, if_true]
  exact evictLoop_mono (by omega) hr

end RingBuffer

/-! ## Well-formed buffers -/

/-- Head, tail and fill of a buffer lie where they should. -/
structure RingBuffer.Wf (rb : RingBuffer) : Prop where
  cap_ge : minRingBufferSize ≤ rb.capacity
  head_nonneg : 0 ≤ rb.head
  head_lt : rb.head < rb.capacity
  tail_nonneg : 0 ≤ rb.tail
  tail_le : rb.tail ≤ rb.capacity
  used_le : rb.used ≤ rb.capacity

structure Cursor.Wf (cap : Int) (c : Cursor) : Prop where
  head_nonneg : 0 ≤ c.head
  head_lt : c.head < cap
  tail_nonneg : 0 ≤ c.tail
  tail_le : c.tail ≤ cap
  used_le : c.used ≤ cap

lemma newRingBuffer_wf (capacity : Int) : (newRingBuffer capacity).Wf := by
  have h : minRingBufferSize ≤ (newRingBuffer capacity).capacity := by
    change _ ≤ if capacity < minRingBufferSize then minRingBufferSize else capacity
    split <;> omega
  have h0 : (0 : Int) < minRingBufferSize := by decide
  exact ⟨h, le_rfl, show 0 < _ by omega, le_rfl, show 0 ≤ _ by omega, show 0 ≤ _ by omega⟩

namespace RingBuffer

variable {rb : RingBuffer}

lemma Wf.cap_pos (h : rb.Wf) : 1048576 ≤ rb.capacity := h.cap_ge

lemma Wf.reset (h : rb.Wf) : rb.reset.Wf := by
  have := h.cap_pos
  exact ⟨h.cap_ge, le_rfl, show 0 < rb.capacity by omega, le_rfl, show 0 ≤ rb.capacity by omega,
    show 0 ≤ rb.capacity by omega⟩

lemma evictStep_wf {c c' : Cursor} (hw : c.Wf rb.capacity) (h : rb.evictStep c = some c') : c'.Wf rb.capacity := by
  obtain ⟨h1, h2, h3, h4, h5⟩ := hw
  have hge := headerEntrySize_ge (rb.headerAt c.head)
  unfold evictStep at h
  split at h
  · cases h
  cases h
  refine ⟨?_, ?_, h3, h4, ?_⟩
  · dsimp only
    split <;> omega
  · dsimp only
    split <;> omega
  · dsimp only
    omega

variable {c : Cursor} {key value : Bytes}

/-- **The first loop returns**, with room for the entry. -/
lemma makeRoom_ok (h0 : 0 < rb.capacity) (hw : c.Wf rb.capacity) {n : Int} (hn : n ≤ rb.capacity) :
    ∃ c', rb.makeRoom n c = .ok c' ∧ c'.Wf rb.capacity ∧ c'.used + n ≤ rb.capacity := by
  refine evictLoop_rule (P := fun c => c.Wf rb.capacity)
    (Q := fun c => c.Wf rb.capacity ∧ c.used + n ≤ rb.capacity) ?_ ?_ ?_ ?_ _ c hw le_rfl
  · intro c _ hc
    have := of_decide_eq_true hc
    omega
  · intro c c' hc _ hs
    exact evictStep_wf hc hs
  · intro c _ _ _
    exact ⟨⟨le_rfl, h0, le_rfl, h0.le, h0.le⟩, by simpa [Cursor.reset] using hn⟩
  · intro c hc hx
    have := of_decide_eq_false hx
    exact ⟨hc, by omega⟩

/-- **The second loop returns**, with a tail before which the entry fits. -/
lemma wrapTail_ok (h0 : 0 < rb.capacity) (hw : c.Wf rb.capacity) {n : Int}
    (hn : n ≤ rb.capacity) (hroom : c.used + n ≤ rb.capacity) :
    ∃ c', rb.wrapTail n c = .ok c' ∧ c'.Wf rb.capacity ∧ c'.used + n ≤ rb.capacity ∧ c'.tail + n ≤ rb.capacity := by
  unfold wrapTail
  split
  · refine evictLoop_rule (P := fun c => c.Wf rb.capacity ∧ c.used + n ≤ rb.capacity ∧ c.tail = 0) ?_ ?_ ?_ ?_ _ _
      ⟨⟨hw.head_nonneg, hw.head_lt, le_rfl, h0.le, hw.used_le⟩, hroom, rfl⟩ le_rfl
    · intro c _ hc
      exact (of_decide_eq_true hc).1
    · rintro c c' ⟨hc, hu, ht⟩ _ hs
      have hused := evictStep_used hs
      refine ⟨evictStep_wf hc hs, by omega, ?_⟩
      unfold evictStep at hs
      split at hs
      · cases hs
      · cases hs
        exact ht
    · intro c _ _ _
      have hz : (0 : Int) + n ≤ rb.capacity := by omega
      exact ⟨⟨le_rfl, h0, le_rfl, h0.le, h0.le⟩, hz, hz⟩
    · rintro c ⟨hc, hu, ht⟩ _
      exact ⟨hc, hu, by omega⟩
  · exact ⟨c, rfl, hw, hroom, by omega⟩

lemma overwrite_wf (h : rb.Wf) (offset : Int) (header : EntryHeader) (key value : Bytes) :
    (rb.overwrite offset header key value).Wf :=
  ⟨h.cap_ge, h.head_nonneg, h.head_lt, h.tail_nonneg, h.tail_le, h.used_le⟩

def entrySize (key value : Bytes) : Int := 24 + key.length + value.length

/-- The cursor `WriteWithEvict` starts with. -/
def cursor (rb : RingBuffer) : Cursor := ⟨rb.head, rb.tail, rb.used, [], rb.evictCount⟩

lemma Wf.cursor (h : rb.Wf) : rb.cursor.Wf rb.capacity :=
  ⟨h.head_nonneg, h.head_lt, h.tail_nonneg, h.tail_le, h.used_le⟩

/-- The buffer after an entry was written where the cursor's tail is. -/
def commit (rb : RingBuffer) (c : Cursor) (header : EntryHeader) (key value : Bytes) :
    RingBuffer :=
  { rb.put c.tail header key value with
    head := c.head
    tail := c.tail + entrySize key value
    used := c.used + entrySize key value
    writeCount := rb.writeCount + 1
    evictCount := c.evictCount }

/-- `WriteWithEvict`, given where its two loops end. -/
lemma writeWithEvict_eq {header : EntryHeader} {c c' : Cursor} (hn : entrySize key value ≤ rb.capacity)
    (h1 : rb.makeRoom (entrySize key value) rb.cursor = .ok c)
    (h2 : rb.wrapTail (entrySize key value) c = .ok c')
    (h0 : 0 ≤ c'.tail) (hfit : c'.tail + entrySize key value ≤ rb.capacity) :
    rb.writeWithEvict header key value = .ok (rb.commit c' header key value, .ok (c'.tail, c'.evicted)) := by
  unfold entrySize at *
  unfold writeWithEvict
  unfold cursor at h1
  rw [headerSize_eq, if_neg (by omega), h1]
  simp only [Go.ok_bind]
  rw [h2]
  simp only [Go.ok_bind]
  rw [writeEntry_eq header value h0 (by omega)]
  rfl

lemma writeWithEvict_too_large (header : EntryHeader) (h : rb.capacity < entrySize key value) :
    rb.writeWithEvict header key value = .ok (rb, .error .entryTooLarge) := by
  unfold entrySize at h
  unfold writeWithEvict
  rw [headerSize_eq, if_pos (by omega)]
  rfl

lemma writeWithEvict_of_fits (hw : rb.Wf) (header : EntryHeader) (hu : rb.used + entrySize key value ≤ rb.capacity)
    (ht : rb.tail + entrySize key value ≤ rb.capacity) :
    rb.writeWithEvict header key value = .ok (rb.commit rb.cursor header key value, .ok (rb.tail, [])) := by
  have h0 := hw.tail_nonneg
  have h2 : rb.wrapTail (entrySize key value) rb.cursor = .ok rb.cursor := by
    unfold wrapTail
    rw [if_neg (by change ¬ (rb.tail + _ > _); omega)]
    rfl
  exact writeWithEvict_eq (by omega) (makeRoom_of_le hu) h2 h0 ht

/-- **`WriteWithEvict` always returns**: either nothing happened because the entry is larger than
the buffer, or it was written inside the buffer. -/
theorem writeWithEvict_cases (hw : rb.Wf) (header : EntryHeader) (key value : Bytes) :
    (rb.capacity < entrySize key value ∧ rb.writeWithEvict header key value = .ok (rb, .error .entryTooLarge)) ∨
    ∃ c c', rb.makeRoom (entrySize key value) rb.cursor = .ok c ∧
      rb.wrapTail (entrySize key value) c = .ok c' ∧ c'.Wf rb.capacity ∧
      c'.used + entrySize key value ≤ rb.capacity ∧
      c'.tail + entrySize key value ≤ rb.capacity ∧
      rb.writeWithEvict header key value = .ok (rb.commit c' header key value, .ok (c'.tail, c'.evicted)) := by
  have h0 := hw.cap_pos
  rcases lt_or_ge rb.capacity (entrySize key value) with h | h
  · exact .inl ⟨h, writeWithEvict_too_large header h⟩
  · obtain ⟨c, h1, hc, hr⟩ := makeRoom_ok (by omega) hw.cursor h
    obtain ⟨c', h2, hc', hr', ht⟩ := wrapTail_ok (by omega) hc h hr
    exact .inr ⟨c, c', h1, h2, hc', hr', ht, writeWithEvict_eq h h1 h2 hc'.tail_nonneg ht⟩

lemma commit_wf (hw : rb.Wf) (hc : c.Wf rb.capacity) {header : EntryHeader} (hu : c.used + entrySize key value ≤ rb.capacity)
    (ht : c.tail + entrySize key value ≤ rb.capacity) :
    (rb.commit c header key value).Wf := by
  have h0 := hc.tail_nonneg
  refine ⟨hw.cap_ge, hc.head_nonneg, hc.head_lt, ?_, ht, hu⟩
  change 0 ≤ c.tail + entrySize key value
  unfold entrySize
  omega

end RingBuffer

end AutoCache.Ring
