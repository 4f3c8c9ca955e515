import AutoCache.Ring.Bounds
import AutoCache.Lib.Tiling
import AutoCache.Lib.Runs

/-!
# The layout of the ring and its eviction accounting

An entry is *live* from the write that returned its offset until some call reports it, by hash
and offset, as evicted. `Ledger` runs the buffer together with the list of its live entries.

As long as no write leaves a gap between the last entry and the end of the buffer (`NoGap`), the
live entries tile the buffer from `head` to `tail` (`Layout`), the eviction walk meets exactly
them, and the accounting is right. A write that wraps early leaves a gap that `used` does not
count but the room test takes for free: from then on a write can land on a live entry
(`writes_overlap`).
-/

namespace AutoCache.Ring

open Tiling RingBuffer List Runs

/-! ## Stored entries -/

/-- What a write stores: a header that carries the true lengths, a key and a value. -/
structure Entry where
  header : EntryHeader
  key : Bytes
  value : Bytes
  keyLen_eq : header.keyLen.toNat = key.length
  valLen_eq : header.valLen.toNat = value.length

namespace Entry

variable (w : Entry)

def size : Int := entrySize w.key w.value

def bytes : Bytes := w.header.marshal ++ w.key ++ w.value

lemma size_eq : w.size = 24 + w.key.length + w.value.length := rfl

lemma bytes_length : (w.bytes.length : Int) = w.size := by
  rw [size_eq, bytes, length_append, length_append, EntryHeader.marshal_length]
  push_cast
  ring

lemma headerEntrySize_eq : headerEntrySize w.header = w.size := by
  unfold headerEntrySize
  rw [w.keyLen_eq, w.valLen_eq]
  rfl

lemma size_le : w.size ≤ 131094 := by
  have h1 : w.header.keyLen.toNat < 65536 := w.header.keyLen.toNat_lt
  have h2 : w.header.valLen.toNat < 65536 := w.header.valLen.toNat_lt
  rw [w.keyLen_eq] at h1
  rw [w.valLen_eq] at h2
  rw [size_eq]
  omega

lemma size_ge : 24 ≤ w.size := by
  rw [size_eq]
  omega

end Entry

structure Stored where
  offset : Int
  entry : Entry

namespace Stored

def size (e : Stored) : Int := e.entry.size

/-- How an eviction of the entry is reported. -/
def report (e : Stored) : EvictedEntry := ⟨e.entry.header.hash64, e.offset⟩

end Stored

namespace RingBuffer

variable {rb : RingBuffer}

def Holds (rb : RingBuffer) (e : Stored) : Prop :=
  rb.data.load e.offset e.entry.bytes.length = e.entry.bytes

lemma holds_iff (e : Stored) : rb.Holds e ↔ rb.data.load e.offset 24 = e.entry.header.marshal ∧
      rb.data.load (e.offset + 24) e.entry.key.length = e.entry.key ∧
      rb.data.load (e.offset + 24 + e.entry.key.length) e.entry.value.length = e.entry.value := by
  have hlen : e.entry.bytes.length = 24 + (e.entry.key.length + e.entry.value.length) := by
    simp [Entry.bytes]
  unfold Holds
  rw [hlen, Mem.load_add, Mem.load_add, Entry.bytes, append_assoc]
  constructor
  · intro h
    obtain ⟨h1, h2⟩ := append_inj h (by simp)
    obtain ⟨h3, h4⟩ := append_inj h2 (by simp)
    exact ⟨h1, h3, h4⟩
  · rintro ⟨h1, h2, h3⟩
    rw [h1, Nat.cast_ofNat, h2, h3]

variable {e : Stored} {offset : Int} {w : Entry}

lemma Holds.headerAt_eq (h : rb.Holds e) : rb.headerAt e.offset = e.entry.header := by
  unfold headerAt
  rw [((holds_iff e).1 h).1]
  simpa using EntryHeader.unmarshal_marshal e.entry.header []

lemma Holds.readAt_eq (h : rb.Holds e) (h0 : 0 ≤ e.offset) (h1 : e.offset + e.size ≤ rb.capacity) :
    rb.readAt e.offset = .ok (.ok (e.entry.key, e.entry.value, e.entry.header)) := by
  have hs : headerEntrySize (rb.headerAt e.offset) = e.size := by
    rw [h.headerAt_eq, e.entry.headerEntrySize_eq]
    rfl
  have he : rb.entryAt e.offset = (e.entry.key, e.entry.value, e.entry.header) := by
    obtain ⟨-, h2, h3⟩ := (holds_iff e).1 h
    unfold entryAt
    simp only [h.headerAt_eq, e.entry.keyLen_eq, e.entry.valLen_eq, h2, h3]
  rw [RingBuffer.readAt_eq, peek, hs, if_neg (by omega), he]

lemma put_entry_data (h : offset + w.size ≤ rb.capacity) :
    (rb.put offset w.header w.key w.value).data = rb.data.store offset w.bytes :=
  put_data _ (by rw [Entry.size_eq] at h; omega)

lemma holds_put (h : offset + w.size ≤ rb.capacity) : (rb.put offset w.header w.key w.value).Holds ⟨offset, w⟩ := by
  unfold Holds
  rw [put_entry_data h]
  exact Mem.load_store_self _ _ _

lemma Holds.put_of_apart (he : rb.Holds e)
    (h : offset + w.size ≤ rb.capacity) (ha : Apart Stored.offset Stored.size e ⟨offset, w⟩) :
    (rb.put offset w.header w.key w.value).Holds e := by
  unfold Holds at *
  rw [put_entry_data h, Mem.load_store_disjoint, he]
  rw [e.entry.bytes_length, w.bytes_length]
  exact ha

lemma Holds.congr (h : rb.Holds e) {rb' : RingBuffer} (hd : rb'.data = rb.data) : rb'.Holds e := by
  unfold Holds at *
  rw [hd, h]

end RingBuffer

/-! ## The layout -/

/-- **The layout of a buffer that was never wrapped early**: the live entries, oldest first,
tile it from `head` to `tail`, and `used` is the room they take. -/
structure Layout (rb : RingBuffer) (live : List Stored) : Prop where
  wf : rb.Wf
  tiled : Tiled Stored.offset Stored.size rb.capacity rb.head rb.tail live
  holds : ∀ e ∈ live, rb.Holds e
  used_eq : rb.used = total Stored.size live

/-- A write of `n` bytes leaves no gap at the end of the buffer: it fits before the end, or the
last entry ends there. -/
def RingBuffer.NoGap (rb : RingBuffer) (n : Int) : Prop :=
  rb.tail + n ≤ rb.capacity ∨ rb.tail = rb.capacity

instance (rb : RingBuffer) (n : Int) : Decidable (rb.NoGap n) := by
  unfold NoGap
  infer_instance

/-- Where an eviction walk stands: it has reported the entries of `gone` and those of `kept`
still tile the buffer. -/
structure Frontier (rb : RingBuffer) (live : List Stored) (c : Cursor) (gone kept : List Stored) :
    Prop where
  split : live = gone ++ kept
  evicted : c.evicted = gone.map Stored.report
  tail_eq : c.tail = rb.tail
  head_nonneg : 0 ≤ c.head
  head_lt : c.head < rb.capacity
  tiled : Tiled Stored.offset Stored.size rb.capacity c.head rb.tail kept
  used_eq : c.used = total Stored.size kept

section Walk

variable {rb : RingBuffer} {live gone kept : List Stored} {c : Cursor} {x : Stored}

lemma newRingBuffer_layout (capacity : Int) : Layout (newRingBuffer capacity) [] where
  wf := newRingBuffer_wf capacity
  tiled := .straight rfl
  holds := by simp
  used_eq := rfl

section

variable (h : Layout rb live)
include h

lemma Layout.reset : Layout rb.reset [] where
  wf := h.wf.reset
  tiled := .straight rfl
  holds := by simp
  used_eq := rfl

lemma Layout.bounds (hx : x ∈ live) : 0 ≤ x.offset ∧ x.offset + x.size ≤ rb.capacity :=
  h.tiled.bounds h.wf.head_nonneg h.wf.head_lt h.wf.tail_le hx

lemma Layout.readAt_eq (hx : x ∈ live) : rb.readAt x.offset = .ok (.ok (x.entry.key, x.entry.value, x.entry.header)) :=
  (h.holds x hx).readAt_eq (h.bounds hx).1 (h.bounds hx).2

lemma Layout.eq_of_offset_eq {y : Stored} (hx : x ∈ live) (hy : y ∈ live) (hxy : x.offset = y.offset) : x = y := by
  by_contra hne
  have hap := h.tiled.pairwise.forall hx hy hne
  have h1 : 24 ≤ x.size := x.entry.size_ge
  have h2 : 24 ≤ y.size := y.entry.size_ge
  unfold Apart at hap
  omega

lemma Layout.frontier : Frontier rb live rb.cursor [] live where
  split := rfl
  evicted := rfl
  tail_eq := rfl
  head_nonneg := h.wf.head_nonneg
  head_lt := h.wf.head_lt
  tiled := h.tiled
  used_eq := h.used_eq

end

/-- **One step of the walk** evicts the oldest entry. -/
lemma Frontier.step (hl : Layout rb live) (h : Frontier rb live c gone (x :: kept)) (hne : kept ≠ []) :
    ∃ c', rb.evictStep c = some c' ∧ Frontier rb live c' (gone ++ [x]) kept := by
  have hx : x ∈ live := by rw [h.split]; simp
  have hpos : x.offset = c.head := h.tiled.head_eq h.head_lt
  have hhead : rb.headerAt c.head = x.entry.header := by rw [← hpos, (hl.holds x hx).headerAt_eq]
  have hsize : headerEntrySize (rb.headerAt c.head) = x.size := by
    rw [hhead, x.entry.headerEntrySize_eq]
    rfl
  have hb := hl.bounds hx
  have hge : 24 ≤ x.size := x.entry.size_ge
  refine ⟨_, if_neg (by rw [hsize]; omega), ?_⟩
  have hnext : next rb.capacity (c.head + x.size) = if c.head + x.size ≥ rb.capacity then 0 else c.head + x.size := rfl
  rw [hsize, ← hnext]
  refine ⟨?_, ?_, h.tail_eq, ?_, ?_, h.tiled.pop h.head_lt hl.wf.tail_le hne, ?_⟩
  · rw [h.split]
    simp
  · rw [map_append, ← h.evicted, hhead, ← hpos]
    rfl
  · dsimp only
    unfold Tiling.next
    split <;> omega
  · dsimp only
    unfold Tiling.next
    split <;> omega
  · have hu := h.used_eq
    rw [total_cons] at hu
    dsimp only
    omega

/-- **The first loop** evicts a prefix of the live entries. Since an entry is far smaller than
the buffer, the loop stops before it runs out of entries. -/
lemma Layout.makeRoom (hl : Layout rb live) {n : Int} (hn : n ≤ 131094) : ∃ c, rb.makeRoom n rb.cursor = .ok c ∧
      ∃ gone kept, Frontier rb live c gone kept ∧ c.used + n ≤ rb.capacity := by
  have hcap := hl.wf.cap_pos
  -- a pass of the loop finds at least two entries: what is used is more than one can be
  have hstep : ∀ c, (∃ gone kept, Frontier rb live c gone kept) → rb.capacity - c.used < n →
      ∃ c', rb.evictStep c = some c' ∧ ∃ gone kept, Frontier rb live c' gone kept := by
    rintro c ⟨gone, kept, hf⟩ hc
    have hu := hf.used_eq
    match kept, hf with
    | [], hf => simp at hu; omega
    | [x], hf =>
      have : x.size ≤ 131094 := x.entry.size_le
      simp at hu
      omega
    | x :: y :: kept, hf =>
      obtain ⟨c', h1, h2⟩ := hf.step hl (by simp)
      exact ⟨c', h1, _, _, h2⟩
  refine evictLoop_rule (P := fun c => ∃ gone kept, Frontier rb live c gone kept)
    (Q := fun c => ∃ gone kept, Frontier rb live c gone kept ∧ c.used + n ≤ rb.capacity)
    ?_ ?_ ?_ ?_ _ _ ⟨[], live, hl.frontier⟩ le_rfl
  · intro c _ hc
    have := of_decide_eq_true hc
    omega
  · intro c c' hP hc hs
    obtain ⟨c'', h1, h2⟩ := hstep c hP (of_decide_eq_true hc)
    rw [hs] at h1
    cases h1
    exact h2
  · intro c hP hc hs
    obtain ⟨c'', h1, -⟩ := hstep c hP (of_decide_eq_true hc)
    rw [hs] at h1
    cases h1
  · rintro c ⟨gone, kept, hf⟩ hc
    have := of_decide_eq_false hc
    exact ⟨gone, kept, hf, by omega⟩

/-- **The second part never evicts**: where the tail wraps, everything live lies between the
head and the end of the buffer, and the room that was made lies before the head. -/
lemma Frontier.wrapTail (h : Frontier rb live c gone kept) {n : Int} (hroom : c.used + n ≤ rb.capacity) (hgap : rb.NoGap n) :
    rb.wrapTail n c = .ok { c with tail := if rb.tail + n ≤ rb.capacity then rb.tail else 0 } := by
  have ht := h.tail_eq
  unfold RingBuffer.wrapTail
  by_cases hfit : rb.tail + n ≤ rb.capacity
  · rw [if_neg (by omega), if_pos hfit, ← ht]
    rfl
  · have htail : rb.tail = rb.capacity := hgap.resolve_left hfit
    have hu := h.used_eq
    have htot := h.tiled.total_eq
    rw [if_pos (by omega), if_neg hfit]
    refine evictLoop_exit _ (decide_eq_false ?_)
    dsimp only
    omega

end Walk

/-! ## A write keeps the layout -/

section Write

variable {rb : RingBuffer} {live gone kept : List Stored} {c : Cursor}

lemma Frontier.push (h : Frontier rb live c gone kept) {w : Entry}
    (hroom : c.used + w.size ≤ rb.capacity) (hgap : rb.NoGap w.size) {offset : Int}
    (ho : offset = if rb.tail + w.size ≤ rb.capacity then rb.tail else 0) :
    Tiled Stored.offset Stored.size rb.capacity c.head (offset + w.size) (kept ++ [⟨offset, w⟩]) := by
  have hpos : 0 < w.size := by have := w.size_ge; omega
  have hu := h.used_eq
  by_cases hfit : rb.tail + w.size ≤ rb.capacity
  · rw [if_pos hfit] at ho
    subst ho
    let x : Stored := ⟨rb.tail, w⟩
    have hx : total Stored.size kept + x.size ≤ rb.capacity := by
      change _ + w.size ≤ _
      omega
    exact h.tiled.push_straight hx rfl hpos
  · have htail : rb.tail = rb.capacity := hgap.resolve_left hfit
    rw [if_neg hfit] at ho
    subst ho
    have ht := h.tiled
    rw [htail] at ht
    rw [zero_add]
    let x : Stored := ⟨0, w⟩
    have hx : total Stored.size kept + x.size ≤ rb.capacity := by
      change _ + w.size ≤ _
      omega
    exact ht.push_around h.head_lt hx rfl hpos

/-- **A write that leaves no gap keeps the layout.** It reports a prefix of the live entries,
oldest first, and the new entry becomes the newest. -/
theorem Layout.write (hl : Layout rb live) (w : Entry) (hgap : rb.NoGap w.size) :
    ∃ rb' offset gone kept, live = gone ++ kept ∧ rb.writeWithEvict w.header w.key w.value =
        .ok (rb', .ok (offset, gone.map Stored.report)) ∧
      rb'.capacity = rb.capacity ∧ Layout rb' (kept ++ [⟨offset, w⟩]) := by
  have hcap := hl.wf.cap_pos
  have hle := w.size_le
  have hge := w.size_ge
  have htail0 := hl.wf.tail_nonneg
  have hsz : entrySize w.key w.value = w.size := rfl
  obtain ⟨c, h1, gone, kept, hf, hroom⟩ := hl.makeRoom hle
  have h2 := hf.wrapTail hroom hgap
  obtain ⟨offset, ho⟩ : ∃ offset, offset = if rb.tail + w.size ≤ rb.capacity then rb.tail else 0 := ⟨_, rfl⟩
  rw [← ho] at h2
  have hin : 0 ≤ offset ∧ offset + w.size ≤ rb.capacity := by
    rw [ho]
    split <;> omega
  have htiled := hf.push hroom hgap ho
  refine ⟨rb.commit { c with tail := offset } w.header w.key w.value, offset, gone, kept, hf.split, ?_, rfl, ?_⟩
  · rw [writeWithEvict_eq (by omega) h1 h2 hin.1 hin.2, ← hf.evicted]
  refine ⟨?_, htiled, ?_, ?_⟩
  · have hc : Cursor.Wf rb.capacity { c with tail := offset } :=
      ⟨hf.head_nonneg, hf.head_lt, hin.1, show offset ≤ _ by omega, show c.used ≤ _ by omega⟩
    exact commit_wf hl.wf hc hroom hin.2
  · -- the new entry is read back, and the others do not meet it
    intro e he
    rcases mem_append.1 he with hk | hk
    · have hlive : e ∈ live := by rw [hf.split]; exact mem_append_right _ hk
      have hap := (pairwise_append.1 htiled.pairwise).2.2 e hk _ mem_cons_self
      exact ((hl.holds e hlive).put_of_apart hin.2 hap).congr rfl
    · rw [mem_singleton.1 hk]
      exact (holds_put hin.2).congr rfl
  · rw [total_append, ← hf.used_eq, total_cons, total_nil, add_zero]
    rfl

lemma Layout.write_of_fits (hl : Layout rb live) {w : Entry} (hu : rb.used + w.size ≤ rb.capacity)
    (ht : rb.tail + w.size ≤ rb.capacity) :
    rb.writeWithEvict w.header w.key w.value = .ok (rb.commit rb.cursor w.header w.key w.value, .ok (rb.tail, [])) ∧
      Layout (rb.commit rb.cursor w.header w.key w.value) (live ++ [⟨rb.tail, w⟩]) := by
  have hw := writeWithEvict_of_fits hl.wf w.header hu ht
  obtain ⟨rb', offset, gone, kept, rfl, hw', -, hl'⟩ := hl.write w (.inl ht)
  rw [hw] at hw'
  simp only [Except.ok.injEq, Prod.mk.injEq] at hw'
  obtain ⟨rfl, rfl, hg⟩ := hw'
  rw [map_eq_nil_iff.1 hg.symm]
  exact ⟨hw, hl'⟩

/-- A write that evicts the oldest entry and wraps, leaving a gap behind the newest one. -/
lemma Layout.write_wraps {x y : Stored} {rest : List Stored} (hl : Layout rb (x :: y :: rest))
    (header : EntryHeader) (key value : Bytes)
    (h1 : rb.capacity < rb.used + entrySize key value)
    (h2 : rb.used - x.size + entrySize key value ≤ rb.capacity)
    (h3 : rb.capacity < rb.tail + entrySize key value)
    (h4 : entrySize key value ≤ y.offset) :
    ∃ c : Cursor, c.Wf rb.capacity ∧ c.head = y.offset ∧ c.tail = 0 ∧ c.used = rb.used - x.size ∧
      rb.writeWithEvict header key value = .ok (rb.commit c header key value, .ok (0, [x.report])) := by
  have hb := hl.bounds (x := y) (by simp)
  have hy : 24 ≤ y.size := y.entry.size_ge
  have hle := hl.wf.used_le
  obtain ⟨c, hstep, hf⟩ := hl.frontier.step hl (by simp)
  have hhead : c.head = y.offset := (hf.tiled.head_eq hf.head_lt).symm
  have hused : c.used = rb.used - x.size := by
    have e1 := hl.used_eq
    have e2 := hf.used_eq
    rw [total_cons] at e1
    omega
  have hroom : rb.makeRoom (entrySize key value) rb.cursor = .ok c := by
    rw [makeRoom_step (by omega) h1 hstep, makeRoom_of_le (by omega)]
  have hwrap : rb.wrapTail (entrySize key value) c = .ok { c with tail := 0 } := by
    have := hf.tail_eq
    unfold wrapTail
    rw [if_pos (by omega)]
    refine evictLoop_exit _ (decide_eq_false ?_)
    dsimp only
    omega
  refine ⟨{ c with tail := 0 }, ⟨hf.head_nonneg, hf.head_lt, le_rfl, by dsimp only; omega,
    by dsimp only; omega⟩, hhead, rfl, hused, ?_⟩
  rw [writeWithEvict_eq (by omega) hroom hwrap le_rfl (by dsimp only; omega)]
  simp only [hf.evicted]
  rfl

end Write

/-! ## Runs -/

structure Ledger where
  ring : RingBuffer
  live : List Stored

namespace Ledger

def new (capacity : Int) : Ledger := ⟨newRingBuffer capacity, []⟩

/-- A call of `WriteWithEvict`: what it reports is no longer live, what it wrote is. -/
def write (s : Ledger) (w : Entry) : Go Ledger := do
  let (ring, result) ← s.ring.writeWithEvict w.header w.key w.value
  match result with
  | .error _ => return ⟨ring, s.live⟩
  | .ok (offset, evicted) =>
    return ⟨ring, s.live.filter (fun e => e.report ∉ evicted) ++ [⟨offset, w⟩]⟩

lemma write_ok {s : Ledger} {w : Entry} {rb' : RingBuffer} {offset : Int} {evicted : List EvictedEntry}
    (h : s.ring.writeWithEvict w.header w.key w.value = .ok (rb', .ok (offset, evicted))) :
    s.write w = .ok ⟨rb', s.live.filter (fun e => e.report ∉ evicted) ++ [⟨offset, w⟩]⟩ := by
  unfold write
  rw [h]
  rfl

/-- The accounting is right: live entries lie in the buffer and do not meet, each is read back
as it was written, and `used` is the room they take. -/
structure Accounted (s : Ledger) : Prop where
  apart : s.live.Pairwise (Apart Stored.offset Stored.size)
  inside : ∀ e ∈ s.live, 0 ≤ e.offset ∧ e.offset + e.size ≤ s.ring.capacity
  reads : ∀ e ∈ s.live,
    s.ring.readAt e.offset = .ok (.ok (e.entry.key, e.entry.value, e.entry.header))
  used_eq : s.ring.used = total Stored.size s.live
  used_nonneg : 0 ≤ s.ring.used
  used_le : s.ring.used ≤ s.ring.capacity

/-- The write leaves no gap between the last entry and the end of the buffer. -/
def NoGap (s : Ledger) (w : Entry) : Prop := s.ring.NoGap w.size

end Ledger

lemma filter_not_reported {gone kept : List Stored} (hp : (gone ++ kept).Pairwise (Apart Stored.offset Stored.size)) :
    (gone ++ kept).filter (fun e => e.report ∉ gone.map Stored.report) = kept := by
  rw [filter_append, filter_eq_nil_iff.2, nil_append, filter_eq_self]
  · intro e he
    rw [decide_eq_true_eq, mem_map]
    rintro ⟨x, hx, hr⟩
    have hap := (pairwise_append.1 hp).2.2 x hx e he
    have ho : x.offset = e.offset := congrArg EvictedEntry.offset hr
    have h1 : 24 ≤ x.size := x.entry.size_ge
    have h2 : 24 ≤ e.size := e.entry.size_ge
    unfold Apart at hap
    omega
  · intro e he
    simp only [decide_not, Bool.not_eq_true', Bool.not_eq_false, decide_eq_true_eq]
    exact mem_map_of_mem he

/-- **Step lemma**: a call that leaves no gap returns and keeps the layout. -/
lemma Ledger.write_layout {s : Ledger} (hl : Layout s.ring s.live) {w : Entry} (h : s.NoGap w) :
    ∃ s', s.write w = .ok s' ∧ Layout s'.ring s'.live := by
  obtain ⟨rb', offset, gone, kept, hsplit, hw, -, hl'⟩ := hl.write w h
  have hp := hl.tiled.pairwise
  rw [hsplit] at hp
  refine ⟨⟨rb', kept ++ [⟨offset, w⟩]⟩, ?_, hl'⟩
  rw [write_ok hw, hsplit, filter_not_reported hp]

lemma Layout.accounted {s : Ledger} (hl : Layout s.ring s.live) : s.Accounted where
  apart := hl.tiled.pairwise
  inside := fun _ he => hl.bounds he
  reads := fun _ he => hl.readAt_eq he
  used_eq := hl.used_eq
  used_nonneg := hl.used_eq ▸ hl.tiled.total_nonneg
  used_le := hl.wf.used_le

open Ledger

/-- **Eviction accounting.** After every sequence of writes none of which leaves a gap at the end
of the buffer, the live entries are disjoint, are read back as written, and add up to `used`. -/
theorem writes_accounted (capacity : Int) (ws : List Entry)
    (h : Along write NoGap (new capacity) ws) :
    ∃ s, run write (new capacity) ws = .ok s ∧ s.Accounted := by
  obtain ⟨s, hr, hl⟩ := run_total (I := fun s => Layout s.ring s.live)
    (fun s w hl hg => write_layout hl hg) (newRingBuffer_layout capacity) h
  exact ⟨s, hr, hl.accounted⟩

/-- Two writes to a fresh buffer leave no gap. -/
theorem writes_accounted_two :
    ∃ s, run write (new 0) [⟨⟨0, 7, 1, 2, 0, 0⟩, [107], [1, 2], rfl, rfl⟩,
      ⟨⟨0, 8, 0, 0, 0, 0⟩, [], [], rfl, rfl⟩] = .ok s ∧ s.Accounted := by
  refine writes_accounted 0 _ ⟨Or.inl (by decide), fun s hs => ⟨?_, fun _ _ => trivial⟩⟩
  have hw := (newRingBuffer_layout 0).write_of_fits
    (w := ⟨⟨0, 7, 1, 2, 0, 0⟩, [107], [1, 2], rfl, rfl⟩) (by decide) (by decide)
  cases hs
  exact Or.inl (by decide)

/-! ## A write onto a live entry -/

section Gap

/-- An entry of the largest size; the buffer of the least capacity takes seven. -/
def largest : Entry where
  header := ⟨0, 1, 65535, 65535, 0, 0⟩
  key := List.replicate 65535 0
  value := List.replicate 65535 0
  keyLen_eq := by rw [List.length_replicate]; rfl
  valLen_eq := by rw [List.length_replicate]; rfl

def smallest : Entry := ⟨⟨0, 0, 0, 0, 0, 0⟩, [], [], rfl, rfl⟩

lemma largest_size : largest.size = 131094 := by
  rw [Entry.size_eq, largest, length_replicate]
  rfl

lemma smallest_size : smallest.size = 24 := rfl

variable {s : Ledger}

lemma Ledger.write_of_fits (hl : Layout s.ring s.live) {w : Entry}
    (hu : s.ring.used + w.size ≤ s.ring.capacity) (ht : s.ring.tail + w.size ≤ s.ring.capacity) :
    ∃ s', s.write w = .ok s' ∧ Layout s'.ring s'.live ∧ s'.ring.capacity = s.ring.capacity ∧
      s'.ring.head = s.ring.head ∧ s'.ring.tail = s.ring.tail + w.size ∧
      s'.ring.used = s.ring.used + w.size ∧ s'.live = s.live ++ [⟨s.ring.tail, w⟩] := by
  obtain ⟨h1, h2⟩ := hl.write_of_fits hu ht
  refine ⟨⟨s.ring.commit s.ring.cursor w.header w.key w.value, _⟩, ?_, h2, rfl, rfl, rfl, rfl, rfl⟩
  rw [write_ok h1]
  simp

/-- The first seven writes fill the buffer from `0` on. -/
lemma fill_largest (k : ℕ) (hk : k ≤ 7) : ∃ s, run write (new 1048576) (List.replicate k largest) = .ok s ∧
      Layout s.ring s.live ∧ s.ring.capacity = 1048576 ∧ s.ring.head = 0 ∧
      s.ring.tail = 131094 * k ∧ s.ring.used = 131094 * k ∧
      s.live = (List.range k).map fun i => ⟨131094 * (i : Int), largest⟩ := by
  induction k with
  | zero => exact ⟨_, rfl, newRingBuffer_layout _, rfl, rfl, rfl, rfl, rfl⟩
  | succ k ih =>
    obtain ⟨s, hr, hl, hc, hh, ht, hu, hlive⟩ := ih (by omega)
    obtain ⟨s', hw, hl', hc', hh', ht', hu', hlive'⟩ := write_of_fits hl (w := largest)
      (by rw [largest_size]; omega) (by rw [largest_size]; omega)
    rw [largest_size] at ht' hu'
    refine ⟨s', ?_, hl', by omega, by omega, by omega, by omega, ?_⟩
    · rw [replicate_succ', run_snoc hr, hw]
    · rw [hlive', hlive, ht, range_succ, map_append]
      rfl

/-- The eighth evicts only the first entry and starts again at `0`, since the room test counts
the gap of 130918 bytes at the end; now `tail` and `head` are both where the second entry is. -/
lemma wrap_largest : ∃ s, run write (new 1048576) (List.replicate 8 largest) = .ok s ∧
      s.ring.Wf ∧ s.ring.capacity = 1048576 ∧ s.ring.tail = 131094 ∧ s.ring.used = 917658 ∧
      (⟨131094, largest⟩ : Stored) ∈ s.live := by
  obtain ⟨s, hr, hl, hc, hh, ht, hu, hlive⟩ := fill_largest 7 le_rfl
  have hlive' : s.live = ⟨0, largest⟩ :: ⟨131094, largest⟩ ::
      ([2, 3, 4, 5, 6].map fun i : ℕ => (⟨131094 * (i : Int), largest⟩ : Stored)) := by
    rw [hlive]
    rfl
  rw [hlive'] at hl
  have hsize : entrySize largest.key largest.value = 131094 := largest_size
  have hx : (⟨0, largest⟩ : Stored).size = 131094 := largest_size
  obtain ⟨c, hcw, -, hct, hcu, hw⟩ := hl.write_wraps largest.header largest.key
    largest.value (by omega) (by omega) (by omega) (by dsimp only; omega)
  have hrun := run_snoc hr (a := largest)
  rw [← replicate_succ', write_ok hw] at hrun
  refine ⟨_, hrun, commit_wf hl.wf hcw (by omega) (by omega), hc, ?_, ?_, mem_append_left _ ?_⟩
  · change c.tail + entrySize largest.key largest.value = _
    omega
  · change c.used + entrySize largest.key largest.value = _
    omega
  · rw [mem_filter, hlive']
    simp [Stored.report]

/-- **A write can land on a live entry.** After eight writes of the largest size the smallest
entry is written onto the header of the second one, which nothing has reported as evicted. -/
theorem writes_overlap :
    ∃ s, run write (new 1048576) (List.replicate 8 largest ++ [smallest]) =
      .ok s ∧ ¬ s.Accounted := by
  obtain ⟨s, hr, hwf, hc, ht, hu, hmem⟩ := wrap_largest
  have hw := @writeWithEvict_of_fits s.ring smallest.key smallest.value hwf smallest.header
    (by change _ + smallest.size ≤ _; rw [smallest_size]; omega)
    (by change _ + smallest.size ≤ _; rw [smallest_size]; omega)
  refine ⟨_, (run_snoc hr).trans (write_ok hw), fun h => ?_⟩
  have hap := (pairwise_append.1 h.apart).2.2 ⟨131094, largest⟩ (by simpa using hmem) _ mem_cons_self
  simp only [Apart, Stored.size, largest_size, smallest_size] at hap
  omega

end Gap

end AutoCache.Ring
