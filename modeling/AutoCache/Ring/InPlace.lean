import AutoCache.Ring.Layout

/-!
# In-place updates and the eviction walk

The eviction loops find the next entry only through the lengths in the header of the last one.
`visited` is the walk they make when they evict everything: from `head` on, one header after the
other, until `used` bytes are accounted for.

`UpdateInPlace` rewrites those lengths. An update of the same size leaves the walk alone
(`Layout.update` for the ring that was never wrapped early); a smaller one sends it into the
middle of the old entry, while `used` still counts the old size.
-/

namespace AutoCache.Ring

open Tiling RingBuffer List Stored

namespace RingBuffer

variable {rb rb' : RingBuffer}

/-- The size of the entry the bytes at `p` denote. -/
def sizeAt (rb : RingBuffer) (p : Int) : Int := headerEntrySize (rb.headerAt p)

/-! ## The walk -/

/-- The offsets of the headers a reader from `p` on passes while it has `left` bytes to account
for; it stops where no header can be read. -/
def walk (rb : RingBuffer) (p left : Int) : List Int :=
  if 0 < left ∧ 0 ≤ p ∧ p + headerSize ≤ rb.capacity then
    p :: walk rb (next rb.capacity (p + rb.sizeAt p)) (left - rb.sizeAt p)
  else []
termination_by left.toNat
decreasing_by
  have : 24 ≤ rb.sizeAt p := headerEntrySize_ge _
  omega

/-- The walk from the head over everything that is used. -/
def visited (rb : RingBuffer) : List Int := rb.walk rb.head rb.used

lemma walk_of_pos {p left : Int} (h : 0 < left) (h0 : 0 ≤ p) (h1 : p + 24 ≤ rb.capacity) :
    rb.walk p left = p :: rb.walk (next rb.capacity (p + rb.sizeAt p)) (left - rb.sizeAt p) := by
  rw [walk, if_pos ⟨h, h0, h1⟩]

lemma walk_eq_cons {p left o : Int} {l : List Int} (h : rb.walk p left = o :: l) :
    o = p ∧ 0 < left ∧ 0 ≤ p ∧ p + 24 ≤ rb.capacity ∧
      rb.walk (next rb.capacity (p + rb.sizeAt p)) (left - rb.sizeAt p) = l := by
  rw [walk] at h
  split at h
  · rename_i hc
    cases h
    exact ⟨rfl, hc.1, hc.2.1, hc.2.2, rfl⟩
  · cases h

lemma walk_of_not {p left : Int} (h : ¬ (0 < left ∧ 0 ≤ p ∧ p + 24 ≤ rb.capacity)) : rb.walk p left = [] := by
  rw [walk]
  exact if_neg h

lemma walk_congr (hcap : rb'.capacity = rb.capacity) {l : List Int} :
    ∀ {p left : Int}, rb.walk p left = l → (∀ o ∈ l, rb'.sizeAt o = rb.sizeAt o) → rb'.walk p left = l := by
  induction l with
  | nil =>
    intro p left h _
    by_cases hc : 0 < left ∧ 0 ≤ p ∧ p + 24 ≤ rb.capacity
    · rw [walk_of_pos hc.1 hc.2.1 hc.2.2] at h
      cases h
    · exact walk_of_not (by rwa [hcap])
  | cons o l ih =>
    intro p left h hs
    obtain ⟨rfl, h1, h2, h3, h4⟩ := walk_eq_cons h
    rw [walk_of_pos h1 h2 (by omega), hcap, hs o mem_cons_self, ih h4 fun x hx => hs x (mem_cons_of_mem _ hx)]

variable {o : Int}

lemma walk_append_congr (hcap : rb'.capacity = rb.capacity) {a b : List Int} :
    ∀ {p left : Int}, rb.walk p left = a ++ o :: b → (∀ x ∈ a, rb'.sizeAt x = rb.sizeAt x) →
      ∃ left', left' = left - (a.map rb.sizeAt).sum ∧ rb.walk o left' = o :: b ∧ rb'.walk p left = a ++ rb'.walk o left' := by
  induction a with
  | nil =>
    intro p left h _
    obtain ⟨rfl, -⟩ := walk_eq_cons h
    exact ⟨left, by simp, h, rfl⟩
  | cons x a ih =>
    intro p left h hs
    obtain ⟨rfl, h1, h2, h3, h4⟩ := walk_eq_cons h
    obtain ⟨left', h5, h6, h7⟩ := ih h4 fun y hy => hs y (mem_cons_of_mem _ hy)
    refine ⟨left', ?_, h6, ?_⟩
    · rw [h5, map_cons, sum_cons]
      ring
    · rw [walk_of_pos h1 h2 (by omega), hcap, hs x mem_cons_self, h7, cons_append]

/-! ## What is read at an offset -/

/-- An entry that is read at its offset lies in the buffer, under a header of its size. -/
lemma sizeAt_of_readAt {e : Stored} (h : rb.readAt e.offset = .ok (.ok (e.entry.key, e.entry.value, e.entry.header))) :
    rb.sizeAt e.offset = e.size ∧ 0 ≤ e.offset ∧ e.offset + e.size ≤ rb.capacity := by
  rw [readAt_eq, peek] at h
  split at h
  · cases h
  rename_i hc
  have hh : rb.headerAt e.offset = e.entry.header := by
    simp only [Except.ok.injEq] at h
    exact congrArg (fun x => x.2.2) h
  have hs : rb.sizeAt e.offset = e.size := by
    rw [sizeAt, hh, e.entry.headerEntrySize_eq]
    rfl
  refine ⟨hs, ?_⟩
  unfold sizeAt at hs
  omega

lemma readAt_congr (hcap : rb'.capacity = rb.capacity) (h : ∀ i, o ≤ i → i < o + rb.sizeAt o → rb'.data i = rb.data i) :
    rb'.readAt o = rb.readAt o := by
  have hsz : rb.sizeAt o = 24 + (rb.headerAt o).keyLen.toNat + (rb.headerAt o).valLen.toNat := rfl
  have hh : rb'.headerAt o = rb.headerAt o := by
    unfold headerAt
    rw [Mem.load_congr fun i h1 h2 => h i h1 (by omega)]
  have he : rb'.entryAt o = rb.entryAt o := by
    unfold entryAt
    simp only [hh]
    have hk : rb'.data.load (o + 24) (rb.headerAt o).keyLen.toNat = rb.data.load (o + 24) (rb.headerAt o).keyLen.toNat :=
      Mem.load_congr fun i h1 h2 => h i (by omega) (by omega)
    have hv : rb'.data.load (o + 24 + (rb.headerAt o).keyLen.toNat) (rb.headerAt o).valLen.toNat =
        rb.data.load (o + 24 + (rb.headerAt o).keyLen.toNat) (rb.headerAt o).valLen.toNat :=
      Mem.load_congr fun i h1 h2 => h i (by omega) (by omega)
    rw [hk, hv]
  rw [readAt_eq, readAt_eq, peek, peek, hh, he, hcap]

end RingBuffer

/-! ## Walkable buffers -/

/-- The walk from the head visits exactly the live entries, oldest first, each can be read, and
`used` is the room they take. -/
structure Walkable (rb : RingBuffer) (live : List Stored) : Prop where
  wf : rb.Wf
  visits : rb.visited = live.map offset
  used_eq : rb.used = total size live
  reads : ∀ e ∈ live,
    rb.readAt e.offset = .ok (.ok (e.entry.key, e.entry.value, e.entry.header))

/-- What an update of the entry `e` by `w` should keep: the walk visits the same offsets, `used`
is the sum of the sizes seen on it, `w` is read back, and so is every other live entry. -/
structure KeepsWalk (rb rb' : RingBuffer) (live : List Stored) (e : Stored) (w : Entry) :
    Prop where
  visits : ∀ o, o ∈ rb'.visited ↔ o ∈ rb.visited
  used_eq : rb'.used = (rb'.visited.map rb'.sizeAt).sum
  reads_new : rb'.readAt e.offset = .ok (.ok (w.key, w.value, w.header))
  reads_other : ∀ x ∈ live, x.offset ≠ e.offset →
    rb'.readAt x.offset = .ok (.ok (x.entry.key, x.entry.value, x.entry.header))

section Walkable

variable {rb rb' : RingBuffer} {live : List Stored} {e x : Stored} {w : Entry}

lemma total_size_nonneg (l : List Stored) : 0 ≤ total size l :=
  total_nonneg fun x _ => (by decide : (0 : Int) ≤ 24).trans x.entry.size_ge

variable {l : List Stored}

lemma walk_chain (hr : ∀ e ∈ l, rb.readAt e.offset = .ok (.ok (e.entry.key, e.entry.value, e.entry.header))) :
    ∀ {p left : Int}, rb.walk p left = l.map offset → Chain offset size rb.capacity p l := by
  induction l with
  | nil => intro p left _; trivial
  | cons x l ih =>
    intro p left h
    obtain ⟨hx, -, -, -, h4⟩ := walk_eq_cons h
    obtain ⟨hs, h0, h1⟩ := sizeAt_of_readAt (hr x mem_cons_self)
    have hge : 24 ≤ x.size := x.entry.size_ge
    rw [← hx, hs] at h4
    exact ⟨hx, by omega, by omega, hx ▸ ih (fun y hy => hr y (mem_cons_of_mem _ hy)) h4⟩

lemma walk_of_chain (hr : ∀ e ∈ l, rb.sizeAt e.offset = e.size) :
    ∀ {p : Int}, 0 ≤ p → Chain offset size rb.capacity p l → rb.walk p (total size l) = l.map offset := by
  induction l with
  | nil => intro p _ _; exact walk_of_not (by simp)
  | cons x l ih =>
    intro p h0 h
    obtain ⟨hx, h1, h2, h3⟩ := h
    have hge : 24 ≤ x.size := x.entry.size_ge
    have hs := hr x mem_cons_self
    have htot := total_size_nonneg l
    rw [hx] at hs
    rw [total_cons, walk_of_pos (by omega) h0 (by omega), hs, add_sub_cancel_left,
      ih (fun y hy => hr y (mem_cons_of_mem _ hy)) (by unfold Tiling.next; split <;> omega) h3]
    simp [hx]

lemma Layout.walkable (h : Layout rb live) : Walkable rb live where
  wf := h.wf
  visits := by
    have hcap := h.wf.cap_pos
    unfold visited
    rw [h.used_eq]
    refine walk_of_chain (fun e he => ?_) h.wf.head_nonneg (h.tiled.chain h.wf.head_lt h.wf.tail_le (by omega))
    exact (sizeAt_of_readAt (h.readAt_eq he)).1
  used_eq := h.used_eq
  reads := fun _ he => h.readAt_eq he

lemma Walkable.apart (h : Walkable rb live) : live.Pairwise (Apart offset size) := by
  have hle := h.wf.used_le
  have hc : Chain offset size rb.capacity rb.head live := walk_chain h.reads h.visits
  obtain ⟨tail, -, -, ht⟩ := hc.tiled h.wf.head_nonneg h.wf.head_lt (h.used_eq ▸ hle)
  exact ht.pairwise

lemma Walkable.apart_of_ne (h : Walkable rb live) (hx : x ∈ live) (he : e ∈ live)
    (hne : x.offset ≠ e.offset) : Apart offset size x e :=
  h.apart.forall hx he fun hxe => hne (congrArg offset hxe)

/-- What is known of an update that returned `true`. -/
lemma updateInPlace_true {offset : Int} (h : rb.updateInPlace offset w.header w.key w.value = .ok (rb', true)) :
    w.size ≤ rb.sizeAt offset ∧ rb'.capacity = rb.capacity ∧ rb'.head = rb.head ∧ rb'.tail = rb.tail ∧ rb'.used = rb.used ∧
      rb'.data = (rb.put offset w.header w.key w.value).data := by
  rw [updateInPlace_eq] at h
  split at h
  · rename_i hf
    split at h
    · cases h
      exact ⟨hf.2.2, rfl, rfl, rfl, rfl, rfl⟩
    · cases h
  · cases h

/-- An update within the entry `e` leaves the entries alone that do not meet `e`. -/
lemma data_eq_of_apart (hle : w.size ≤ e.size) (hap : Apart offset size x e) {i : Int}
    (h1 : x.offset ≤ i) (h2 : i < x.offset + x.size) :
    rb.data.store e.offset w.bytes i = rb.data i := by
  have hb := w.bytes_length
  rcases hap with h | h
  · exact Mem.store_of_lt _ _ (by omega)
  · exact Mem.store_of_le _ _ (by omega)

section

variable (hw : Walkable rb live)
include hw

/-- An update of a live entry of a walkable ring: the new entry is read back, and the other
entries are as they were. -/
lemma Walkable.update_reads (he : e ∈ live) (h : rb.updateInPlace e.offset w.header w.key w.value = .ok (rb', true)) :
    w.size ≤ e.size ∧ rb'.capacity = rb.capacity ∧ rb'.head = rb.head ∧ rb'.used = rb.used ∧
      rb'.readAt e.offset = .ok (.ok (w.key, w.value, w.header)) ∧
      ∀ x ∈ live, x.offset ≠ e.offset → rb'.readAt x.offset = rb.readAt x.offset := by
  obtain ⟨hs, h0, hb⟩ := sizeAt_of_readAt (hw.reads e he)
  obtain ⟨hle, hcap, hhead, -, hused, hdata⟩ := updateInPlace_true h
  rw [hs] at hle
  have hfit : e.offset + w.size ≤ rb.capacity := by omega
  refine ⟨hle, hcap, hhead, hused, ?_, ?_⟩
  · exact ((holds_put hfit).congr hdata).readAt_eq h0 (hcap ▸ hfit)
  · intro x hx hne
    have hxs := sizeAt_of_readAt (hw.reads x hx)
    refine readAt_congr hcap fun i h1 h2 => ?_
    rw [hxs.1] at h2
    rw [hdata, put_entry_data hfit]
    exact data_eq_of_apart hle (hw.apart_of_ne hx he hne) h1 h2

lemma Walkable.sum_sizeAt (hl : ∀ x ∈ l, x ∈ live) : ((l.map offset).map rb.sizeAt).sum = total size l := by
  rw [map_map, total]
  congr 1
  refine map_congr_left fun x hx => ?_
  exact (sizeAt_of_readAt (hw.reads x (hl x hx))).1

/-- **An update of the same size keeps the walk.** -/
lemma Walkable.keepsWalk_of_size_eq (he : e ∈ live) (h : rb.updateInPlace e.offset w.header w.key w.value = .ok (rb', true))
    (hsz : w.size = e.size) : KeepsWalk rb rb' live e w := by
  obtain ⟨-, hcap, hhead, hused, hnew, hoth⟩ := hw.update_reads he h
  -- the size under every live header is what it was
  have hsize : ∀ o ∈ rb.visited, rb'.sizeAt o = rb.sizeAt o := by
    intro o ho
    rw [hw.visits] at ho
    obtain ⟨x, hx, rfl⟩ := mem_map.1 ho
    have hxs := (sizeAt_of_readAt (hw.reads x hx)).1
    by_cases hne : x.offset = e.offset
    · have h1 := (sizeAt_of_readAt (e := ⟨e.offset, w⟩) hnew).1
      have h2 := (sizeAt_of_readAt (hw.reads e he)).1
      rw [hne, h2]
      exact h1.trans hsz
    · have hr := hoth x hx hne
      rw [hw.reads x hx] at hr
      rw [(sizeAt_of_readAt hr).1, hxs]
  have hvisit : rb'.visited = rb.visited := by
    unfold visited
    rw [hhead, hused]
    exact walk_congr hcap rfl hsize
  refine ⟨fun o => by rw [hvisit], ?_, hnew, fun x hx hne => ?_⟩
  · rw [hvisit, hused, map_congr_left hsize, hw.visits, hw.sum_sizeAt fun _ hx => hx, hw.used_eq]
  · rw [hoth x hx hne, hw.reads x hx]

/-- **A smaller update loses the walk**: after the entry the walk goes on inside its old room,
where no live entry starts, or it stops short of `used`. -/
lemma Walkable.not_keepsWalk_of_size_lt (he : e ∈ live)
    (h : rb.updateInPlace e.offset w.header w.key w.value = .ok (rb', true))
    (hlt : w.size < e.size) : ¬ KeepsWalk rb rb' live e w := by
  intro hk
  obtain ⟨-, hcap, hhead, hused, hnew, hoth⟩ := hw.update_reads he h
  obtain ⟨hes, h0, hb⟩ := sizeAt_of_readAt (hw.reads e he)
  have hws : rb'.sizeAt e.offset = w.size :=
    (sizeAt_of_readAt (e := ⟨e.offset, w⟩) hnew).1
  have hge := w.size_ge
  obtain ⟨a, b, hab⟩ := append_of_mem he
  have hvis := hw.visits
  rw [hab, map_append, map_cons] at hvis
  -- the entries before `e` lead the walk to `e` as before
  have hbefore : ∀ o ∈ a.map offset, rb'.sizeAt o = rb.sizeAt o := by
    intro o ho
    obtain ⟨x, hx, rfl⟩ := mem_map.1 ho
    have hxl : x ∈ live := by rw [hab]; exact mem_append_left _ hx
    have hp := hw.apart
    rw [hab] at hp
    have hap := (pairwise_append.1 hp).2.2 x hx e mem_cons_self
    have h1 : 24 ≤ x.size := x.entry.size_ge
    have hr := hoth x hxl (by unfold Apart at hap; omega)
    rw [hw.reads x hxl] at hr
    rw [(sizeAt_of_readAt hr).1, (sizeAt_of_readAt (hw.reads x hxl)).1]
  obtain ⟨left, hleft, hold, hnewwalk⟩ := walk_append_congr hcap hvis hbefore
  -- what is left to account for at `e` covers at least the old size
  have hcover : e.size ≤ left := by
    have hu := hw.used_eq
    have hn := total_size_nonneg b
    rw [hw.sum_sizeAt fun x hx => by rw [hab]; exact mem_append_left _ hx] at hleft
    rw [hab, total_append, total_cons] at hu
    omega
  have hnext : next rb'.capacity (e.offset + w.size) = e.offset + w.size :=
    next_of_lt (by omega)
  rw [walk_of_pos (by omega) h0 (by have := e.entry.size_ge; unfold size at hb; omega), hws, hnext] at hnewwalk
  have hvisited : rb'.visited = a.map offset ++ e.offset :: rb'.walk (e.offset + w.size) (left - w.size) := by
    unfold visited
    rw [hhead, hused]
    exact hnewwalk
  by_cases hread : e.offset + w.size + 24 ≤ rb'.capacity
  · -- the walk visits an offset in the old room of `e`
    rw [walk_of_pos (by omega) (by omega) hread] at hvisited
    have hmem : e.offset + w.size ∈ rb.visited := by
      rw [← hk.visits, hvisited]
      simp
    rw [hw.visits] at hmem
    obtain ⟨x, hx, hxo⟩ := mem_map.1 hmem
    have hap := hw.apart_of_ne hx he (by omega)
    have h1 : 24 ≤ x.size := x.entry.size_ge
    unfold Apart at hap
    omega
  · -- the walk stops at `e`, short of `used`
    rw [walk_of_not (by omega)] at hvisited
    have hsum := hk.used_eq
    rw [hvisited, map_append, sum_append, map_congr_left hbefore,
      hw.sum_sizeAt fun x hx => by rw [hab]; exact mem_append_left _ hx] at hsum
    simp only [map_cons, map_nil, sum_cons, sum_nil, hws] at hsum
    have hu := hw.used_eq
    have hn := total_size_nonneg b
    rw [hab, total_append, total_cons] at hu
    omega

lemma Walkable.update_ok (he : e ∈ live) (hle : w.size ≤ e.size) :
    ∃ rb', rb.updateInPlace e.offset w.header w.key w.value = .ok (rb', true) := by
  obtain ⟨hs, h0, hb⟩ := sizeAt_of_readAt (hw.reads e he)
  have hwsz := w.size_eq
  have hfit : rb.FitsInPlace e.offset w.key w.value := by
    refine ⟨h0, by omega, ?_⟩
    change w.size ≤ rb.sizeAt e.offset
    omega
  rw [updateInPlace_eq, if_pos hfit, if_pos (by omega)]
  exact ⟨_, rfl⟩

end

/-- **In-place updates and the walk.** An update that succeeds keeps the ring walkable exactly
when the new entry is as large as the old one. -/
theorem updateInPlace_keepsWalk_iff (hw : Walkable rb live) (he : e ∈ live) (w : Entry)
    (h : rb.updateInPlace e.offset w.header w.key w.value = .ok (rb', true)) :
    KeepsWalk rb rb' live e w ↔ w.size = e.size := by
  have hle := (hw.update_reads he h).1
  constructor
  · intro hk
    by_contra hne
    exact hw.not_keepsWalk_of_size_lt he h (by omega) hk
  · exact hw.keepsWalk_of_size_eq he h

/-- **Layouts and updates**: an update of the same size keeps the layout, with the new entry in
the old one's place. -/
lemma Layout.update (hl : Layout rb live) (he : e ∈ live) (hsz : w.size = e.size)
    (h : rb.updateInPlace e.offset w.header w.key w.value = .ok (rb', true)) :
    Layout rb' (live.map fun x => if x.offset = e.offset then ⟨e.offset, w⟩ else x) := by
  obtain ⟨-, hcap, hhead, htail, hused, hdata⟩ := updateInPlace_true h
  have hb := hl.bounds he
  have hfit : e.offset + w.size ≤ rb.capacity := by omega
  have hsame : ∀ x ∈ live, (if x.offset = e.offset then (⟨e.offset, w⟩ : Stored) else x).offset =
      x.offset ∧ (if x.offset = e.offset then (⟨e.offset, w⟩ : Stored) else x).size = x.size := by
    intro x hx
    split
    · rename_i hxe
      rw [hl.eq_of_offset_eq hx he hxe]
      exact ⟨rfl, hsz⟩
    · exact ⟨rfl, rfl⟩
  refine ⟨?_, ?_, ?_, ?_⟩
  · obtain ⟨h1, h2, h3, h4, h5, h6⟩ := hl.wf
    exact ⟨by omega, by omega, by omega, by omega, by omega, by omega⟩
  · rw [hcap, hhead, htail]
    exact hl.tiled.map hsame
  · intro y hy
    obtain ⟨x, hx, rfl⟩ := mem_map.1 hy
    split
    · exact (holds_put hfit).congr hdata
    · rename_i hxe
      have hap := hl.tiled.pairwise.forall hx he fun hh => hxe (congrArg offset hh)
      have hap' : Apart offset size x ⟨e.offset, w⟩ := by
        change x.offset + x.size ≤ e.offset ∨ e.offset + w.size ≤ x.offset
        rwa [hsz]
      exact ((hl.holds x hx).put_of_apart hfit hap').congr hdata
  · rw [hused, hl.used_eq, total, total, map_map]
    congr 1
    exact (map_congr_left fun x hx => (hsame x hx).2).symm

end Walkable

/-! ## A shrunk entry -/

section Shrink

/-- A fresh buffer after one write of the key `k` with the value `v`. -/
def single : RingBuffer :=
  let rb := newRingBuffer 0
  rb.commit rb.cursor ⟨0, 7, 1, 1, 0, 0⟩ [107] [118]

def singleEntry : Stored := ⟨0, ⟨⟨0, 7, 1, 1, 0, 0⟩, [107], [118], rfl, rfl⟩⟩

lemma single_layout : Layout single [singleEntry] :=
  ((newRingBuffer_layout 0).write_of_fits (w := singleEntry.entry) (by decide) (by decide)).2

/-- The value `x` in the place of `v`. -/
theorem updateInPlace_keepsWalk_iff_single :
    ∃ rb', single.updateInPlace 0 ⟨0, 7, 1, 1, 0, 0⟩ [107] [120] = .ok (rb', true) ∧
      KeepsWalk single rb' [singleEntry] singleEntry
        ⟨⟨0, 7, 1, 1, 0, 0⟩, [107], [120], rfl, rfl⟩ := by
  obtain ⟨rb', h⟩ := single_layout.walkable.update_ok (e := singleEntry)
    (w := ⟨⟨0, 7, 1, 1, 0, 0⟩, [107], [120], rfl, rfl⟩) mem_cons_self (by decide)
  exact ⟨rb', h, (updateInPlace_keepsWalk_iff single_layout.walkable mem_cons_self _ h).2 (by decide)⟩

/-- **An overwrite with the empty value loses the walk.** -/
theorem updateInPlace_shrink_loses_walk :
    ∃ rb', Walkable single [singleEntry] ∧
      single.updateInPlace 0 ⟨0, 7, 1, 0, 0, 0⟩ [107] [] = .ok (rb', true) ∧
      ¬ KeepsWalk single rb' [singleEntry] singleEntry ⟨⟨0, 7, 1, 0, 0, 0⟩, [107], [], rfl, rfl⟩ := by
  have hw := single_layout.walkable
  obtain ⟨rb', h⟩ := hw.update_ok (e := singleEntry) (w := ⟨⟨0, 7, 1, 0, 0, 0⟩, [107], [], rfl, rfl⟩)
    mem_cons_self (by decide)
  exact ⟨rb', hw, h, hw.not_keepsWalk_of_size_lt mem_cons_self h (by decide)⟩

end Shrink

end AutoCache.Ring
