import AutoCache.Ring.InPlace
import AutoCache.Shard.Safety

/-!
# What a read of a shard returns

A run of a shard is traced with the value of the latest successful write to each key. Two things
lead reads astray: a write that wraps early leaves a gap in the ring (`RingBuffer.NoGap`), and an
in-place update that shrinks an entry misleads the eviction walk. In runs without them every index
word is the offset of a live entry with that hash, and the entry carries the latest value of its
key (`Faithful`); so `Get` returns that value or nothing (`reads_latest`). `read_forged` is a run
in which `Get` returns bytes from the middle of another key's value.
-/

namespace AutoCache

open AutoCache.Ring Tiling RingBuffer Shard Function List WriteOutcome Runs

/-! ## Traced runs -/

structure Traced where
  shard : Shard
  latest : Bytes → Option Bytes

def WriteOutcome.Done : WriteOutcome → Prop
  | .inPlace => True
  | .appended => True
  | _ => False

instance : DecidablePred Done := fun o => by
  cases o <;> unfold Done <;> infer_instance

@[simp] lemma WriteOutcome.done_inPlace : inPlace.Done := trivial
@[simp] lemma WriteOutcome.done_appended : appended.Done := trivial
@[simp] lemma WriteOutcome.not_done_refused : ¬ refused.Done := id

namespace Traced

variable (cfg : CacheConfig)

def record (s : Traced) (key value : Bytes) (r : Shard × WriteOutcome) : Traced :=
  ⟨r.1, if r.2.Done then Function.update s.latest key (some value) else s.latest⟩

def step (s : Traced) : ShardOp → Go Traced
  | .set key value ttl now => return s.record key value (← s.shard.set cfg key value ttl now)
  | .setNX key value ttl now => return s.record key value (← s.shard.setNX cfg key value ttl now)
  | .setXX key value ttl now => return s.record key value (← s.shard.setXX cfg key value ttl now)
  | op => return ⟨← s.shard.step cfg op, s.latest⟩

def new (ringSize : Int64) : Traced := ⟨newShard ringSize, fun _ => none⟩

end Traced

/-- Keys and values are shorter than `2^16`, and no counter is involved. -/
def ShardOp.Short : ShardOp → Prop
  | .set key value _ _ => key.length < 65536 ∧ value.length < 65536
  | .setNX key value _ _ => key.length < 65536 ∧ value.length < 65536
  | .setXX key value _ _ => key.length < 65536 ∧ value.length < 65536
  | .incrBy _ _ _ => False
  | _ => True

/-- The call leaves no gap at the end of the ring and shrinks no entry in place: an in-place
update has the size of the entry it overwrites, and whatever else the call writes fits before the
end of the ring or finds the tail there. -/
def Shard.NoGapNoShrink (cfg : CacheConfig) (sh : Shard) : ShardOp → Prop
  | .set key value _ _ =>
    match sh.index.lookup (cfg.hash key) with
    | none => sh.ring.NoGap (entrySize key value)
    | some raw =>
      if sh.ring.FitsInPlace (offsetOf raw) key value then
        sh.ring.sizeAt (offsetOf raw) = entrySize key value
      else sh.ring.NoGap (entrySize key value)
  | .setNX key value _ now =>
    sh.holdsForNX cfg key now = .ok true ∨ sh.ring.NoGap (entrySize key value)
  | .setXX key value _ now =>
    sh.holdsForXX cfg key now = .ok false ∨ sh.ring.NoGap (entrySize key value)
  | .expire key _ now =>
    sh.holdsForXX cfg key now = .ok false ∨
      ∀ raw, sh.index.lookup (cfg.hash key) = some raw →
        sh.ring.NoGap (sh.ring.sizeAt (offsetOf raw))
  | _ => True

/-! ## The invariant -/

/-- What an index word should be: the offset of a live entry under that hash, with the latest
value of its key. -/
def PointsAt (cfg : CacheConfig) (latest : Bytes → Option Bytes) (live : List Stored)
    (h raw : UInt64) : Prop :=
  ∃ e ∈ live, raw = wordOf e.offset ∧ e.entry.header.hash64 = h ∧ cfg.hash e.entry.key = h ∧
    latest e.entry.key = some e.entry.value

/-- The ring is laid out without gaps and every index word points at its own entry. -/
structure Faithful (cfg : CacheConfig) (sh : Shard) (latest : Bytes → Option Bytes)
    (live : List Stored) : Prop where
  layout : Layout sh.ring live
  cap_lt : sh.ring.capacity < 2 ^ 63
  points : ∀ h raw, sh.index.lookup h = some raw → PointsAt cfg latest live h raw

/-- Some list of live entries makes the shard faithful. -/
def Traced.Sound (cfg : CacheConfig) (s : Traced) : Prop :=
  ∃ live, Faithful cfg s.shard s.latest live

section Read

variable {cfg : CacheConfig} {sh : Shard} {latest : Bytes → Option Bytes} {live : List Stored}
  {e : Stored} {h raw : UInt64}

lemma Faithful.of_index_le (hf : Faithful cfg sh latest live) {index : GoMap UInt64 UInt64}
    (hle : ∀ h raw, index.lookup h = some raw → sh.index.lookup h = some raw) :
    Faithful cfg ⟨index, sh.ring⟩ latest live :=
  ⟨hf.layout, hf.cap_lt, fun h raw hr => hf.points h raw (hle h raw hr)⟩

lemma isInlineInt_wordOf {n : Int} (h0 : 0 ≤ n) (h63 : n < 2 ^ 63) : isInlineInt (wordOf n) = false := by
  have hn := wordOf_toNat h0 h63
  rw [Bool.eq_false_iff, ne_eq, isInlineInt_iff]
  omega

section

variable (hf : Faithful cfg sh latest live)
include hf

lemma Faithful.offset_bounds (he : e ∈ live) : 0 ≤ e.offset ∧ e.offset < 2 ^ 63 := by
  have hb := hf.layout.bounds he
  have hge : 24 ≤ e.size := e.entry.size_ge
  have hc := hf.cap_lt
  omega

lemma Faithful.offsetOf_eq (he : e ∈ live) : offsetOf (wordOf e.offset) = e.offset :=
  offsetOf_wordOf (hf.offset_bounds he).1 (hf.offset_bounds he).2

lemma Faithful.peek_eq (he : e ∈ live) : sh.ring.peek (offsetOf (wordOf e.offset)) =
      .ok (e.entry.key, e.entry.value, e.entry.header) := by
  have hr := hf.layout.readAt_eq he
  rw [readAt_eq] at hr
  rw [hf.offsetOf_eq he]
  exact Except.ok.inj hr

lemma Faithful.not_inline (he : e ∈ live) : isInlineInt (wordOf e.offset) = false :=
  isInlineInt_wordOf (hf.offset_bounds he).1 (hf.offset_bounds he).2

/-- **A read returns the latest value**, and leaves a faithful shard. -/
lemma Faithful.get (key : Bytes) (now : Int) : Go.Ends cfg (sh.get cfg key now) fun r =>
      Faithful cfg r.1 latest live ∧ ∀ v, r.2 = some v → latest key = some v := by
  unfold Shard.get
  dsimp only
  split
  · exact .ok ⟨hf, by simp⟩
  rename_i raw hraw
  obtain ⟨e, he, rfl, -, -, hlatest⟩ := hf.points _ _ hraw
  rw [hf.not_inline he, readAt_eq, hf.peek_eq he]
  simp only [Bool.false_eq_true, if_false, Go.ok_bind]
  split_ifs with hkey hexp
  · exact .ok ⟨hf, by simp⟩
  · exact .ok ⟨hf.of_index_le fun h raw hr => GoMap.lookup_of_erase hr, by simp⟩
  · refine (recordAccess_ends cfg).bind fun _ _ => .ok ⟨hf, fun v hv => ?_⟩
    rw [ne_eq, not_not] at hkey
    cases hv
    rw [← hkey, hlatest]

end

end Read

/-! ## Writes -/

lemma lookup_of_dropEvicted {evicted : List EvictedEntry} {index : GoMap UInt64 UInt64}
    {h raw : UInt64} (hr : (Shard.dropEvicted index evicted).lookup h = some raw) :
    index.lookup h = some raw ∧ ∀ ev ∈ evicted, ev.hash = h → wordOf ev.offset ≠ raw := by
  induction evicted generalizing index with
  | nil => exact ⟨hr, by simp⟩
  | cons ev evicted ih =>
    rw [dropEvicted_cons] at hr
    obtain ⟨h1, h2⟩ := ih hr
    have h3 : index.lookup h = some raw := by
      split at h1
      · exact GoMap.lookup_of_erase h1
      · exact h1
    refine ⟨h3, fun x hx hxh => ?_⟩
    rcases mem_cons.1 hx with rfl | hx
    · intro hw
      rw [hxh, h3, hw, if_pos rfl, GoMap.lookup_erase_eq, if_pos rfl] at h1
      cases h1
    · exact h2 x hx hxh

/-- The entry a string write stores, when the lengths fit its header. -/
def stringEntry (cfg : CacheConfig) (key value : Bytes) (ttl now : Int) (hk : key.length < 65536)
    (hv : value.length < 65536) : Entry where
  header := stringHeader cfg key value ttl now
  key := key
  value := value
  keyLen_eq := UInt16.toNat_ofNat_of_lt' hk
  valLen_eq := UInt16.toNat_ofNat_of_lt' hv

section Write

variable {cfg : CacheConfig} {sh : Shard} {latest l : Bytes → Option Bytes}
  {live : List Stored} {e : Stored} {w : Entry} {h : UInt64}

section

variable (hf : Faithful cfg sh latest live)
include hf

/-- **An append keeps the shard faithful**: the words of reported entries are dropped, and the new
word is the offset of the new entry. -/
lemma Faithful.append (hgap : sh.ring.NoGap w.size) (hh : w.header.hash64 = h)
    (hk : cfg.hash w.key = h) (h1 : l w.key = some w.value)
    (h2 : ∀ k, cfg.hash k ≠ h → l k = latest k) :
    ∃ sh' live', sh.append w.header h w.key w.value = .ok (sh', .appended) ∧ Faithful cfg sh' l live' := by
  obtain ⟨rb', offset, gone, kept, hsplit, hw, hcap, hl'⟩ := hf.layout.write w hgap
  refine ⟨⟨(dropEvicted sh.index (gone.map Stored.report)).insert h (wordOf offset), rb'⟩,
    kept ++ [⟨offset, w⟩], ?_, hl', hcap ▸ hf.cap_lt, fun g raw hr => ?_⟩
  · unfold Shard.append
    rw [hw]
    rfl
  · rw [GoMap.lookup_insert_eq] at hr
    split at hr
    · rename_i hg
      subst hg
      cases hr
      exact ⟨⟨offset, w⟩, by simp, rfl, hh, hk, h1⟩
    · rename_i hg
      obtain ⟨hold, hnot⟩ := lookup_of_dropEvicted hr
      obtain ⟨e, he, rfl, heh, hek, hel⟩ := hf.points g raw hold
      -- an entry the walk reported would have lost its word
      have hkept : e ∈ kept := by
        rw [hsplit] at he
        rcases mem_append.1 he with hgone | hkept
        · exact absurd rfl (hnot e.report (mem_map_of_mem hgone) heh)
        · exact hkept
      exact ⟨e, mem_append_left _ hkept, rfl, heh, hek, by rw [h2 _ (by rw [hek]; exact hg), hel]⟩

/-- **An in-place update of the same size keeps the shard faithful**, also when it replaces the
entry of another key with the same hash. -/
lemma Faithful.update (he : e ∈ live) (hidx : sh.index.lookup h = some (wordOf e.offset))
    (heh : e.entry.header.hash64 = h) (hsz : w.size = e.size) (hh : w.header.hash64 = h)
    (hk : cfg.hash w.key = h) (h1 : l w.key = some w.value)
    (h2 : ∀ k, cfg.hash k ≠ h → l k = latest k) :
    ∃ rb' live', sh.ring.updateInPlace e.offset w.header w.key w.value = .ok (rb', true) ∧
      Faithful cfg ⟨sh.index, rb'⟩ l live' := by
  obtain ⟨rb', hu⟩ := hf.layout.walkable.update_ok he hsz.le
  have hcap := (updateInPlace_true hu).2.1
  refine ⟨rb', _, hu, hf.layout.update he hsz hu, hcap ▸ hf.cap_lt, fun g raw hr => ?_⟩
  by_cases hg : g = h
  · subst hg
    rw [hidx] at hr
    cases hr
    exact ⟨⟨e.offset, w⟩, mem_map.2 ⟨e, he, if_pos rfl⟩, rfl, hh, hk, h1⟩
  · obtain ⟨x, hx, rfl, hxh, hxk, hxl⟩ := hf.points g raw hr
    -- another hash has another entry, which the update does not touch
    have hxe : x.offset ≠ e.offset := by
      intro hxe
      have := hf.layout.eq_of_offset_eq hx he hxe
      subst this
      exact hg (hxh.symm.trans heh)
    refine ⟨x, mem_map.2 ⟨x, hx, if_neg hxe⟩, rfl, hxh, hxk, ?_⟩
    rw [h2 _ (by rw [hxk]; exact hg), hxl]

end

end Write

/-! ## One operation -/

section Step

variable {cfg : CacheConfig} {sh : Shard} {latest : Bytes → Option Bytes} {live : List Stored}

/-- What a string write leaves behind: a faithful shard, for the values after the write. -/
def Wrote (cfg : CacheConfig) (latest : Bytes → Option Bytes) (key value : Bytes)
    (r : Shard × WriteOutcome) : Prop :=
  ∃ live', Faithful cfg r.1
    (if r.2.Done then Function.update latest key (some value) else latest) live'

variable {key value : Bytes} {ttl now : Int}

section

variable (hf : Faithful cfg sh latest live)
include hf

lemma Faithful.appendString_wrote (ttl now : Int) (hk : key.length < 65536)
    (hv : value.length < 65536) (hgap : sh.ring.NoGap (entrySize key value)) :
    Go.Ends cfg (sh.appendString cfg key value ttl now) (Wrote cfg latest key value) := by
  obtain ⟨sh', live', ha, hf'⟩ := hf.append (w := stringEntry cfg key value ttl now hk hv)
    (h := cfg.hash key) (l := Function.update latest key (some value)) hgap rfl rfl (update_self _ _ _)
    (fun k hne => Function.update_of_ne (fun hkk => hne (by rw [hkk])) _ _)
  unfold Shard.appendString
  dsimp only
  have ha' : sh.append (stringHeader cfg key value ttl now) (cfg.hash key) key value = .ok (sh', .appended) := ha
  rw [ha']
  exact (recordAccess_ends cfg).bind fun _ _ => .ok ⟨live', by simpa using hf'⟩

lemma Faithful.set (hs : (ShardOp.set key value ttl now).Short) (hc : sh.NoGapNoShrink cfg (.set key value ttl now)) :
    Go.Ends cfg (sh.set cfg key value ttl now) (Wrote cfg latest key value) := by
  obtain ⟨hk, hv⟩ := hs
  simp only [Shard.NoGapNoShrink] at hc
  unfold Shard.set
  dsimp only
  split
  · rename_i hnone
    rw [hnone] at hc
    exact hf.appendString_wrote ttl now hk hv hc
  · rename_i raw hraw
    rw [hraw] at hc
    obtain ⟨e, he, rfl, heh, -, -⟩ := hf.points _ _ hraw
    rw [hf.not_inline he]
    have ho := hf.offsetOf_eq he
    dsimp only at hc
    rw [ho] at hc ⊢
    by_cases hfit : sh.ring.FitsInPlace e.offset key value
    · rw [if_pos hfit] at hc
      have hsz := (sizeAt_of_readAt (hf.layout.readAt_eq he)).1
      obtain ⟨rb', live', hu, hf'⟩ := hf.update (w := stringEntry cfg key value ttl now hk hv)
        (l := Function.update latest key (some value)) he hraw heh
        (hc.symm.trans hsz) rfl rfl (update_self _ _ _)
        (fun k hne => Function.update_of_ne (fun hkk => hne (by rw [hkk])) _ _)
      have hu' : sh.ring.updateInPlace e.offset (stringHeader cfg key value ttl now) key value = .ok (rb', true) := hu
      rw [hu']
      exact (recordAccess_ends cfg).bind fun _ _ => .ok ⟨live', by simpa using hf'⟩
    · rw [if_neg hfit] at hc
      rw [updateInPlace_eq, if_neg hfit]
      exact hf.appendString_wrote ttl now hk hv hc

lemma Faithful.setNX (hs : (ShardOp.setNX key value ttl now).Short) (hc : sh.NoGapNoShrink cfg (.setNX key value ttl now)) :
    Go.Ends cfg (sh.setNX cfg key value ttl now) (Wrote cfg latest key value) := by
  unfold Shard.setNX
  rcases @holdsForNX_ends cfg sh key now with ⟨b, hb, -⟩ | ⟨hb, hcfg⟩ <;> rw [hb]
  · cases b with
    | true => exact .ok ⟨live, by simpa using hf⟩
    | false => exact hf.appendString_wrote ttl now hs.1 hs.2 (hc.resolve_left (by simp [hb]))
  · exact .inr ⟨rfl, hcfg⟩

lemma Faithful.setXX (hs : (ShardOp.setXX key value ttl now).Short) (hc : sh.NoGapNoShrink cfg (.setXX key value ttl now)) :
    Go.Ends cfg (sh.setXX cfg key value ttl now) (Wrote cfg latest key value) := by
  unfold Shard.setXX
  rcases @holdsForXX_ends cfg sh key now with ⟨b, hb, -⟩ | ⟨hb, hcfg⟩ <;> rw [hb]
  · cases b with
    | false => exact .ok ⟨live, by simpa using hf⟩
    | true => exact hf.appendString_wrote ttl now hs.1 hs.2 (hc.resolve_left (by simp [hb]))
  · exact .inr ⟨rfl, hcfg⟩

/-- `Expire` writes the value again that it read. -/
lemma Faithful.expire {key : Bytes} (hc : sh.NoGapNoShrink cfg (.expire key ttl now)) :
    Go.Ends cfg (sh.expire cfg key ttl now) fun r => ∃ live', Faithful cfg r.1 latest live' := by
  simp only [Shard.NoGapNoShrink, holdsForXX] at hc
  unfold Shard.expire
  dsimp only
  split
  · exact .ok ⟨live, hf⟩
  rename_i raw hraw
  rw [hraw] at hc
  obtain ⟨e, he, rfl, heh, hek, hel⟩ := hf.points _ _ hraw
  have ho := hf.offsetOf_eq he
  dsimp only at hc
  rw [readAt_eq, hf.peek_eq he] at hc ⊢
  simp only [Go.ok_bind] at hc ⊢
  split_ifs with hkey hexp
  · exact .ok ⟨live, hf⟩
  · exact .ok ⟨live, hf⟩
  rw [ne_eq, not_not] at hkey
  have hgap := (hc.resolve_left (by simp [hkey, hexp])) (wordOf e.offset) rfl
  rw [ho, (sizeAt_of_readAt (hf.layout.readAt_eq he)).1] at hgap
  subst hkey
  have hk : e.entry.key.length < 65536 := e.entry.keyLen_eq ▸ e.entry.header.keyLen.toNat_lt
  have hv : e.entry.value.length < 65536 := e.entry.valLen_eq ▸ e.entry.header.valLen.toNat_lt
  obtain ⟨sh', live', ha, hf'⟩ := hf.append (w := ⟨{ e.entry.header with
        expireAt := deadline ttl now
        keyLen := UInt16.ofNat e.entry.key.length
        valLen := UInt16.ofNat e.entry.value.length },
      e.entry.key, e.entry.value, UInt16.toNat_ofNat_of_lt' hk, UInt16.toNat_ofNat_of_lt' hv⟩)
    hgap heh rfl hel (fun _ _ => rfl)
  rw [ha]
  exact .ok ⟨live', hf'⟩

end

lemma sample_lookup {volatileOnly : Bool} {freq : UInt64 → Int} {now : Int} {order : List UInt64}
    {h raw : UInt64} : ∀ {st st' : Shard.Sample},
      sh.sample cfg volatileOnly freq now order st = .ok st' → st'.index.lookup h = some raw →
      st.index.lookup h = some raw := by
  induction order with
  | nil => intro st st' hs hr; cases hs; exact hr
  | cons a order ih =>
    intro st st' hs hr
    unfold sample at hs
    split at hs
    · exact ih hs hr
    rw [readAt_eq] at hs
    simp only [Go.ok_bind] at hs
    split at hs
    · exact ih hs hr
    · split_ifs at hs
      · exact ih hs hr
      · exact GoMap.lookup_of_erase (ih hs hr)
      · exact ih hs hr
      · cases hs
        exact hr
      · exact (ih hs hr :)

lemma Faithful.sampledEvict (hf : Faithful cfg sh latest live) (volatileOnly : Bool)
    (order : List UInt64) (freq : UInt64 → Int) (now : Int) :
    Go.Ends cfg (sh.sampledEvict cfg volatileOnly order freq now) fun r =>
      Faithful cfg r.1 latest live := by
  unfold Shard.sampledEvict
  obtain ⟨st, hst⟩ := @sample_returns cfg sh volatileOnly freq now order ⟨sh.index, none, 0⟩
  rw [hst, Go.ok_bind]
  split
  · exact .ok (hf.of_index_le fun h raw hr => sample_lookup hst hr)
  · exact .ok (hf.of_index_le fun h raw hr => sample_lookup hst (GoMap.lookup_of_erase hr))

lemma Faithful.delete (hf : Faithful cfg sh latest live) (key : Bytes) : Faithful cfg (sh.delete cfg key).1 latest live := by
  unfold Shard.delete
  dsimp only
  split
  · exact hf.of_index_le fun h raw hr => GoMap.lookup_of_erase hr
  · exact hf

lemma Faithful.clear (hf : Faithful cfg sh latest live) : Faithful cfg sh.clear latest [] where
  layout := hf.layout.reset
  cap_lt := hf.cap_lt
  points := fun h raw hr => by
    change (∅ : GoMap UInt64 UInt64).lookup h = some raw at hr
    simp at hr

/-- **Step lemma**: an allowed call keeps the trace sound. -/
lemma Traced.Sound.step {s : Traced} (hs : s.Sound cfg) {op : ShardOp} (hshort : op.Short)
    (hc : s.shard.NoGapNoShrink cfg op) :
    Go.Ends cfg (s.step cfg op) (Traced.Sound cfg) := by
  obtain ⟨live, hf⟩ := hs
  cases op with
  | set key value ttl now => exact (hf.set hshort hc).bind fun r hr => .ok hr
  | setNX key value ttl now => exact (hf.setNX hshort hc).bind fun r hr => .ok hr
  | setXX key value ttl now => exact (hf.setXX hshort hc).bind fun r hr => .ok hr
  | expire key ttl now =>
    exact ((hf.expire hc).bind (R := fun sh => ∃ live', Faithful cfg sh s.latest live')
      fun r hr => .ok hr).bind fun sh hr => .ok hr
  | incrBy key delta now => exact hshort.elim
  | delete key => exact .ok ⟨live, hf.delete key⟩
  | get key now =>
    exact ((hf.get key now).bind (R := fun sh => Faithful cfg sh s.latest live)
      fun r hr => .ok hr.1).bind fun sh hr => .ok ⟨live, hr⟩
  | sampledEvict volatileOnly order freq now =>
    exact ((hf.sampledEvict volatileOnly order freq now).bind
      (R := fun sh => Faithful cfg sh s.latest live) fun r hr => .ok hr).bind
      fun sh hr => .ok ⟨live, hr⟩
  | clear => exact .ok ⟨[], hf.clear⟩

end Step

/-! ## Runs -/

open Traced

lemma Traced.new_sound (cfg : CacheConfig) (ringSize : Int64) : (new ringSize).Sound cfg := by
  refine ⟨[], newRingBuffer_layout _, ?_, fun h raw hr => ?_⟩
  · have h1 := ringSize.toInt_lt
    have h2 : minRingBufferSize = 1048576 := rfl
    change (if ringSize.toInt < minRingBufferSize then minRingBufferSize else ringSize.toInt) < 2 ^ 63
    split <;> omega
  · change (∅ : GoMap UInt64 UInt64).lookup h = some raw at hr
    simp at hr

/-- **Reads over whole runs.** After every run of calls with short keys and values that leave no
gap in the ring and shrink no entry in place, `Get` and `GetCopy` return nothing or the value of
the latest successful write to that key; and where accesses are not recorded, the run returns. -/
theorem reads_latest (cfg : CacheConfig) (ringSize : Int64) (ops : List ShardOp)
    (hshort : ∀ op ∈ ops, op.Short)
    (h : Along (Traced.step cfg) (fun s op => s.shard.NoGapNoShrink cfg op)
      (new ringSize) ops) :
    (cfg.skipLFU = true → ∃ s, run (Traced.step cfg) (Traced.new ringSize) ops = .ok s) ∧
    ∀ s, run (Traced.step cfg) (Traced.new ringSize) ops = .ok s →
      ∀ key now sh v, (s.shard.get cfg key now = .ok (sh, some v) ∨
        s.shard.getCopy cfg key now = .ok (sh, some v)) → s.latest key = some v := by
  have hguard := run_guarded (I := Sound cfg) (B := fun _ => cfg.skipLFU = false)
    (fun s op hs hc => (hs.step hc.1 hc.2).imp id fun he => ⟨_, he⟩)
    (new_sound cfg ringSize) (h.and_forall hshort)
  constructor
  · intro hlfu
    rcases hguard with ⟨s, hr, -⟩ | ⟨e, -, hbad⟩
    · exact ⟨s, hr⟩
    · rw [hlfu] at hbad
      cases hbad
  · intro s hr key now sh v hget
    rcases hguard with ⟨s', hr', live, hf⟩ | ⟨e, he, -⟩
    · rw [hr] at hr'
      cases hr'
      have hget' : s.shard.get cfg key now = .ok (sh, some v) := hget.elim id id
      exact ((hf.get key now).of_ok hget').2 v rfl
    · rw [hr] at he
      cases he

theorem reads_latest_one :
    ∃ s, run (Traced.step firstByte) (Traced.new 0) [.set [1] [9] 0 0] = .ok s ∧
      ∀ key now sh v, s.shard.get firstByte key now = .ok (sh, some v) → s.latest key = some v := by
  obtain ⟨h1, h2⟩ := reads_latest firstByte 0 [.set [1] [9] 0 0]
    (by intro op hop; rw [mem_singleton.1 hop]; exact ⟨by decide, by decide⟩)
    ⟨Or.inl (by decide), fun _ _ => trivial⟩
  obtain ⟨s, hs⟩ := h1 rfl
  exact ⟨s, hs, fun key now sh v hget => h2 s hs key now sh v (.inl hget)⟩

/-! ## A read that returns forged bytes -/

section Forged

variable {cfg : CacheConfig}

lemma Traced.step_set_of_none {s : Traced} {sh : Shard} {key value : Bytes}
    (hnone : s.shard.index.lookup (cfg.hash key) = none)
    (h : s.shard.appendString cfg key value 0 0 = .ok (sh, .appended)) :
    s.step cfg (.set key value 0 0) = .ok ⟨sh, Function.update s.latest key (some value)⟩ := by
  simp [step, Shard.set, hnone, h, record]

/-- A `Set` of a key whose hash is not indexed, where the ring has room before its end. -/
lemma Traced.step_set_of_fits {s : Traced} {live : List Stored}
    (hlfu : cfg.skipLFU = true) (hl : Layout s.shard.ring live) (key value : Bytes)
    (hk : key.length < 65536) (hv : value.length < 65536)
    (hnone : s.shard.index.lookup (cfg.hash key) = none)
    (hu : s.shard.ring.used + entrySize key value ≤ s.shard.ring.capacity)
    (ht : s.shard.ring.tail + entrySize key value ≤ s.shard.ring.capacity) :
    ∃ s', s.step cfg (.set key value 0 0) = .ok s' ∧
      Layout s'.shard.ring (live ++ [⟨s.shard.ring.tail, stringEntry cfg key value 0 0 hk hv⟩]) ∧
      s'.shard.ring.capacity = s.shard.ring.capacity ∧ s'.shard.ring.head = s.shard.ring.head ∧
      s'.shard.ring.tail = s.shard.ring.tail + entrySize key value ∧
      s'.shard.ring.used = s.shard.ring.used + entrySize key value ∧
      s'.shard.index = s.shard.index.insert (cfg.hash key) (wordOf s.shard.ring.tail) ∧
      s'.latest = Function.update s.latest key (some value) := by
  obtain ⟨hw, hl'⟩ := hl.write_of_fits (w := stringEntry cfg key value 0 0 hk hv) hu ht
  have ha := appendString_ok hlfu hw
  exact ⟨_, step_set_of_none hnone ha, hl', rfl, rfl, rfl, rfl, rfl, rfl⟩

@[irreducible] def filler (n : ℕ) : Bytes := List.replicate n 0

@[simp] lemma filler_length (n : ℕ) : (filler n).length = n := by
  unfold filler
  exact length_replicate

def keyOf (i : ℕ) : Bytes := [UInt8.ofNat (i + 1)]

/-- The entry of the key number `i`, of 65560 bytes. -/
def longEntry (i : ℕ) : Entry :=
  stringEntry firstByte (keyOf i) (filler 65535) 0 0 (by simp [keyOf])
    (by rw [filler_length]; norm_num)

lemma longEntry_size (i : ℕ) : (longEntry i).size = 65560 := by
  have hk : (keyOf i).length = 1 := rfl
  rw [Entry.size_eq, longEntry, stringEntry, filler_length, hk]
  norm_num

/-- The first fifteen keys fill the ring from `0` on. -/
lemma fill_keys (k : ℕ) (hk : k ≤ 15) : ∃ s, run (Traced.step firstByte) (Traced.new 0)
        ((List.range k).map fun i => .set (keyOf i) (filler 65535) 0 0) = .ok s ∧
      Layout s.shard.ring ((List.range k).map fun i : ℕ => ⟨65560 * (i : Int), longEntry i⟩) ∧
      s.shard.ring.capacity = 1048576 ∧ s.shard.ring.head = 0 ∧
      s.shard.ring.tail = 65560 * k ∧ s.shard.ring.used = 65560 * k ∧
      (∀ h : UInt64, s.shard.index.lookup h =
        if 0 < h.toNat ∧ h.toNat ≤ k then some (wordOf (65560 * ((h.toNat : Int) - 1))) else none) ∧
      (2 ≤ k → s.latest [2] = some (filler 65535)) := by
  induction k with
  | zero => exact ⟨_, rfl, newRingBuffer_layout _, rfl, rfl, rfl, rfl, fun h => by rw [if_neg (by omega)]; rfl, by simp⟩
  | succ k ih =>
    obtain ⟨s, hr, hl, hc, hh, ht, hu, hidx, hlat⟩ := ih (by omega)
    have hsz : entrySize (keyOf k) (filler 65535) = 65560 := longEntry_size k
    have hkey : (firstByte.hash (keyOf k)).toNat = k + 1 := by
      simp [firstByte, keyOf]
      omega
    obtain ⟨s', hs, hl', hc', hh', ht', hu', hidx', hlat'⟩ := @step_set_of_fits
      firstByte _ _ rfl hl (keyOf k) (filler 65535) (by simp [keyOf])
      (by rw [filler_length]; norm_num) (by rw [hidx, if_neg (by omega)]) (by omega) (by omega)
    refine ⟨s', ?_, ?_, by omega, by omega, by omega, by omega, fun h => ?_, fun h2 => ?_⟩
    · rw [range_succ, map_append]
      exact (run_snoc hr).trans hs
    · rw [range_succ, map_append, map_singleton, ← ht]
      exact hl'
    · rw [hidx', GoMap.lookup_insert_eq, hidx]
      by_cases hh : h = firstByte.hash (keyOf k)
      · subst hh
        rw [if_pos rfl, if_pos (by omega), hkey, ht]
        congr 2
        push_cast
        ring
      · have hne : h.toNat ≠ k + 1 := fun he => hh (UInt64.toNat_inj.1 (he.trans hkey.symm))
        rw [if_neg hh]
        by_cases hle : 0 < h.toNat ∧ h.toNat ≤ k
        · rw [if_pos hle, if_pos (by omega)]
        · rw [if_neg hle, if_neg (by omega)]
    · rw [hlat']
      by_cases h1 : k = 1
      · rw [h1, show keyOf 1 = [2] from rfl, update_self]
      · rw [update_of_ne, hlat (by omega)]
        intro he
        have := congrArg (fun key => (firstByte.hash key).toNat) he
        rw [hkey] at this
        change 2 = k + 1 at this
        omega

/-- The sixteenth write evicts the first key and starts again at `0`; between its end and the
entry of the key `2` are 100 bytes. -/
lemma wrap_keys : ∃ s, run (Traced.step firstByte) (Traced.new 0)
        ((List.range 15).map (fun i => .set (keyOf i) (filler 65535) 0 0) ++ [.set [16] (filler 65435) 0 0]) = .ok s ∧
      s.shard.ring.Wf ∧ s.shard.ring.capacity = 1048576 ∧ s.shard.ring.tail = 65460 ∧
      s.shard.ring.used = 983300 ∧ s.shard.index.lookup 2 = some (wordOf 65560) ∧
      s.shard.index.lookup 17 = none ∧ s.latest [2] = some (filler 65535) := by
  obtain ⟨s, hr, hl, hc, hh, ht, hu, hidx, hlat⟩ := fill_keys 15 le_rfl
  have hsz : entrySize [16] (filler 65435) = 65460 := by
    rw [entrySize, filler_length]
    norm_num
  have hx : (⟨0, longEntry 0⟩ : Stored).size = 65560 := longEntry_size 0
  have hlive : ((range 15).map fun i : ℕ => (⟨65560 * (i : Int), longEntry i⟩ : Stored)) =
      ⟨0, longEntry 0⟩ :: ⟨65560, longEntry 1⟩ :: ([2, 3, 4, 5, 6, 7, 8, 9, 10, 11, 12, 13, 14].map fun i : ℕ =>
          (⟨65560 * (i : Int), longEntry i⟩ : Stored)) := rfl
  rw [hlive] at hl
  obtain ⟨c, hcw, -, hct, hcu, hw⟩ := hl.write_wraps (stringHeader firstByte [16] (filler 65435) 0 0) [16] (filler 65435)
    (by omega) (by omega) (by omega) (by dsimp only; omega)
  have hnone : s.shard.index.lookup (firstByte.hash [16]) = none := by
    rw [hidx, if_neg (by decide)]
  have hstep := step_set_of_none hnone (appendString_ok rfl hw)
  refine ⟨_, (run_snoc hr).trans hstep, commit_wf hl.wf hcw (by omega) (by omega), hc, ?_, ?_, ?_, ?_, ?_⟩
  · change c.tail + entrySize [16] (filler 65435) = _
    omega
  · change c.used + entrySize [16] (filler 65435) = _
    omega
  · rw [GoMap.lookup_insert_eq, if_neg (by decide)]
    refine dropEvicted_lookup ((hidx 2).trans (if_pos (by decide))) fun ev hev heq => ?_
    rw [mem_singleton.1 hev] at heq
    exact absurd heq (by decide)
  · rw [GoMap.lookup_insert_eq, if_neg (by decide), Option.eq_none_iff_forall_ne_some]
    intro raw hraw
    have h17 := (lookup_of_dropEvicted hraw).1
    rw [hidx, if_neg (by decide)] at h17
    cases h17
  · dsimp only
    rw [update_of_ne (by decide), hlat (by decide)]

/-- What the seventeenth write plants where the entry of the key `2` begins. -/
def planted : Entry := ⟨⟨0, 2, 1, 1, 0, 0⟩, [2], [238], rfl, rfl⟩

/-- `Get` of a key whose index word is the offset of a live entry of that key. -/
lemma Shard.get_of_holds {sh : Shard} (hlfu : cfg.skipLFU = true) {e : Stored}
    {now : Int} (hidx : sh.index.lookup (cfg.hash e.entry.key) = some (wordOf e.offset))
    (h0 : 0 ≤ e.offset) (h63 : e.offset < 2 ^ 63) (h1 : e.offset + e.size ≤ sh.ring.capacity)
    (hh : sh.ring.Holds e) (hexp : ¬ EntryExpired e.entry.header now) :
    sh.get cfg e.entry.key now = .ok (sh, some e.entry.value) := by
  have hread := hh.readAt_eq h0 h1
  simp [get, hidx, isInlineInt_wordOf h0 h63, offsetOf_wordOf h0 h63, hread, hexp, recordAccess, hlfu]

/-- **A read can return forged bytes.** The seventeenth value covers the entry of the key `2`,
which is still indexed; `Get` of that key returns bytes from the middle of this value. -/
theorem read_forged :
    ∃ s sh, run (Traced.step firstByte) (Traced.new 0)
        (((List.range 15).map (fun i => .set (keyOf i) (filler 65535) 0 0) ++
          [.set [16] (filler 65435) 0 0]) ++ [.set [17] (filler 75 ++ planted.bytes) 0 0]) = .ok s ∧
      s.shard.get firstByte [2] 0 = .ok (sh, some [238]) ∧ s.latest [2] ≠ some [238] := by
  obtain ⟨s, hr, hwf, hc, ht, hu, h2, h17, hlat⟩ := wrap_keys
  have hsz : entrySize [17] (filler 75 ++ planted.bytes) = 126 := by
    rw [entrySize, length_append, filler_length]
    rfl
  have hw := @writeWithEvict_of_fits _ [17] (filler 75 ++ planted.bytes) hwf
    (stringHeader firstByte [17] (filler 75 ++ planted.bytes) 0 0) (by omega) (by omega)
  have hnone : s.shard.index.lookup (firstByte.hash [17]) = none := h17
  have hstep := step_set_of_none hnone (appendString_ok rfl hw)
  have hholds : Holds (s.shard.ring.commit s.shard.ring.cursor
      (stringHeader firstByte [17] (filler 75 ++ planted.bytes) 0 0) [17]
      (filler 75 ++ planted.bytes)) ⟨65560, planted⟩ := by
    -- the header of the entry takes 24 bytes, its key one and the filler 75
    set pre := (stringHeader firstByte [17] (filler 75 ++ planted.bytes) 0 0).marshal ++ [17] ++
      filler 75 with hpre
    have hlen : pre.length = 100 := by
      rw [hpre, length_append, length_append, EntryHeader.marshal_length, filler_length]
      rfl
    change (put _ s.shard.ring.tail _ _ _).data.load _ _ = _
    rw [put_data, ← append_assoc, ← hpre, ht]
    · have hload := @Mem.load_store_sub s.shard.ring.data (pre ++ planted.bytes) 65460 100
        planted.bytes.length (by rw [length_append, hlen])
      rw [drop_left' hlen, take_length] at hload
      exact hload
    · unfold entrySize at hsz
      omega
  have hget := @get_of_holds firstByte ⟨(dropEvicted s.shard.index []).insert (firstByte.hash [17])
      (wordOf s.shard.ring.tail), _⟩ rfl ⟨65560, planted⟩ 0
    (by dsimp only; rw [GoMap.lookup_insert_eq, if_neg (by decide)]; exact h2)
    (by decide) (by decide) (by change 65560 + 26 ≤ s.shard.ring.capacity; omega) hholds (by decide)
  refine ⟨_, _, (run_snoc hr).trans hstep, hget, ?_⟩
  dsimp only
  rw [update_of_ne (by decide), hlat]
  intro he
  have := congrArg length (Option.some.inj he)
  rw [filler_length] at this
  cases this

end Forged

end AutoCache
