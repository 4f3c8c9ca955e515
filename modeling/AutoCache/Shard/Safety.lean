import AutoCache.Lib.Runs
import AutoCache.Ring.Bounds
import AutoCache.Shard.Defs
import Mathlib.Data.Nat.Bitwise

/-!
# Ring accesses of a shard stay in the buffer

Runs of a shard with keys and values of any length. Head and tail of the ring stay in range
whatever happens, both eviction loops return, and every slice expression is in bounds but one:
`UpdateInPlace` compares the new size with a length it read at the indexed offset, and when that
offset is stale the length says nothing about the end of the buffer. `shard_run_safe_iff` says
exactly which runs panic; `shard_run_panics` is one.
-/

namespace AutoCache

open AutoCache.Ring RingBuffer Shard Runs List

/-! ## Index words -/

lemma offsetOf_eq (raw : UInt64) : offsetOf raw = if raw.toNat < 2 ^ 63 then (raw.toNat : Int) else raw.toNat - 2 ^ 64 := by
  have h : offsetOf raw = raw.toBitVec.toInt := rfl
  rw [h, BitVec.toInt_eq_toNat_cond]
  have e : raw.toBitVec.toNat = raw.toNat := rfl
  split <;> split <;> omega

lemma wordOf_toNat {a : Int} (h0 : 0 ≤ a) (h1 : a < 2 ^ 63) : ((wordOf a).toNat : Int) = a := by
  unfold wordOf UInt64.ofInt
  rw [UInt64.toNat_ofNat']
  omega

lemma offsetOf_wordOf {a : Int} (h0 : 0 ≤ a) (h1 : a < 2 ^ 63) : offsetOf (wordOf a) = a := by
  have h := wordOf_toNat h0 h1
  rw [offsetOf_eq, if_pos (by omega), h]

lemma isInlineInt_iff (raw : UInt64) : isInlineInt raw = true ↔ 2 ^ 63 ≤ raw.toNat := by
  have hlt : raw.toNat < 2 ^ 64 := raw.toNat_lt
  have h1 : (raw &&& inlineFlag).toNat = raw.toNat &&& 2 ^ 63 := UInt64.toNat_and raw inlineFlag
  have h2 : raw.toNat &&& 2 ^ 63 = (raw.toNat.testBit 63).toNat * 2 ^ 63 := Nat.and_two_pow _ _
  have h3 : raw.toNat.testBit 63 = decide (2 ^ 63 ≤ raw.toNat) := by
    rw [Nat.testBit_eq_decide_div_mod_eq]
    congr 1
    apply propext
    omega
  have h4 : raw &&& inlineFlag = 0 ↔ (raw &&& inlineFlag).toNat = 0 := by
    rw [← UInt64.toNat_inj]
    rfl
  unfold isInlineInt
  rw [decide_eq_true_iff, ne_eq, h4, h1, h2, h3]
  simp

/-! ## Computations that return -/

/-- The computation returns a value with `P`, or overflows the stack in a cache that records
accesses. -/
def Go.Ends {α : Type} (cfg : CacheConfig) (x : Go α) (P : α → Prop) : Prop :=
  (∃ a, x = .ok a ∧ P a) ∨ (x = .error .stackOverflow ∧ cfg.skipLFU = false)

namespace Go.Ends

variable {α β : Type} {cfg : CacheConfig} {P : α → Prop} {R : β → Prop} {x : Go α} {f : α → Go β}

lemma ok {a : α} (h : P a) : Go.Ends cfg (.ok a) P := .inl ⟨a, rfl, h⟩

lemma bind (hx : Go.Ends cfg x P) (hf : ∀ a, P a → Go.Ends cfg (f a) R) : Go.Ends cfg (x >>= f) R := by
  rcases hx with ⟨a, rfl, ha⟩ | ⟨rfl, hc⟩
  · exact hf a ha
  · exact .inr ⟨rfl, hc⟩

lemma not_bad (hx : Go.Ends cfg x P) {e : Fault} (he : x = .error e) : ¬ e ≠ .stackOverflow := by
  rcases hx with ⟨a, rfl, -⟩ | ⟨rfl, -⟩
  · cases he
  · cases he
    simp

lemma of_ok (hx : Go.Ends cfg x P) {a : α} (h : x = .ok a) : P a := by
  rcases hx with ⟨b, rfl, hb⟩ | ⟨rfl, -⟩
  · cases h
    exact hb
  · cases h

end Go.Ends

lemma recordAccess_ends (cfg : CacheConfig) : Go.Ends cfg (recordAccess cfg) fun _ => True := by
  unfold recordAccess
  split
  · exact .ok trivial
  · rename_i h
    exact .inr ⟨rfl, by simpa using h⟩

/-! ## One operation -/

inductive ShardOp where
  | set (key value : Bytes) (ttl now : Int)
  | setNX (key value : Bytes) (ttl now : Int)
  | setXX (key value : Bytes) (ttl now : Int)
  | expire (key : Bytes) (ttl now : Int)
  | incrBy (key : Bytes) (delta now : Int)
  | delete (key : Bytes)
  | get (key : Bytes) (now : Int)
  | sampledEvict (volatileOnly : Bool) (order : List UInt64) (freq : UInt64 → Int) (now : Int)
  | clear

namespace Shard

variable (cfg : CacheConfig)

def step (sh : Shard) : ShardOp → Go Shard
  | .set key value ttl now => return (← sh.set cfg key value ttl now).1
  | .setNX key value ttl now => return (← sh.setNX cfg key value ttl now).1
  | .setXX key value ttl now => return (← sh.setXX cfg key value ttl now).1
  | .expire key ttl now => return (← sh.expire cfg key ttl now).1
  | .incrBy key delta now => return (← sh.incrBy cfg key delta now).1
  | .delete key => return (sh.delete cfg key).1
  | .get key now => return (← sh.get cfg key now).1
  | .sampledEvict volatileOnly order freq now =>
    return (← sh.sampledEvict cfg volatileOnly order freq now).1
  | .clear => return sh.clear

/-- The call updates in place only where the key ends inside the buffer. -/
def InPlaceInside (sh : Shard) : ShardOp → Prop
  | .set key value _ _ => ∀ raw, sh.index.lookup (cfg.hash key) = some raw → ¬ isInlineInt raw →
      sh.ring.FitsInPlace (offsetOf raw) key value →
      offsetOf raw + 24 + key.length ≤ sh.ring.capacity
  | _ => True

variable {cfg} {sh : Shard}

lemma append_ends (hw : sh.ring.Wf) (header : EntryHeader) (hash : UInt64) (key value : Bytes) :
    Go.Ends cfg (sh.append header hash key value) fun r => r.1.ring.Wf := by
  unfold append
  rcases writeWithEvict_cases hw header key value with
    ⟨-, h⟩ | ⟨c, c', -, -, hc, hu, ht, h⟩
  · rw [h]
    exact .ok hw
  · rw [h]
    exact .ok (commit_wf hw hc hu ht)

lemma appendString_ends (hw : sh.ring.Wf) (key value : Bytes) (ttl now : Int) :
    Go.Ends cfg (sh.appendString cfg key value ttl now) fun r => r.1.ring.Wf := by
  refine (append_ends hw _ _ _ _).bind fun r hr => ?_
  dsimp only
  split
  · exact (recordAccess_ends cfg).bind fun _ _ => .ok hr
  · exact .ok hr

lemma get_ends (hw : sh.ring.Wf) (key : Bytes) (now : Int) : Go.Ends cfg (sh.get cfg key now) fun r => r.1.ring.Wf := by
  unfold get
  dsimp only
  split
  · exact .ok hw
  split
  · exact (recordAccess_ends cfg).bind fun _ _ => .ok hw
  rw [readAt_eq]
  simp only [Go.ok_bind]
  split
  · exact .ok hw
  · split_ifs
    · exact .ok hw
    · exact .ok hw
    · exact (recordAccess_ends cfg).bind fun _ _ => .ok hw

lemma holdsForNX_ends (key : Bytes) (now : Int) : Go.Ends cfg (sh.holdsForNX cfg key now) fun _ => True := by
  unfold holdsForNX
  split
  · exact .ok trivial
  · rw [readAt_eq]
    simp only [Go.ok_bind]
    split <;> exact .ok trivial

lemma holdsForXX_ends (key : Bytes) (now : Int) : Go.Ends cfg (sh.holdsForXX cfg key now) fun _ => True := by
  unfold holdsForXX
  split
  · exact .ok trivial
  · rw [readAt_eq]
    simp only [Go.ok_bind]
    split <;> exact .ok trivial

lemma setNX_ends (hw : sh.ring.Wf) (key value : Bytes) (ttl now : Int) :
    Go.Ends cfg (sh.setNX cfg key value ttl now) fun r => r.1.ring.Wf := by
  refine (holdsForNX_ends key now).bind fun b _ => ?_
  split
  · exact .ok hw
  · exact appendString_ends hw key value ttl now

lemma setXX_ends (hw : sh.ring.Wf) (key value : Bytes) (ttl now : Int) :
    Go.Ends cfg (sh.setXX cfg key value ttl now) fun r => r.1.ring.Wf := by
  refine (holdsForXX_ends key now).bind fun b _ => ?_
  split
  · exact appendString_ends hw key value ttl now
  · exact .ok hw

lemma expire_ends (hw : sh.ring.Wf) (key : Bytes) (ttl now : Int) :
    Go.Ends cfg (sh.expire cfg key ttl now) fun r => r.1.ring.Wf := by
  unfold expire
  dsimp only
  split
  · exact .ok hw
  rw [readAt_eq]
  simp only [Go.ok_bind]
  split
  · exact .ok hw
  · split_ifs
    · exact .ok hw
    · exact .ok hw
    · exact (append_ends hw _ _ _ _).bind fun r hr => .ok hr

lemma incrBy_ends (hw : sh.ring.Wf) (key : Bytes) (delta now : Int) :
    Go.Ends cfg (sh.incrBy cfg key delta now) fun r => r.1.ring.Wf := by
  have hput : ∀ (n : Int) (o : IncrOutcome), Go.Ends cfg (do
      recordAccess cfg
      return ({ sh with index := sh.index.insert (cfg.hash key) (encodeInlineInt n) }, o))
      fun r : Shard × IncrOutcome => r.1.ring.Wf :=
    fun n o => (recordAccess_ends cfg).bind fun _ _ => .ok hw
  unfold incrBy
  dsimp only
  split
  · exact hput _ _
  split
  · exact hput _ _
  rw [readAt_eq]
  simp only [Go.ok_bind]
  split
  · exact hput _ _
  · split_ifs
    · exact hput _ _
    · exact hput _ _
    · split
      · exact .ok hw
      · exact hput _ _

lemma sample_returns (volatileOnly : Bool) (freq : UInt64 → Int) (now : Int) (order : List UInt64) :
    ∀ st, ∃ st', sh.sample cfg volatileOnly freq now order st = .ok st' := by
  induction order with
  | nil => intro st; exact ⟨st, rfl⟩
  | cons h order ih =>
    intro st
    unfold sample
    split
    · exact ih st
    rw [readAt_eq]
    simp only [Go.ok_bind]
    split
    · exact ih st
    · split_ifs
      · exact ih st
      · exact ih _
      · exact ih st
      · exact ⟨_, rfl⟩
      · exact ih _

/-- `Set` returns when its in-place update stays inside the buffer. -/
lemma set_ends (hw : sh.ring.Wf) {key value : Bytes} {ttl now : Int} (hin : InPlaceInside cfg sh (.set key value ttl now)) :
    Go.Ends cfg (sh.set cfg key value ttl now) fun r => r.1.ring.Wf := by
  unfold set
  dsimp only
  split
  · exact appendString_ends hw key value ttl now
  rename_i raw hraw
  split
  · exact @appendString_ends cfg { sh with index := sh.index.erase (cfg.hash key) } hw key value ttl now
  · rename_i hinline
    rw [updateInPlace_eq]
    by_cases hfit : sh.ring.FitsInPlace (offsetOf raw) key value
    · rw [if_pos hfit, if_pos (hin raw hraw hinline hfit)]
      exact (recordAccess_ends cfg).bind fun _ _ => .ok (overwrite_wf hw _ _ _ _)
    · rw [if_neg hfit]
      exact appendString_ends hw key value ttl now

/-- **`Set` panics** where the in-place copy of the value starts past the end of the buffer. -/
lemma set_panics {key value : Bytes} {ttl now : Int} (hout : ¬ InPlaceInside cfg sh (.set key value ttl now)) :
    sh.set cfg key value ttl now = .error .sliceBounds := by
  unfold InPlaceInside at hout
  push Not at hout
  obtain ⟨raw, hraw, hinline, hfit, hlt⟩ := hout
  unfold set
  dsimp only
  rw [hraw]
  dsimp only
  rw [if_neg hinline, updateInPlace_eq, if_pos hfit, if_neg (by omega)]
  rfl

/-- **Step lemma**: a call that updates inside the buffer returns or overflows the stack, and
head and tail stay in range. -/
lemma step_ends (hw : sh.ring.Wf) {op : ShardOp} (hin : InPlaceInside cfg sh op) :
    Go.Ends cfg (sh.step cfg op) fun sh' => sh'.ring.Wf := by
  have hends : ∀ {α : Type} {x : Go (Shard × α)}, (Go.Ends cfg x fun r => r.1.ring.Wf) →
      Go.Ends cfg (do return (← x).1 : Go Shard) fun sh' => sh'.ring.Wf := fun hx =>
    hx.bind fun r hr => .ok hr
  cases op with
  | set key value ttl now => exact hends (set_ends hw hin)
  | setNX key value ttl now => exact hends (setNX_ends hw key value ttl now)
  | setXX key value ttl now => exact hends (setXX_ends hw key value ttl now)
  | expire key ttl now => exact hends (expire_ends hw key ttl now)
  | incrBy key delta now => exact hends (incrBy_ends hw key delta now)
  | delete key =>
    refine .ok ?_
    unfold delete
    dsimp only
    split <;> exact hw
  | get key now => exact hends (get_ends hw key now)
  | sampledEvict volatileOnly order freq now =>
    obtain ⟨st, hst⟩ := @sample_returns cfg sh volatileOnly freq now order ⟨sh.index, none, 0⟩
    simp only [step, sampledEvict, hst, Go.ok_bind]
    split <;> exact .ok hw
  | clear => exact .ok hw.reset

lemma step_panics {op : ShardOp} (hout : ¬ InPlaceInside cfg sh op) : sh.step cfg op = .error .sliceBounds := by
  cases op with
  | set key value ttl now => simp [step, set_panics hout]
  | _ => exact absurd trivial hout

/-- A call returns or overflows the stack exactly if it updates inside the buffer. -/
lemma step_safe_iff (hw : sh.ring.Wf) (op : ShardOp) :
    (∀ e, sh.step cfg op = .error e → ¬ e ≠ .stackOverflow) ↔ InPlaceInside cfg sh op := by
  refine ⟨fun hs => ?_, fun hin e he => (step_ends hw hin).not_bad he⟩
  by_contra hout
  exact hs .sliceBounds (step_panics hout) (by decide)

lemma step_wf (hw : sh.ring.Wf) {op : ShardOp} {sh' : Shard} (h : sh.step cfg op = .ok sh') : sh'.ring.Wf := by
  by_cases hin : InPlaceInside cfg sh op
  · exact (step_ends hw hin).of_ok h
  · rw [step_panics hin] at h
    cases h

end Shard

/-! ## Runs -/

/-- **Ring accesses over whole runs.** From a fresh shard, head and tail are in range in every
state a run reaches, and the run ends in no fault but a stack overflow, in particular every
slice is in bounds and both eviction loops return, exactly when each of its in-place updates
writes its key inside the buffer. -/
theorem shard_run_safe_iff (cfg : CacheConfig) (ringSize : Int64) (ops : List ShardOp) :
    (∀ sh, run (step cfg) (newShard ringSize) ops = .ok sh →
      0 ≤ sh.ring.tail ∧ sh.ring.tail ≤ sh.ring.capacity ∧
      0 ≤ sh.ring.head ∧ sh.ring.head < sh.ring.capacity) ∧
    ((∀ e, run (step cfg) (newShard ringSize) ops = .error e → e = .stackOverflow) ↔
      Along (step cfg) (InPlaceInside cfg) (newShard ringSize) ops) := by
  have h0 : (newShard ringSize).ring.Wf := newRingBuffer_wf _
  have hkeep : ∀ sh op sh', sh.ring.Wf → step cfg sh op = .ok sh' → sh'.ring.Wf :=
    fun sh op sh' hw h => step_wf hw h
  constructor
  · intro sh h
    have hw := run_invariant (I := fun sh => sh.ring.Wf) hkeep h0 h
    exact ⟨hw.tail_nonneg, hw.tail_le, hw.head_nonneg, hw.head_lt⟩
  · rw [← run_safe_iff (I := fun sh => sh.ring.Wf) (B := fun e => e ≠ .stackOverflow)
      hkeep (fun sh op hw => step_safe_iff hw op) h0]
    simp

/-! ## Recording accesses -/

/-- The cache of a store that `NewStore` makes. -/
def storeCache (hash : Bytes → UInt64) (maxMemory : Int64) (evictPolicy : String) : CacheConfig :=
  ⟨hash, 5, maxMemory ≤ 0 || evictPolicy == "noeviction"⟩

/-- **Calls return without frequency tracking only.** In a store every run returns, unless an
in-place update leaves the buffer, exactly when it has no memory limit or never evicts. -/
theorem runs_return_iff (hash : Bytes → UInt64) (maxMemory : Int64) (evictPolicy : String)
    (ringSize : Int64) :
    (∀ ops, (∃ sh, run (step (storeCache hash maxMemory evictPolicy)) (newShard ringSize) ops = .ok sh) ↔
      Along (step (storeCache hash maxMemory evictPolicy))
        (InPlaceInside (storeCache hash maxMemory evictPolicy)) (newShard ringSize) ops) ↔
      maxMemory ≤ 0 ∨ evictPolicy = "noeviction" := by
  have hoff : (storeCache hash maxMemory evictPolicy).skipLFU = true ↔
      maxMemory ≤ 0 ∨ evictPolicy = "noeviction" := by
    simp [storeCache]
  rw [← hoff]
  generalize storeCache hash maxMemory evictPolicy = cfg
  constructor
  · intro h
    -- the first counter of a fresh shard is recorded
    obtain ⟨sh, hrun⟩ := (h [.incrBy [] 1 0]).2 ⟨trivial, fun _ _ => trivial⟩
    by_contra hon
    have hstep : (newShard ringSize).step cfg (.incrBy [] 1 0) = .error .stackOverflow := by
      simp [step, incrBy, newShard, recordAccess, hon]
    rw [run_cons_error hstep] at hrun
    cases hrun
  · intro hskip ops
    rw [← run_safe_iff (I := fun sh => sh.ring.Wf) (B := fun _ => True) (fun sh op sh' hw h => step_wf hw h)
      (fun sh op hw => ?_) (newRingBuffer_wf _)]
    · cases run (step cfg) (newShard ringSize) ops with
      | ok sh => simp
      | error e => simp
    · refine ⟨fun hs => ?_, fun hin e he => ?_⟩
      · by_contra hout
        exact hs _ (step_panics hout) trivial
      · rcases step_ends hw hin with ⟨sh', hok, -⟩ | ⟨-, hon⟩
        · cases hok.symm.trans he
        · cases hskip.symm.trans hon

/-- **A counter that never returns**, in a cache with a memory limit and an eviction policy. -/
theorem recordAccess_overflows :
    (newShard 0).step (storeCache (fun _ => 0) 1 "allkeys-lru") (.incrBy [] 1 0) =
      .error .stackOverflow := by
  rfl

/-! ## A run that panics -/

section Panic

def firstByte : CacheConfig := ⟨fun key => (key.headD 0).toUInt64, 5, true⟩

variable {cfg : CacheConfig} {sh : Shard}

lemma Shard.appendString_ok (hlfu : cfg.skipLFU = true) {key value : Bytes} {ttl now : Int} {rb : RingBuffer} {offset : Int}
    {evicted : List EvictedEntry}
    (h : sh.ring.writeWithEvict (stringHeader cfg key value ttl now) key value = .ok (rb, .ok (offset, evicted))) :
    sh.appendString cfg key value ttl now =
      .ok (⟨(dropEvicted sh.index evicted).insert (cfg.hash key) (wordOf offset), rb⟩, .appended) := by
  unfold appendString append recordAccess
  dsimp only
  rw [h]
  simp [hlfu]

/-- A header of 24 bytes `0xff` claims the largest size. -/
lemma headerEntrySize_ones {rb : RingBuffer} {p : Int}
    (h : ∀ i, p ≤ i → i < p + 24 → rb.data i = 255) : headerEntrySize (rb.headerAt p) = 131094 := by
  have hload : rb.data.load p 24 = Mem.load (fun _ => 255) p 24 :=
    Mem.load_congr fun i h1 h2 => h i h1 h2
  have hones : Mem.load (fun _ => 255) p 24 = replicate 24 255 := by
    simp only [Mem.load, replicate]
  unfold headerAt
  rw [hload, hones]
  decide +kernel

def ones (n : ℕ) : Bytes := replicate n 255

@[simp] lemma ones_length (n : ℕ) : (ones n).length = n := length_replicate

/-- The first two calls fill the ring. The value of the first is longer than its header can say;
the key of the second lies in the last 25 bytes. -/
def fillOps : List ShardOp := [.setNX [1] (ones 1048526) 0 0, .setNX [2] [] 0 0]

lemma Shard.step_setNX_of_none {sh sh' : Shard} {key value : Bytes}
    {outcome : WriteOutcome} (hnone : sh.index.lookup (cfg.hash key) = none)
    (h : sh.appendString cfg key value 0 0 = .ok (sh', outcome)) :
    sh.step cfg (.setNX key value 0 0) = .ok sh' := by
  simp [step, setNX, holdsForNX, hnone, h]

/-- A `SetNX` of a key whose hash is not indexed, where the ring has room before its end. -/
lemma Shard.step_setNX_of_fits (hlfu : cfg.skipLFU = true)
    (hw : sh.ring.Wf) (key value : Bytes) (hnone : sh.index.lookup (cfg.hash key) = none)
    (hu : sh.ring.used + RingBuffer.entrySize key value ≤ sh.ring.capacity)
    (ht : sh.ring.tail + RingBuffer.entrySize key value ≤ sh.ring.capacity) :
    ∃ sh', sh.step cfg (.setNX key value 0 0) = .ok sh' ∧ sh'.ring.Wf ∧
      sh'.ring.capacity = sh.ring.capacity ∧ sh'.ring.head = sh.ring.head ∧
      sh'.ring.tail = sh.ring.tail + RingBuffer.entrySize key value ∧
      sh'.ring.used = sh.ring.used + RingBuffer.entrySize key value ∧
      sh'.ring.data = sh.ring.data.store sh.ring.tail ((stringHeader cfg key value 0 0).marshal ++ key ++ value) ∧
      sh'.index = sh.index.insert (cfg.hash key) (wordOf sh.ring.tail) := by
  have h := appendString_ok hlfu (writeWithEvict_of_fits hw (stringHeader cfg key value 0 0) hu ht)
  refine ⟨_, step_setNX_of_none hnone h, commit_wf hw hw.cursor hu ht, rfl, rfl, rfl, rfl, ?_, rfl⟩
  refine put_data _ ?_
  change sh.ring.tail + 24 + key.length + value.length ≤ sh.ring.capacity
  unfold entrySize at ht
  omega

lemma fill_ring : ∃ sh, run (step firstByte) (newShard 0) fillOps = .ok sh ∧
      sh.ring.capacity = 1048576 ∧ sh.ring.head = 0 ∧ sh.ring.tail = 1048576 ∧
      sh.ring.used = 1048576 ∧ headerEntrySize (sh.ring.headerAt 0) = 65511 ∧
      (∀ i, 25 ≤ i → i < 1048551 → sh.ring.data i = 255) ∧
      sh.index.lookup 2 = some (wordOf 1048551) ∧ sh.index.lookup 3 = none := by
  have hs1 : entrySize [1] (ones 1048526) = 1048551 := by
    rw [entrySize, ones_length]
    norm_num
  have hs2 : entrySize [2] [] = 25 := rfl
  obtain ⟨sh1, r1, w1, c1, d1, t1, u1, m1, i1⟩ := @step_setNX_of_fits firstByte
    (newShard 0) rfl (newRingBuffer_wf _) [1] (ones 1048526) rfl
    (by rw [hs1]; decide) (by rw [hs1]; decide)
  have c1' : sh1.ring.capacity = 1048576 := c1.trans rfl
  have t1' : sh1.ring.tail = 1048551 := by rw [t1, hs1]; rfl
  have u1' : sh1.ring.used = 1048551 := by rw [u1, hs1]; rfl
  obtain ⟨sh2, r2, -, c2, d2, t2, u2, m2, i2⟩ := @step_setNX_of_fits firstByte sh1
    rfl w1 [2] [] (by rw [i1]; decide) (by omega) (by omega)
  refine ⟨sh2, ?_, by omega, by rw [d2, d1]; rfl, by omega, by omega, ?_, ?_, ?_, ?_⟩
  · rw [fillOps, run_cons_ok r1, run_cons_ok r2]
    rfl
  · have hload : sh2.ring.data.load 0 24 = (stringHeader firstByte [1] (ones 1048526) 0 0).marshal := by
      rw [m2, Mem.load_store_disjoint _ (Or.inl (by rw [t1']; norm_num)), m1, append_assoc]
      exact Mem.load_store_left _ _ _ _
    unfold headerAt
    rw [hload, ← append_nil (EntryHeader.marshal _), EntryHeader.unmarshal_marshal]
    simp [headerEntrySize, headerSize, stringHeader]
  · intro i h1 h2
    rw [m2, Mem.store_of_lt _ _ (by omega), m1]
    exact Mem.store_append_replicate _ (by change 0 + (25 : Int) ≤ i; omega)
      (by change i < 0 + (25 : Int) + (1048526 : ℕ); omega)
  · rw [i2, t1', GoMap.lookup_insert_eq, if_pos (by decide)]
  · rw [i2, i1, GoMap.lookup_insert_eq, if_neg (by decide), GoMap.lookup_insert_eq, if_neg (by decide)]
    rfl

/-- The walk through a block of bytes `0xff` takes steps of the largest size and never reports
the last 25 bytes of the buffer. -/
lemma walk_ones {rb : RingBuffer} (hcap : rb.capacity = 1048576)
    (hones : ∀ i, 25 ≤ i → i < 1048551 → rb.data i = 255) {c : Cursor} (hh : c.head = 65511)
    (hu : c.used = 983065) (he : ∀ ev ∈ c.evicted, 0 ≤ ev.offset ∧ ev.offset < 1048551) (k : ℕ) (hk : k ≤ 7) :
    ∃ c', rb.makeRoom 1048576 c = rb.makeRoom 1048576 c' ∧ c'.tail = c.tail ∧
      c'.head = 65511 + 131094 * k ∧ c'.used = 983065 - 131094 * k ∧
      ∀ ev ∈ c'.evicted, 0 ≤ ev.offset ∧ ev.offset < 1048551 := by
  induction k with
  | zero => exact ⟨c, rfl, rfl, by omega, by omega, he⟩
  | succ k ih =>
    obtain ⟨c', hm, ht', hh', hu', he'⟩ := ih (by omega)
    have hsize : headerEntrySize (rb.headerAt c'.head) = 131094 :=
      headerEntrySize_ones fun i h1 h2 => hones i (by omega) (by omega)
    refine ⟨_, hm.trans (makeRoom_step (by omega) (by omega) (if_neg ?_)), ht', ?_, ?_, ?_⟩
    · omega
    · dsimp only
      omega
    · dsimp only
      omega
    · intro ev hev
      rcases mem_append.1 hev with hev | hev
      · exact he' ev hev
      · rw [mem_singleton.1 hev]
        dsimp only
        omega

lemma Shard.dropEvicted_cons (index : GoMap UInt64 UInt64) (ev : EvictedEntry) (evicted : List EvictedEntry) :
    dropEvicted index (ev :: evicted) = dropEvicted
      (if index.lookup ev.hash = some (wordOf ev.offset) then index.erase ev.hash else index)
      evicted := rfl

lemma dropEvicted_lookup {index : GoMap UInt64 UInt64} {evicted : List EvictedEntry} {h raw : UInt64}
    (hraw : index.lookup h = some raw) (hne : ∀ ev ∈ evicted, wordOf ev.offset ≠ raw) :
    (dropEvicted index evicted).lookup h = some raw := by
  induction evicted generalizing index with
  | nil => exact hraw
  | cons ev evicted ih =>
    rw [dropEvicted_cons]
    refine ih ?_ fun x hx => hne x (mem_cons_of_mem _ hx)
    split
    · rename_i hev
      rw [GoMap.lookup_erase_eq, if_neg, hraw]
      rintro rfl
      rw [hev] at hraw
      exact hne ev mem_cons_self (Option.some.inj hraw)
    · exact hraw

/-- The third call evicts nine times, all of it inside the first entry, and overwrites the whole
buffer; the index word of the key `2` stays. -/
lemma overwrite_ring (hcap : sh.ring.capacity = 1048576)
    (hh : sh.ring.head = 0) (ht : sh.ring.tail = 1048576) (hu : sh.ring.used = 1048576)
    (hsize : headerEntrySize (sh.ring.headerAt 0) = 65511)
    (hones : ∀ i, 25 ≤ i → i < 1048551 → sh.ring.data i = 255)
    (h2 : sh.index.lookup 2 = some (wordOf 1048551)) (h3 : sh.index.lookup 3 = none) :
    ∃ sh', sh.step firstByte (.setNX [3] (ones 1048551) 0 0) = .ok sh' ∧
      sh'.ring.capacity = 1048576 ∧ sh'.index.lookup 2 = some (wordOf 1048551) ∧
      ∀ i, 25 ≤ i → i < 1048576 → sh'.ring.data i = 255 := by
  have hs : entrySize [3] (ones 1048551) = 1048576 := by
    rw [entrySize, ones_length]
    norm_num
  -- the first eviction goes by the truncated length of the first entry
  have hstep : sh.ring.evictStep sh.ring.cursor = some ⟨65511, 1048576, 983065,
      [⟨(sh.ring.headerAt 0).hash64, 0⟩], sh.ring.evictCount + 1⟩ := by
    simp [evictStep, cursor, hh, ht, hu, hcap, hsize]
  obtain ⟨c, hm, hct, hch, hcu, hce⟩ := walk_ones hcap hones
    (c := ⟨65511, 1048576, 983065, [⟨(sh.ring.headerAt 0).hash64, 0⟩], sh.ring.evictCount + 1⟩)
    rfl rfl (by simp) 7 le_rfl
  -- the last eviction takes `used` below zero and the head back to the start
  have hlast : headerEntrySize (sh.ring.headerAt c.head) = 131094 :=
    headerEntrySize_ones fun i h1 h2 => hones i (by omega) (by omega)
  obtain ⟨c', hstep', hct', hcu', hce'⟩ : ∃ c', sh.ring.evictStep c = some c' ∧ c'.tail = 1048576 ∧ c'.used = -65687 ∧
      ∀ ev ∈ c'.evicted, 0 ≤ ev.offset ∧ ev.offset < 1048551 := by
    refine ⟨_, if_neg (by rw [hlast]; omega), hct, ?_, ?_⟩
    · dsimp only
      omega
    · intro ev hev
      rcases mem_append.1 hev with hev | hev
      · exact hce ev hev
      · rw [mem_singleton.1 hev]
        dsimp only
        omega
  have h1 : sh.ring.makeRoom (entrySize [3] (ones 1048551)) sh.ring.cursor = .ok c' := by
    rw [hs, makeRoom_step (by omega) (by change _ < sh.ring.used + _; omega) hstep, hm,
      makeRoom_step (by omega) (by omega) hstep', makeRoom_of_le (by omega)]
  have h2' : sh.ring.wrapTail (entrySize [3] (ones 1048551)) c' = .ok { c' with tail := 0 } := by
    unfold wrapTail
    rw [hs, if_pos (by omega)]
    refine evictLoop_exit _ (decide_eq_false ?_)
    dsimp only
    omega
  have hwr := @appendString_ok firstByte sh rfl _ _ 0 0 _ _ _ (writeWithEvict_eq
      (by omega) h1 h2' le_rfl (by dsimp only; omega))
  refine ⟨_, step_setNX_of_none h3 hwr, hcap, ?_, ?_⟩
  · rw [GoMap.lookup_insert_eq, if_neg (by decide)]
    refine dropEvicted_lookup h2 fun ev hev heq => ?_
    have hb := hce' ev hev
    have := congrArg offsetOf heq
    rw [offsetOf_wordOf hb.1 (by omega), offsetOf_wordOf (by decide) (by decide)] at this
    omega
  · intro i hi1 hi2
    have hd := @put_data sh.ring 0 (stringHeader firstByte [3] (ones 1048551) 0 0) [3]
      (ones 1048551) (by rw [ones_length, hcap]; norm_num)
    change (sh.ring.put 0 _ [3] (ones 1048551)).data i = 255
    rw [hd]
    exact Mem.store_append_replicate _ (by change 0 + (25 : Int) ≤ i; omega)
      (by change i < 0 + (25 : Int) + (1048551 : ℕ); omega)

/-- **An in-place update can leave the buffer.** The key of the last call has the hash of the
second; the word it finds leads to bytes that are no header. -/
theorem shard_run_panics :
    run (step firstByte) (newShard 0)
      (fillOps ++ [.setNX [3] (ones 1048551) 0 0, .set [2, 0] [] 0 0]) = .error .sliceBounds := by
  obtain ⟨sh, hr, hcap, hh, ht, hu, hsize, hones, h2, h3⟩ := fill_ring
  obtain ⟨sh', hr', hcap', h2', hones'⟩ := overwrite_ring hcap hh ht hu hsize hones h2 h3
  have ho : offsetOf (wordOf 1048551) = 1048551 := offsetOf_wordOf (by decide) (by decide)
  have hout : ¬ InPlaceInside firstByte sh' (.set [2, 0] [] 0 0) := by
    intro hin
    have := hin (wordOf 1048551) h2' (by decide) ?_
    · rw [ho, hcap'] at this
      norm_num at this
    · refine ⟨by decide, by rw [hcap']; decide, ?_⟩
      rw [headerEntrySize_ones fun i h1 h2 => hones' i (by omega) (by omega)]
      decide
  rw [run_append hr, run_cons_ok hr']
  refine run_cons_error ?_
  simp [step, set_panics hout]

end Panic

end AutoCache
