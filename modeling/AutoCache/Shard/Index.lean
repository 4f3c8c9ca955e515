import AutoCache.Ring.Bounds
import AutoCache.Shard.Defs

/-!
# What a call does to the index of a shard

Evictions and expired reads take hashes out of the index. Only a write that appends an entry and
a counter that is new put one in, and it is the hash of their key.
-/

namespace AutoCache

open AutoCache.Ring Finmap

/-- If the computation returns, its result has `P`. -/
def Go.Post {α : Type} (x : Go α) (P : α → Prop) : Prop := ∀ a, x = .ok a → P a

namespace Go.Post

variable {α β : Type} {P : α → Prop} {R : β → Prop} {x : Go α} {f : α → Go β}

lemma ok {a : α} (h : P a) : Go.Post (.ok a) P := by
  intro b hb
  cases hb
  exact h

lemma bind (h : ∀ a, x = .ok a → Go.Post (f a) R) : Go.Post (x >>= f) R := by
  intro b hb
  obtain ⟨a, ha, hfa⟩ := Go.bind_eq_ok.1 hb
  exact h a ha b hfa

lemma mono {Q : α → Prop} (h : Go.Post x P) (hPQ : ∀ a, P a → Q a) : Go.Post x Q :=
  fun a ha => hPQ a (h a ha)

end Go.Post

namespace Shard

variable {cfg : CacheConfig} {sh : Shard}

/-- `Get` and `GetCopy` take at most the hash of their key out. -/
lemma get_post (key : Bytes) (now : Int) : Go.Post (sh.get cfg key now) fun r => r.1.ring = sh.ring ∧
      (r.1.index = sh.index ∨ r.1.index = sh.index.erase (cfg.hash key)) := by
  unfold get
  dsimp only
  split
  · exact .ok ⟨rfl, .inl rfl⟩
  split
  · exact .bind fun _ _ => .ok ⟨rfl, .inl rfl⟩
  rw [RingBuffer.readAt_eq]
  simp only [Go.ok_bind]
  split
  · exact .ok ⟨rfl, .inl rfl⟩
  · split_ifs
    · exact .ok ⟨rfl, .inl rfl⟩
    · exact .ok ⟨rfl, .inr rfl⟩
    · exact .bind fun _ _ => .ok ⟨rfl, .inl rfl⟩

lemma get_total (hlfu : cfg.skipLFU = true) (key : Bytes) (now : Int) : ∃ r, sh.get cfg key now = .ok r := by
  have hrec : recordAccess cfg = .ok () := by
    unfold recordAccess
    rw [hlfu]
    rfl
  unfold get
  dsimp only
  split
  · exact ⟨_, rfl⟩
  split
  · rw [hrec]
    exact ⟨_, rfl⟩
  · rw [RingBuffer.readAt_eq]
    simp only [Go.ok_bind]
    split
    · exact ⟨_, rfl⟩
    · rw [hrec]
      split_ifs <;> exact ⟨_, rfl⟩

lemma mem_of_mem_dropEvicted {evicted : List EvictedEntry} {index : GoMap UInt64 UInt64}
    {h : UInt64} (hm : h ∈ dropEvicted index evicted) : h ∈ index := by
  induction evicted generalizing index with
  | nil => exact hm
  | cons ev evicted ih =>
    have hm' := ih hm
    dsimp only at hm'
    split at hm'
    · exact (mem_erase.1 hm').2
    · exact hm'

/-- What a write may put into the index: the hash of its key, when it appends an entry. -/
def Adds (sh : Shard) (hash : UInt64) (r : Shard × WriteOutcome) : Prop :=
  ∀ h ∈ r.1.index, h ∈ sh.index ∨ (h = hash ∧ r.2 = .appended)

lemma append_post (header : EntryHeader) (hash : UInt64) (key value : Bytes) :
    Go.Post (sh.append header hash key value) (sh.Adds hash) := by
  unfold append
  refine .bind fun r _ => ?_
  dsimp only
  split
  · exact .ok fun h hm => .inl hm
  · refine .ok fun h hm => ?_
    rcases mem_insert.1 hm with rfl | hm
    · exact .inr ⟨rfl, rfl⟩
    · exact .inl (mem_of_mem_dropEvicted hm)

section

variable (key value : Bytes) (ttl now : Int)
include key value ttl now

lemma appendString_post : Go.Post (sh.appendString cfg key value ttl now) (sh.Adds (cfg.hash key)) := by
  unfold appendString
  refine .bind fun r hr => ?_
  have hadds := append_post _ _ _ _ r hr
  dsimp only
  split
  · exact .bind fun _ _ => .ok hadds
  · exact .ok hadds

lemma set_post : Go.Post (sh.set cfg key value ttl now) (sh.Adds (cfg.hash key)) := by
  unfold set
  dsimp only
  split
  · exact appendString_post key value ttl now
  · split
    · refine (appendString_post key value ttl now).mono fun r hr h hm => ?_
      exact (hr h hm).imp_left fun hm => (mem_erase.1 hm).2
    · refine .bind fun r _ => ?_
      split
      · exact .bind fun _ _ => .ok fun h hm => .inl hm
      · exact appendString_post key value ttl now

lemma setNX_post : Go.Post (sh.setNX cfg key value ttl now) (sh.Adds (cfg.hash key)) := by
  unfold setNX
  refine .bind fun b _ => ?_
  split
  · exact .ok fun h hm => .inl hm
  · exact appendString_post key value ttl now

/-- `SetXX` writes only where its test found the hash. -/
lemma setXX_post : Go.Post (sh.setXX cfg key value ttl now) fun r => ∀ h ∈ r.1.index, h ∈ sh.index := by
  unfold setXX
  refine .bind fun b hb => ?_
  split
  · have hmem : cfg.hash key ∈ sh.index := by
      by_contra hno
      rw [holdsForXX, lookup_eq_none.2 hno] at hb
      simp_all
    refine (appendString_post key value ttl now).mono fun r hr h hm => ?_
    rcases hr h hm with hm | ⟨rfl, -⟩
    · exact hm
    · exact hmem
  · exact .ok fun h hm => hm

end

lemma expire_post (key : Bytes) (ttl now : Int) :
    Go.Post (sh.expire cfg key ttl now) fun r => ∀ h ∈ r.1.index, h ∈ sh.index := by
  unfold expire
  dsimp only
  split
  · exact .ok fun h hm => hm
  rename_i raw hraw
  rw [RingBuffer.readAt_eq]
  simp only [Go.ok_bind]
  split
  · exact .ok fun h hm => hm
  · split_ifs
    · exact .ok fun h hm => hm
    · exact .ok fun h hm => hm
    · refine .bind fun r hr => .ok fun h hm => ?_
      rcases append_post _ _ _ _ r hr h hm with hm | ⟨rfl, -⟩
      · exact hm
      · exact mem_of_lookup_eq_some hraw

lemma incrBy_post (key : Bytes) (delta now : Int) : Go.Post (sh.incrBy cfg key delta now) fun r => ∀ h ∈ r.1.index,
      h ∈ sh.index ∨ (h = cfg.hash key ∧ ∃ n, r.2 = .created n) := by
  unfold incrBy
  dsimp only
  split
  · refine .bind fun _ _ => .ok fun h hm => ?_
    rcases mem_insert.1 hm with rfl | hm
    · exact .inr ⟨rfl, _, rfl⟩
    · exact .inl hm
  · rename_i raw hraw
    -- every other branch sets the counter of a hash that is in the index
    have hput : ∀ n, Go.Post (do
        recordAccess cfg
        return ({ sh with index := sh.index.insert (cfg.hash key) (encodeInlineInt n) },
          IncrOutcome.updated n)) fun r => ∀ h ∈ r.1.index,
        h ∈ sh.index ∨ (h = cfg.hash key ∧ ∃ n, r.2 = .created n) := by
      intro n
      refine .bind fun _ _ => .ok fun h hm => .inl ?_
      rcases mem_insert.1 hm with rfl | hm
      · exact mem_of_lookup_eq_some hraw
      · exact hm
    split
    · exact hput _
    rw [RingBuffer.readAt_eq]
    simp only [Go.ok_bind]
    split
    · exact hput _
    · split_ifs
      · exact hput _
      · exact hput _
      · split
        · exact .ok fun h hm => .inl hm
        · exact hput _

lemma delete_index (key : Bytes) {h : UInt64} : h ∈ (sh.delete cfg key).1.index ↔ h ≠ cfg.hash key ∧ h ∈ sh.index := by
  unfold delete
  dsimp only
  split
  · exact mem_erase
  · rename_i hno
    exact ⟨fun hm => ⟨fun he => hno (he ▸ hm), hm⟩, fun hm => hm.2⟩

lemma delete_done (key : Bytes) : (sh.delete cfg key).2 = true ↔ cfg.hash key ∈ sh.index := by
  unfold delete
  dsimp only
  split <;> simp [*]

end Shard

end AutoCache
