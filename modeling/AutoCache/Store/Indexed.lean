import Mathlib.Data.Set.Function
import AutoCache.Shard.Index
import AutoCache.Store.Backend

/-!
# What a backend holds

The slot index above a cache is about which keys the shards hold, not about their values.
`Backend.Indexed` says what each call does to that, for a set of keys of which no two share a
hash; the shards of the source are such a backend.
-/

namespace AutoCache

open AutoCache.Ring Shard

/-- **What the calls do to the keys a backend holds**, for the keys in `K`: only a write that
appends and a new counter add a key, and only the key of the call. -/
structure Backend.Indexed {σ : Type} (B : Backend σ) (K : Set Bytes)
    (Holds : σ → Bytes → Prop) : Prop where
  get : ∀ {c c' k now v}, B.get c k now = .ok (c', v) → ∀ x ∈ K, Holds c' x → Holds c x
  get_some : ∀ {c c' k now v}, B.get c k now = .ok (c', some v) → Holds c k
  set : ∀ {c c' k value ttl now o}, k ∈ K → B.set c k value ttl now = .ok (c', o) →
    ∀ x ∈ K, Holds c' x → Holds c x ∨ (x = k ∧ o = .appended)
  setNX : ∀ {c c' k value ttl now o}, k ∈ K → B.setNX c k value ttl now = .ok (c', o) →
    ∀ x ∈ K, Holds c' x → Holds c x ∨ (x = k ∧ o = .appended)
  setXX : ∀ {c c' k value ttl now o}, B.setXX c k value ttl now = .ok (c', o) →
    ∀ x ∈ K, Holds c' x → Holds c x
  expire : ∀ {c c' k ttl now b}, B.expire c k ttl now = .ok (c', b) →
    ∀ x ∈ K, Holds c' x → Holds c x
  incrBy : ∀ {c c' k delta now o}, k ∈ K → B.incrBy c k delta now = .ok (c', o) →
    ∀ x ∈ K, Holds c' x → Holds c x ∨ (x = k ∧ ∃ n, o = .created n)
  delete : ∀ {c k}, k ∈ K → ∀ x ∈ K, Holds (B.delete c k).1 x ↔ x ≠ k ∧ Holds c x
  delete_done : ∀ {c k}, (B.delete c k).2 = true ↔ Holds c k
  clear : ∀ {c x}, ¬ Holds (B.clear c) x
  /-- A delete takes the deadline of its key away, and no other. -/
  ttl_delete : ∀ {c k now d}, k ∈ K → ∀ x ∈ K, B.ttl (B.delete c k).1 x now = .ok (some d) →
    B.ttl c x now = .ok (some d)
  /-- What is read of a key does not depend on reads of other keys. -/
  get_other : ∀ {c c' k now v}, k ∈ K → B.get c k now = .ok (c', v) → ∀ x ∈ K, x ≠ k →
    (B.get c' x now).map Prod.snd = (B.get c x now).map Prod.snd

namespace Shards

variable {cfg : CacheConfig} {n : UInt64} {K : Set Bytes} {c c' : Shards} {k : Bytes}

/-- The index of its shard has the hash of the key. -/
def Holds (cfg : CacheConfig) (n : UInt64) (c : Shards) (key : Bytes) : Prop :=
  cfg.hash key ∈ (c (shardOf cfg n key)).index

lemma on_eq_ok {α : Type} {call : Shard → Go (Shard × α)} {a : α} : c.on cfg n k call = .ok (c', a) ↔
      ∃ sh, call (c (shardOf cfg n k)) = .ok (sh, a) ∧ c' = Function.update c (shardOf cfg n k) sh := by
  unfold on
  rw [Go.bind_eq_ok]
  constructor
  · rintro ⟨⟨sh, a'⟩, h, h'⟩
    cases h'
    exact ⟨sh, h, rfl⟩
  · rintro ⟨sh, h, rfl⟩
    exact ⟨(sh, a), h, rfl⟩

lemma holds_update {sh : Shard} {R : Bytes → Prop}
    (h : ∀ x ∈ K, cfg.hash x ∈ sh.index → cfg.hash x ∈ (c (shardOf cfg n k)).index ∨ R x) :
    ∀ x ∈ K, Holds cfg n (Function.update c (shardOf cfg n k) sh) x → Holds cfg n c x ∨ R x := by
  intro x hx hm
  unfold Holds at *
  by_cases hi : shardOf cfg n x = shardOf cfg n k
  · rw [hi] at hm ⊢
    rw [Function.update_self] at hm
    exact h x hx hm
  · rw [Function.update_of_ne hi] at hm
    exact .inl hm

lemma holds_update_of_subset {sh : Shard} (h : ∀ a ∈ sh.index, a ∈ (c (shardOf cfg n k)).index) :
    ∀ x ∈ K, Holds cfg n (Function.update c (shardOf cfg n k) sh) x → Holds cfg n c x :=
  fun x hx hm => (@holds_update cfg n K c k sh (fun _ => False) (fun _ _ hm => .inl (h _ hm)) x hx hm).resolve_right id

end Shards

/-! ## The shards of the source -/

section Sharded

open Shards

variable {cfg : CacheConfig} {n : UInt64} {K : Set Bytes}

/-- A read of the index of one shard that leaves the ring alone does not change what is read of
another key. -/
lemma Shards.get_of_erased {sh sh' : Shard} {k x : Bytes} {now : Int} (hring : sh'.ring = sh.ring)
    (hidx : sh'.index = sh.index ∨ sh'.index = sh.index.erase (cfg.hash k))
    (hne : cfg.hash x ≠ cfg.hash k) :
    (sh'.get cfg x now).map Prod.snd = (sh.get cfg x now).map Prod.snd := by
  have hl : sh'.index.lookup (cfg.hash x) = sh.index.lookup (cfg.hash x) := by
    rcases hidx with h | h
    · rw [h]
    · rw [h, GoMap.lookup_erase_eq, if_neg hne]
  unfold Shard.get
  dsimp only
  rw [hl, hring]
  split
  · rfl
  split
  · unfold recordAccess
    split <;> rfl
  rw [RingBuffer.readAt_eq]
  simp only [Go.ok_bind]
  split
  · rfl
  · split_ifs
    · rfl
    · rfl
    · unfold recordAccess
      split <;> rfl

theorem shardedBackend_indexed (hK : Set.InjOn cfg.hash K) : (shardedBackend cfg n).Indexed K (Holds cfg n) where
  get {c c' k now v} h := by
    dsimp only [shardedBackend] at h
    obtain ⟨sh, hs, rfl⟩ := on_eq_ok.1 h
    refine holds_update_of_subset fun a ha => ?_
    rcases (get_post k now _ hs).2 with he | he
    · exact he ▸ ha
    · rw [he] at ha
      exact (Finmap.mem_erase.1 ha).2
  get_some {c c' k now v} h := by
    dsimp only [shardedBackend] at h
    obtain ⟨sh, hs, -⟩ := on_eq_ok.1 h
    by_contra hno
    have hl : (c (shardOf cfg n k)).index.lookup (cfg.hash k) = none := Finmap.lookup_eq_none.2 hno
    unfold Shard.getCopy Shard.get at hs
    dsimp only at hs
    rw [hl] at hs
    cases hs
  set {c c' k value ttl now o} hk h := by
    dsimp only [shardedBackend] at h
    obtain ⟨sh, hs, rfl⟩ := on_eq_ok.1 h
    exact holds_update fun x hx hm =>
      (set_post k value ttl now _ hs _ hm).imp_right fun ⟨he, ho⟩ => ⟨hK hx hk he, ho⟩
  setNX {c c' k value ttl now o} hk h := by
    dsimp only [shardedBackend] at h
    obtain ⟨sh, hs, rfl⟩ := on_eq_ok.1 h
    exact holds_update fun x hx hm =>
      (setNX_post k value ttl now _ hs _ hm).imp_right fun ⟨he, ho⟩ => ⟨hK hx hk he, ho⟩
  setXX {c c' k value ttl now o} h := by
    dsimp only [shardedBackend] at h
    obtain ⟨sh, hs, rfl⟩ := on_eq_ok.1 h
    exact holds_update_of_subset (setXX_post k value ttl now _ hs)
  expire {c c' k ttl now b} h := by
    dsimp only [shardedBackend] at h
    obtain ⟨sh, hs, rfl⟩ := on_eq_ok.1 h
    exact holds_update_of_subset (expire_post k ttl now _ hs)
  incrBy {c c' k delta now o} hk h := by
    dsimp only [shardedBackend] at h
    obtain ⟨sh, hs, rfl⟩ := on_eq_ok.1 h
    exact holds_update fun x hx hm =>
      (incrBy_post k delta now _ hs _ hm).imp_right fun ⟨he, ho⟩ => ⟨hK hx hk he, ho⟩
  delete {c k} hk x hx := by
    change cfg.hash x ∈ (Function.update c (shardOf cfg n k) ((c (shardOf cfg n k)).delete cfg k).1
      (shardOf cfg n x)).index ↔ x ≠ k ∧ cfg.hash x ∈ (c (shardOf cfg n x)).index
    have hne : cfg.hash x ≠ cfg.hash k ↔ x ≠ k := (hK.ne_iff hx hk)
    by_cases hi : shardOf cfg n x = shardOf cfg n k
    · rw [hi, Function.update_self, delete_index, hne]
    · have hxk : x ≠ k := fun he => hi (by rw [he])
      rw [Function.update_of_ne hi]
      exact ⟨fun hm => ⟨hxk, hm⟩, fun hm => hm.2⟩
  delete_done {c k} := delete_done k
  clear {c x} h := by
    change cfg.hash x ∈ (∅ : GoMap UInt64 UInt64) at h
    exact Finmap.notMem_empty h
  ttl_delete {c k now d} hk x hx h := by
    change (Function.update c (shardOf cfg n k) ((c (shardOf cfg n k)).delete cfg k).1
      (shardOf cfg n x)).ttl cfg x now = _ at h
    change (c (shardOf cfg n x)).ttl cfg x now = _
    by_cases hi : shardOf cfg n x = shardOf cfg n k
    · rw [hi] at h ⊢
      rw [Function.update_self] at h
      unfold delete at h
      dsimp only at h
      split at h
      · unfold ttl at h ⊢
        rw [GoMap.lookup_erase_eq] at h
        by_cases hh : cfg.hash x = cfg.hash k
        · rw [if_pos hh] at h
          cases h
        · rw [if_neg hh] at h
          exact h
      · exact h
    · rw [Function.update_of_ne hi] at h
      exact h
  get_other {c c' k now v} hk h x hx hne := by
    dsimp only [shardedBackend] at h
    obtain ⟨sh, hs, rfl⟩ := on_eq_ok.1 h
    have hsnd : ∀ d : Shards, ((shardedBackend cfg n).get d x now).map Prod.snd =
        ((d (shardOf cfg n x)).get cfg x now).map Prod.snd := by
      intro d
      change (d.on cfg n x fun sh => sh.get cfg x now).map Prod.snd = _
      unfold on
      dsimp only
      cases (d (shardOf cfg n x)).get cfg x now <;> rfl
    rw [hsnd, hsnd]
    by_cases hi : shardOf cfg n x = shardOf cfg n k
    · obtain ⟨hring, hidx⟩ := get_post k now _ hs
      rw [hi, Function.update_self]
      exact get_of_erased hring hidx fun he => hne (hK hx hk he)
    · rw [Function.update_of_ne hi]

end Sharded

end AutoCache
