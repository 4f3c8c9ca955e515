import AutoCache.Shard.Safety
import AutoCache.Store.Slots

/-!
# `KeysInSlot` over a run

With a complete index, `KeysInSlot` returns the live keys of a slot, each once. The index of a
fresh store is complete and stays so in every run in which no call takes one of two copies of a
key; and a `GetSet` that does leaves a live key that no slot lists.
-/

namespace AutoCache.Store

open Hoare Shards Store

/-! ## Live keys -/

section Live

variable {σ : Type} {K : Set Bytes} {Holds : σ → Bytes → Prop} {E : Engine σ}
  {s s' : Store σ} {k : Bytes} {now : Int}

/-- **A live key**: a string in the cache or a collection in the dictionary, unexpired. -/
def Live (E : Engine σ) (s : Store σ) (k : Bytes) (now : Int) : Prop :=
  (∃ c v, E.get s.shards k now = .ok (c, some v)) ∨ LiveObject s k now

lemma cacheExists_eq_ok {b : Bool} : cacheExists E k now s = .ok (b, s') ↔
    ∃ c v, E.get s.shards k now = .ok (c, v) ∧ v.isSome = b ∧ s' = { s with shards := c } := by
  unfold cacheExists cacheGet onShards
  constructor
  · intro hr
    obtain ⟨⟨v, t⟩, h1, h2⟩ := Go.bind_eq_ok.1 hr
    cases h2
    obtain ⟨⟨c, v'⟩, h3, h4⟩ := Go.bind_eq_ok.1 h1
    cases h4
    exact ⟨c, _, h3, rfl, rfl⟩
  · rintro ⟨c, v, h, rfl, rfl⟩
    change (E.get s.shards k now >>= _) >>= _ = _
    rw [h]
    rfl

lemma objectGet_of_none (h : s.objects.lookup k = none) : objectGet k now s = .ok (none, s) := by
  rw [objectGet, h]
  rfl

lemma objectGet_of_expired {o : Object} (h : s.objects.lookup k = some o) (he : o.expired now) :
    objectGet k now s = .ok (none, { s with objects := s.objects.erase k }) := by
  rw [objectGet, h]
  exact if_pos he

lemma objectGet_of_live {o : Object} (h : s.objects.lookup k = some o) (he : ¬ o.expired now) :
    objectGet k now s = .ok (some o, s) := by
  rw [objectGet, h]
  exact if_neg he

lemma hasObjectKey_of_objectGet {o : Option Object} (h : objectGet k now s = .ok (o, s')) :
    hasObjectKey k now s = .ok (o.isSome, s') := by
  change (objectGet k now s >>= _) >>= _ = _
  rw [h]
  cases o <;> rfl

lemma hasObjectKey_live {b : Bool} (hr : hasObjectKey k now s = .ok (b, s')) :
    (b = true ↔ LiveObject s k now) ∧ s'.shards = s.shards ∧ ∀ x ≠ k, s'.objects.lookup x = s.objects.lookup x := by
  cases ho : s.objects.lookup k with
  | none =>
    rw [hasObjectKey_of_objectGet (objectGet_of_none ho)] at hr
    cases hr
    exact ⟨by simp [LiveObject, ho], rfl, fun _ _ => rfl⟩
  | some o =>
    by_cases he : o.expired now
    · rw [hasObjectKey_of_objectGet (objectGet_of_expired ho he)] at hr
      cases hr
      refine ⟨by simp [LiveObject, ho, he], rfl, fun x hx => ?_⟩
      rw [GoMap.lookup_erase_eq, if_neg hx]
    · rw [hasObjectKey_of_objectGet (objectGet_of_live ho he)] at hr
      cases hr
      exact ⟨by simp [LiveObject, ho, he], rfl, fun _ _ => rfl⟩

/-- `cache.Exists(key) || hasObjectKey(key)` is true of the live keys, and looking at one key
leaves the others as they are. -/
lemma hasKey_live (L : E.toBackend.Indexed K Holds) (hk : k ∈ K) {b : Bool} (hr : hasKey E k now s = .ok (b, s')) :
    (b = true ↔ Live E s k now) ∧ ∀ x ∈ K, x ≠ k → (Live E s' x now ↔ Live E s x now) := by
  obtain ⟨⟨found, t⟩, h1, h2⟩ := Go.bind_eq_ok.1 hr
  obtain ⟨c, v, hget, rfl, rfl⟩ := cacheExists_eq_ok.1 h1
  have hoth : ∀ x ∈ K, x ≠ k →
      ((∃ c' w, E.get c x now = .ok (c', some w)) ↔ ∃ c' w, E.get s.shards x now = .ok (c', some w)) := by
    have hiff : ∀ d x, (∃ c' w, E.get d x now = .ok (c', some w)) ↔ ∃ w, (E.get d x now).map Prod.snd = .ok (some w) := by
      intro d x
      cases E.get d x now with
      | error e => simp [Except.map]
      | ok p =>
        obtain ⟨c', w⟩ := p
        simp [Except.map]
    intro x hx hne
    rw [hiff, hiff, L.get_other hk hget x hx hne]
  cases v with
  | some w =>
    cases h2
    exact ⟨by simp [Live, hget], fun x hx hne => or_congr (hoth x hx hne) Iff.rfl⟩
  | none =>
    obtain ⟨hb, hsh, hob⟩ := hasObjectKey_live h2
    refine ⟨?_, fun x hx hne => or_congr ?_ ?_⟩
    · rw [hb, Live, hget]
      simp [LiveObject]
    · rw [hsh]
      exact hoth x hx hne
    · unfold LiveObject
      rw [hob x hne]

lemma keepLive_eq (L : E.toBackend.Indexed K Holds) (keys result : List Bytes)
    (hk : ∀ k ∈ keys, k ∈ K) (hnd : keys.Nodup) {l : List Bytes}
    (hr : keepLive E 0 now keys result s = .ok (l, s')) :
    ∃ live, l = result ++ live ∧ live.Sublist keys ∧ ∀ k ∈ keys, k ∈ live ↔ Live E s k now := by
  induction keys generalizing result s with
  | nil =>
    cases hr
    exact ⟨[], by simp, .refl _, by simp⟩
  | cons key keys ih =>
    obtain ⟨⟨b, t⟩, h1, h2⟩ := Go.bind_eq_ok.1 hr
    obtain ⟨hb, hoth⟩ := hasKey_live L (hk key List.mem_cons_self) h1
    obtain ⟨hnot, hnd'⟩ := List.nodup_cons.1 hnd
    have hk' : ∀ k ∈ keys, k ∈ K := fun k hm => hk k (List.mem_cons_of_mem _ hm)
    have hsame : ∀ k ∈ keys, (Live E t k now ↔ Live E s k now) := fun k hm =>
      hoth k (hk' k hm) fun he => hnot (he ▸ hm)
    dsimp only at h2
    split at h2
    · rename_i hbt
      obtain ⟨live, rfl, hsub, hlive⟩ := ih (result ++ [key]) hk' hnd' h2
      refine ⟨key :: live, by simp, hsub.cons_cons key, fun k hm => ?_⟩
      rcases List.mem_cons.1 hm with rfl | hm
      · simp [hb.1 hbt]
      · have hne : k ≠ key := fun he => hnot (he ▸ hm)
        rw [List.mem_cons, ← hsame k hm, ← hlive k hm]
        simp [hne]
    · rename_i hbf
      obtain ⟨live, rfl, hsub, hlive⟩ := ih result hk' hnd' h2
      refine ⟨live, rfl, hsub.cons key, fun k hm => ?_⟩
      rcases List.mem_cons.1 hm with rfl | hm
      · exact ⟨fun hin => absurd (hsub.subset hin) hnot, fun hl => absurd (hb.2 hl) hbf⟩
      · rw [hlive k hm, hsame k hm]

end Live

/-! ## A complete index -/

section Exact

variable {σ : Type} {K : Set Bytes} {Holds : σ → Bytes → Prop} {E : Engine σ}
  {slotFunc : Bytes → UInt16} {s : Store σ} {now : Int}

section

variable (hc : Complete K Holds slotFunc ∅ s) (L : E.toBackend.Indexed K Holds)
include hc L

lemma Complete.of_live {k : Bytes} (hk : k ∈ K) (hl : Live E s k now) : k ∈ s.listed (slotFunc k) := by
  refine hc.tracked k hk (Set.notMem_empty k) ?_
  rcases hl with ⟨c, v, h⟩ | ⟨o, h, -⟩
  · exact .inl (L.get_some h)
  · exact .inr (Finmap.mem_of_lookup_eq_some h)

lemma Complete.keysInSlot {slot : UInt16} {l : List Bytes} {s' : Store σ} (hr : keysInSlot E slot 0 now s = .ok (l, s')) :
    l.Nodup ∧ ∀ k, k ∈ l ↔ k ∈ K ∧ slotFunc k = slot ∧ Live E s k now := by
  have hmem : ∀ k, k ∈ (s.listed slot).sort (· ≤ ·) ↔ k ∈ s.listed slot := fun k =>
    Finset.mem_sort _
  have hin : ∀ k ∈ (s.listed slot).sort (· ≤ ·), k ∈ K := fun k hk =>
    (hc.slots slot k ((hmem k).1 hk)).2
  have hnd := Finset.sort_nodup (s.listed slot) (· ≤ ·)
  obtain ⟨live, rfl, hsub, hlive⟩ := keepLive_eq L _ [] hin hnd hr
  refine ⟨hnd.sublist hsub, fun k => ⟨fun hk => ?_, fun ⟨hk, hs, hl⟩ => ?_⟩⟩
  · have hk' := hsub.subset hk
    exact ⟨hin k hk', (hc.slots slot k ((hmem k).1 hk')).1, (hlive k hk').1 hk⟩
  · have hlst := (hmem k).2 (hs ▸ hc.of_live L hk hl)
    exact (hlive k hlst).2 hl

end

lemma new_complete {c : σ} (h : ∀ k, ¬ Holds c k) : Complete K Holds slotFunc ∅ (new c) where
  tracked k _ _ hp := by
    rcases hp with hp | hp
    · exact absurd hp (h k)
    · exact absurd hp Finmap.notMem_empty
  slots slot k hk := by
    change k ∈ ((∅ : GoMap UInt16 (Finset Bytes)).lookup slot).getD ∅ at hk
    simp at hk

/-- Where reads of the cache return, so does `KeysInSlot`. -/
lemma keysInSlot_total (hget : ∀ c k, ∃ r, E.get c k now = .ok r) (slot : UInt16) (count : ℕ)
    (s : Store σ) : ∃ l s', keysInSlot E slot count now s = .ok (l, s') := by
  have hobj : ∀ k (t : Store σ), ∃ b t', hasObjectKey k now t = .ok (b, t') := by
    intro k t
    cases ho : t.objects.lookup k with
    | none => exact ⟨_, _, hasObjectKey_of_objectGet (objectGet_of_none ho)⟩
    | some o =>
      by_cases he : o.expired now
      · exact ⟨_, _, hasObjectKey_of_objectGet (objectGet_of_expired ho he)⟩
      · exact ⟨_, _, hasObjectKey_of_objectGet (objectGet_of_live ho he)⟩
  have hkey : ∀ k (t : Store σ), ∃ b t', hasKey E k now t = .ok (b, t') := by
    intro k t
    obtain ⟨⟨c, v⟩, hr⟩ := hget t.shards k
    have hex := cacheExists_eq_ok.2 ⟨c, v, hr, rfl, rfl⟩
    cases v with
    | some v => exact ⟨_, _, Go.bind_eq_ok.2 ⟨_, hex, rfl⟩⟩
    | none =>
      obtain ⟨b, t', hb⟩ := hobj k { t with shards := c }
      exact ⟨b, t', Go.bind_eq_ok.2 ⟨_, hex, hb⟩⟩
  have hloop : ∀ keys result (t : Store σ), ∃ l t', keepLive E count now keys result t = .ok (l, t') := by
    intro keys
    induction keys with
    | nil => exact fun result t => ⟨_, _, rfl⟩
    | cons key keys ih =>
      intro result t
      unfold keepLive
      split
      · exact ⟨_, _, rfl⟩
      obtain ⟨b, t', hb⟩ := hkey key t
      cases b with
      | true =>
        obtain ⟨l, u, hu⟩ := ih (result ++ [key]) t'
        exact ⟨l, u, Go.bind_eq_ok.2 ⟨_, hb, hu⟩⟩
      | false =>
        obtain ⟨l, u, hu⟩ := ih result t'
        exact ⟨l, u, Go.bind_eq_ok.2 ⟨_, hb, hu⟩⟩
  exact hloop _ [] s

end Exact

/-! ## Runs -/

/-- A store over the shards of the source, with a slot function. -/
def shardedEngine (cfg : CacheConfig) (shardCount : UInt64) (slotFunc : Bytes → UInt16)
    (unmarshal : ValueType → Bytes → Except String TypedValue) : Engine Shards :=
  { shardedBackend cfg shardCount with slotFunc := some slotFunc, unmarshal }

/-- **The slot index over whole runs.** Let no two of the keys in `K` share a hash, and let a run
of calls on keys in `K` take no half of a key with two copies. Then every live key is listed under
its slot, and `KeysInSlot` returns exactly the live keys of a slot, each once. -/
theorem slotIndex_complete (cfg : CacheConfig) (shardCount : UInt64) (ringSize : Int64)
    (slotFunc : Bytes → UInt16) (unmarshal : ValueType → Bytes → Except String TypedValue)
    (K : Set Bytes) (hK : Set.InjOn cfg.hash K) (ops : List StoreOp)
    (hkeys : ∀ op ∈ ops, ∀ k ∈ op.keys, k ∈ K)
    (h : Runs.Along (step (shardedEngine cfg shardCount slotFunc unmarshal))
      (TakesNoHalf (Holds cfg shardCount) (shardedEngine cfg shardCount slotFunc unmarshal))
      (new (newShards ringSize)) ops)
    (s : Store Shards) (hr : Runs.run (step (shardedEngine cfg shardCount slotFunc unmarshal))
      (new (newShards ringSize)) ops = .ok s) (now : Int) :
    (∀ k ∈ K, Live (shardedEngine cfg shardCount slotFunc unmarshal) s k now →
      k ∈ s.listed (slotFunc k)) ∧
    ∀ slot, (cfg.skipLFU = true → ∃ l s', keysInSlot
        (shardedEngine cfg shardCount slotFunc unmarshal) slot 0 now s = .ok (l, s')) ∧
      ∀ l s', keysInSlot (shardedEngine cfg shardCount slotFunc unmarshal) slot 0 now s =
        .ok (l, s') → l.Nodup ∧ ∀ k, k ∈ l ↔ k ∈ K ∧ slotFunc k = slot ∧
          Live (shardedEngine cfg shardCount slotFunc unmarshal) s k now := by
  set E := shardedEngine cfg shardCount slotFunc unmarshal with hE
  have L : E.toBackend.Indexed K (Holds cfg shardCount) := shardedBackend_indexed hK
  have hnew : Complete K (Holds cfg shardCount) slotFunc ∅ (new (newShards ringSize)) :=
    new_complete fun k hk => Finmap.notMem_empty hk
  have hstep : ∀ s op, Complete K (Holds cfg shardCount) slotFunc ∅ s →
      ((∀ k ∈ op.keys, k ∈ K) ∧ TakesNoHalf (Holds cfg shardCount) E s op) →
      (∃ s', step E s op = .ok s' ∧ Complete K (Holds cfg shardCount) slotFunc ∅ s') ∨
        ∃ e, step E s op = .error e ∧ True := by
    intro s op hc hop
    cases hs : step E s op with
    | error e => exact .inr ⟨e, rfl, trivial⟩
    | ok s' =>
      obtain ⟨⟨u, t⟩, h1, h2⟩ := Go.bind_eq_ok.1 hs
      cases h2
      exact .inl ⟨_, rfl, Indexing.run_complete ⟨K, _, slotFunc, rfl, L⟩ op hop.1 s u _ ⟨hc, hop.2⟩ h1⟩
  have hc : Complete K (Holds cfg shardCount) slotFunc ∅ s := by
    rcases Runs.run_guarded hstep hnew (h.and_forall hkeys) with ⟨s', hs', hc⟩ | ⟨e, he, -⟩
    · rw [hr] at hs'
      cases hs'
      exact hc
    · rw [hr] at he
      cases he
  refine ⟨fun k hk hl => hc.of_live L hk hl, fun slot => ⟨fun hlfu => ?_, fun l s' hl => ?_⟩⟩
  · refine keysInSlot_total (fun c k => ?_) slot 0 s
    obtain ⟨r, hr⟩ := @Shard.get_total cfg (c (shardOf cfg shardCount k)) hlfu k now
    have hon : c.on cfg shardCount k (fun sh => sh.getCopy cfg k now) =
        .ok (Function.update c (shardOf cfg shardCount k) r.1, r.2) := on_eq_ok.2 ⟨r.1, hr, rfl⟩
    exact ⟨_, hon⟩
  · exact hc.keysInSlot L hl

/-- A store of one shard and one slot, whose keys hash to their first byte. -/
def oneSlot : Engine Shards := shardedEngine firstByte 1 (fun _ => 0) fun _ _ => .error ""

theorem slotIndex_complete_pair :
    ∃ s, Runs.run (step oneSlot) (new (newShards 0))
        [.hset [1] [[2], [3]] 0, .set [4] [5, 6] 0 0, .getSet [4] [7] 0] = .ok s ∧
      ∀ l s', keysInSlot oneSlot 0 0 0 s = .ok (l, s') → [4] ∈ l ∧ [1] ∈ l := by
  have hK : Set.InjOn firstByte.hash {[1], [4]} := by
    rintro x (rfl | rfl) y (rfl | rfl) h <;> first | rfl | exact absurd h (by decide)
  refine ⟨_, rfl, fun l s' hl => ?_⟩
  have h := ((slotIndex_complete firstByte 1 0 (fun _ => 0) (fun _ _ => .error "") {[1], [4]} hK
    [.hset [1] [[2], [3]] 0, .set [4] [5, 6] 0 0, .getSet [4] [7] 0]
    (by simp [StoreOp.keys])
    ⟨trivial, fun s1 h1 => ⟨trivial, fun s2 h2 => ⟨?_, fun _ _ => trivial⟩⟩⟩ _ rfl 0).2 0).2 l s' hl
  · refine ⟨(h.2 [4]).2 ⟨by simp, rfl, .inl ⟨_, [7], rfl⟩⟩, (h.2 [1]).2 ⟨by simp, rfl, .inr ?_⟩⟩
    exact ⟨⟨.hash (some (Finmap.singleton [2] [3])), 0⟩, rfl, by decide⟩
  · cases h1
    cases h2
    rintro ⟨c, v, -, -, -, hm⟩
    exact absurd hm (by decide)

/-- **A live key that no slot lists.** The string overlays a collection; `GetSet` removes the
collection and with it the key from the index, and its write in place does not put it back. -/
theorem getSet_unlists :
    ∃ s, Runs.run (step oneSlot) (new (newShards 0))
        [.hset [1] [[2], [3]] 0, .set [1] [4, 5, 6] 0 0, .getSet [1] [7] 0] = .ok s ∧
      Live oneSlot s [1] 0 ∧ [1] ∉ s.listed 0 :=
  ⟨_, rfl, .inl ⟨_, [7], rfl⟩, by decide⟩

end AutoCache.Store
