import AutoCache.Lib.Runs
import AutoCache.Store.Indexed
import AutoCache.Store.Reads

/-!
# The slot index over a run

A key is *present* when the shards hold it or the dictionary has it, and the index is complete
when every key that is present is in the set of its slot. The calls that take a copy of a key away
also take the key out of the index, whether or not the other copy stays; so the index stays
complete as long as no call takes one of two copies (`Store.TakesNoHalf`).
-/

namespace AutoCache.Store

open Hoare Hoare.Keeps Finmap List

section Complete

variable {σ : Type} (K : Set Bytes) (Holds : σ → Bytes → Prop) (slotFunc : Bytes → UInt16)

def listed (s : Store σ) (slot : UInt16) : Finset Bytes := (s.slotIndex.lookup slot).getD ∅

def Present (s : Store σ) (k : Bytes) : Prop := Holds s.shards k ∨ k ∈ s.objects

def Overlap (s : Store σ) (k : Bytes) : Prop := Holds s.shards k ∧ k ∈ s.objects

/-- **A complete index**, but for the keys in `ex`; it lists every key under its own slot. -/
structure Complete (ex : Set Bytes) (s : Store σ) : Prop where
  tracked : ∀ k ∈ K, k ∉ ex → Present Holds s k → k ∈ s.listed (slotFunc k)
  slots : ∀ slot, ∀ k ∈ s.listed slot, slotFunc k = slot ∧ k ∈ K

/-- Nothing is added to the shards or to the dictionary. -/
structure Loses (s s' : Store σ) : Prop where
  shards : ∀ k ∈ K, Holds s'.shards k → Holds s.shards k
  objects : ∀ k o, s'.objects.lookup k = some o → s.objects.lookup k = some o

/-- A read: nothing is added, and the index stays. -/
structure Shrinks (s s' : Store σ) : Prop extends Loses K Holds s s' where
  slotIndex : s'.slotIndex = s.slotIndex

variable {K Holds slotFunc} {s s' s'' : Store σ} {ex : Set Bytes} {k : Bytes}

lemma Loses.refl (s : Store σ) : Loses K Holds s s := ⟨fun _ _ h => h, fun _ _ h => h⟩

section

variable (h : Loses K Holds s s')
include h

lemma Loses.trans (h' : Loses K Holds s' s'') : Loses K Holds s s'' :=
  ⟨fun k hk hh => h.shards k hk (h'.shards k hk hh), fun k o ho => h.objects k o (h'.objects k o ho)⟩

lemma Loses.mem (hm : k ∈ s'.objects) : k ∈ s.objects := by
  obtain ⟨o, ho⟩ := mem_iff.1 hm
  exact mem_of_lookup_eq_some (h.objects k o ho)

lemma Loses.present (hk : k ∈ K) (hp : Present Holds s' k) : Present Holds s k :=
  hp.imp (h.shards k hk) h.mem

lemma Loses.not_overlap (hk : k ∈ K) (hn : ¬ Overlap Holds s k) : ¬ Overlap Holds s' k :=
  fun ho => hn ⟨h.shards k hk ho.1, h.mem ho.2⟩

end

lemma Shrinks.refl (s : Store σ) : Shrinks K Holds s s := ⟨.refl s, rfl⟩

lemma Shrinks.trans (h : Shrinks K Holds s s') (h' : Shrinks K Holds s' s'') : Shrinks K Holds s s'' :=
  ⟨h.toLoses.trans h'.toLoses, h'.slotIndex.trans h.slotIndex⟩

lemma Shrinks.listed (h : Shrinks K Holds s s') (slot : UInt16) : s'.listed slot = s.listed slot := by
  unfold Store.listed
  rw [h.slotIndex]

lemma Complete.shrink (hc : Complete K Holds slotFunc ex s) (h : Shrinks K Holds s s') : Complete K Holds slotFunc ex s' where
  tracked k hk hex hp := by
    rw [h.listed]
    exact hc.tracked k hk hex (h.present hk hp)
  slots slot k hm := by
    rw [h.listed] at hm
    exact hc.slots slot k hm

lemma Complete.mono {ex' : Set Bytes} (hc : Complete K Holds slotFunc ex s) (h : ex ⊆ ex') :
    Complete K Holds slotFunc ex' s :=
  ⟨fun k hk hex hp => hc.tracked k hk (fun hm => hex (h hm)) hp, hc.slots⟩

lemma Complete.of_not_present (hc : Complete K Holds slotFunc {k} s)
    (hn : ¬ Present Holds s k) : Complete K Holds slotFunc ∅ s where
  tracked x hx _ hp := by
    refine hc.tracked x hx (fun he => ?_) hp
    subst he
    exact hn hp
  slots := hc.slots

end Complete

/-! ## What a call may take away -/

section Halves

variable {σ : Type} (Holds : σ → Bytes → Prop) (E : Engine σ)

def LiveObject (s : Store σ) (k : Bytes) (now : Int) : Prop :=
  ∃ o, s.objects.lookup k = some o ∧ ¬ o.expired now

/-- The shards hold the key and the dictionary has it, also after the read of the cache with which
the call begins; `found` tells whether that read finds a string. -/
def OverlapOnGet (s : Store σ) (k : Bytes) (now : Int) (found : Bool) : Prop :=
  ∃ c v, E.get s.shards k now = .ok (c, v) ∧ v.isSome = found ∧ Holds c k ∧ k ∈ s.objects

/-- The active expiry deletes the string copy of the key when it samples it. -/
def DueString (s : Store σ) (k : Bytes) (now : Int) : Prop :=
  ∃ d, E.ttl s.shards k now = .ok (some d) ∧ d ≠ -1 ∧ d ≤ 0

/-- The active expiry deletes the object copy of the key when it samples it. -/
def DueObject (s : Store σ) (k : Bytes) (now : Int) : Prop :=
  ∃ o, s.objects.lookup k = some o ∧ ¬ o.expired now ∧ o.expireAt ≠ 0 ∧
    wrap64 (o.expireAt - now) = 0

/-- **The call takes no copy of a key away while the other one stays.** `GetSet`, `Append` and
`SetXX` take the object copy of their key, `HDEL`, `LPOP`, `LTRIM`, `SREM` and `ZREM` the one of a
collection they empty, `Rename` takes a string or an object, and the active expiry what is due. -/
def TakesNoHalf (s : Store σ) : StoreOp → Prop
  | .getSet k _ now => ¬ OverlapOnGet Holds E s k now true
  | .append k _ now => ¬ OverlapOnGet Holds E s k now true
  | .setXX k _ _ now => ¬ (Holds s.shards k ∧ LiveObject s k now)
  | .rename k newkey now => k ≠ newkey →
      (∀ found, ¬ OverlapOnGet Holds E s k now found) ∧
      ∀ c v, E.get s.shards k now = .ok (c, some v) → ¬ Overlap Holds s newkey
  | .hdel k _ now | .popList k _ now | .ltrim k _ _ now | .srem k _ now | .zrem k _ now =>
      ¬ OverlapOnGet Holds E s k now false
  | .activeExpireCycle cacheSamples objectSamples now =>
      (∀ k ∈ cacheSamples.flatten, DueString E s k now → k ∉ s.objects) ∧
      ∀ k ∈ objectSamples.flatten, DueObject s k now → ¬ Holds s.shards k
  | _ => True

end Halves

section Track

variable {σ : Type} {slotFunc : Bytes → UInt16} {E : Engine σ}

lemma trackKey_eq (hslot : E.slotFunc = some slotFunc) (k : Bytes) (s : Store σ) :
    ∃ s', trackKey E k s = .ok ((), s') ∧ s'.shards = s.shards ∧ s'.objects = s.objects ∧
      ∀ slot, s'.listed slot = if slot = slotFunc k then insert k (s.listed slot) else s.listed slot := by
  unfold trackKey
  rw [hslot]
  refine ⟨_, rfl, rfl, rfl, fun slot => ?_⟩
  simp only [listed, GoMap.lookup_insert_eq]
  split
  · rename_i h
    rw [h]
    rfl
  · rfl

lemma untrackKey_eq (hslot : E.slotFunc = some slotFunc) (k : Bytes) (s : Store σ) :
    ∃ s', untrackKey E k s = .ok ((), s') ∧ s'.shards = s.shards ∧ s'.objects = s.objects ∧
      ∀ slot, s'.listed slot = if slot = slotFunc k then (s.listed slot).erase k else s.listed slot := by
  unfold untrackKey
  rw [hslot]
  dsimp only
  split
  · rename_i h
    refine ⟨_, rfl, rfl, rfl, fun slot => ?_⟩
    split
    · rename_i hs
      subst hs
      simp [listed, h]
    · rfl
  · rename_i keys h
    split
    · rename_i he
      refine ⟨_, rfl, rfl, rfl, fun slot => ?_⟩
      simp only [listed, GoMap.lookup_erase_eq]
      split
      · rename_i hs
        subst hs
        rw [h]
        exact he.symm
      · rfl
    · refine ⟨_, rfl, rfl, rfl, fun slot => ?_⟩
      simp only [listed, GoMap.lookup_insert_eq]
      split
      · rename_i hs
        subst hs
        rw [h]
        rfl
      · rfl

end Track

/-! ## The calls of an indexed store -/

/-- An engine with a slot function, and what its shards hold of the keys in `K`. -/
structure Indexing {σ : Type} (E : Engine σ) where
  K : Set Bytes
  Holds : σ → Bytes → Prop
  slotFunc : Bytes → UInt16
  hslot : E.slotFunc = some slotFunc
  backend : E.toBackend.Indexed K Holds

namespace Indexing

section Reads

variable {σ α : Type} {E : Engine σ} (I : Indexing E)

/-- The index is complete, but for the keys in `ex`. -/
abbrev Complete (ex : Set Bytes) : Store σ → Prop := Store.Complete I.K I.Holds I.slotFunc ex

/-- The index is complete, and the key has at most one copy. -/
abbrev Single (k : Bytes) (s : Store σ) : Prop := I.Complete ∅ s ∧ ¬ Overlap I.Holds s k

/-- The index is complete, and the read with which a call begins leaves at most one copy. -/
abbrev SingleOnGet (k : Bytes) (now : Int) (found : Bool) (s : Store σ) : Prop :=
  I.Complete ∅ s ∧ ¬ OverlapOnGet I.Holds E s k now found

/-- What a read keeps. -/
def Stable (P : Store σ → Prop) : Prop := ∀ s s', Shrinks I.K I.Holds s s' → P s → P s'

variable {I} {P : Store σ → Prop}

lemma stable_complete (ex : Set Bytes) : I.Stable (I.Complete ex) := fun _ _ h hc => hc.shrink h

namespace Stable

section

variable (hP : I.Stable P)
include hP

lemma onShards {call : σ → Go (σ × α)} (h : ∀ c c' a, call c = .ok (c', a) → ∀ k ∈ I.K, I.Holds c' k → I.Holds c k) :
    Keeps P (onShards call) := by
  refine ⟨fun s a s' hs hr => ?_⟩
  obtain ⟨⟨c', a'⟩, hc, hr⟩ := Go.bind_eq_ok.1 hr
  cases hr
  exact hP _ _ ⟨⟨h _ _ _ hc, fun _ _ ho => ho⟩, rfl⟩ hs

section

variable (key : Bytes) (now : Int)
include key now

lemma cacheGet : Keeps P (cacheGet E key now) :=
  hP.onShards fun _ _ _ h => I.backend.get h

lemma cacheTTL : Keeps P (cacheTTL E key now) := by
  refine hP.onShards fun c c' a h => ?_
  obtain ⟨d, -, hd⟩ := Go.bind_eq_ok.1 h
  cases hd
  exact fun _ _ hh => hh

lemma objectGet : Keeps P (objectGet key now : StoreM σ _) := by
  refine ⟨fun s a s' hs hr => ?_⟩
  rcases objectGet_cases key now s with h | ⟨o, -, -, h⟩ <;> cases h.symm.trans hr
  · exact hP s _ ⟨⟨fun _ _ h => h, fun _ _ => GoMap.lookup_of_erase⟩, rfl⟩ hs
  · exact hs

lemma ttlOrZero : Keeps P (ttlOrZero E key now) :=
  have := hP.cacheTTL
  have := hP.objectGet
  inferInstance

end

end

end Stable

instance (ex : Set Bytes) (key : Bytes) (now : Int) : Keeps (I.Complete ex) (cacheGet E key now) :=
  (stable_complete ex).cacheGet key now

instance (ex : Set Bytes) (key : Bytes) (now : Int) : Keeps (I.Complete ex) (cacheTTL E key now) :=
  (stable_complete ex).cacheTTL key now

instance (ex : Set Bytes) (key : Bytes) (now : Int) :
    Keeps (I.Complete ex) (objectGet key now : StoreM σ _) :=
  (stable_complete ex).objectGet key now

instance (key : Bytes) (ttl now : Int) : Keeps (I.Complete ∅) (cacheExpire E key ttl now) :=
  (stable_complete ∅).onShards fun _ _ _ h => I.backend.expire h

instance (key value : Bytes) (ttl now : Int) :
    Keeps (I.Complete ∅) (cacheSetXX E key value ttl now) :=
  (stable_complete ∅).onShards fun _ _ _ h => I.backend.setXX h

end Reads

/-! ## The slot index -/

section Track

variable {σ : Type} {E : Engine σ} {I : Indexing E} {k : Bytes}

lemma trackKey_complete (hk : k ∈ I.K) : Triple (I.Complete {k}) (trackKey E k) fun _ => I.Complete ∅ := by
  intro s a s' hc hr
  obtain ⟨t, ht, hsh, hob, hli⟩ := trackKey_eq I.hslot k s
  rw [ht] at hr
  cases hr
  constructor
  · intro x hx _ hp
    rw [hli]
    by_cases hxk : x = k
    · subst hxk
      rw [if_pos rfl]
      exact Finset.mem_insert_self _ _
    · have hm := hc.tracked x hx hxk (by rwa [Present, hsh, hob] at hp)
      split
      · exact Finset.mem_insert_of_mem hm
      · exact hm
  · intro slot x hx
    rw [hli] at hx
    split at hx
    · rename_i hs
      rcases Finset.mem_insert.1 hx with rfl | hx
      · exact ⟨hs.symm, hk⟩
      · exact hc.slots slot x hx
    · exact hc.slots slot x hx

lemma untrackKey_complete (k : Bytes) {P : Store σ → Prop}
    (hP : ∀ s s', s'.shards = s.shards → s'.objects = s.objects → P s → P s') :
    Keeps (fun s => I.Complete {k} s ∧ P s) (untrackKey E k) := by
  refine ⟨?_⟩
  rintro s a s' ⟨hc, hp⟩ hr
  obtain ⟨t, ht, hsh, hob, hli⟩ := untrackKey_eq I.hslot k s
  rw [ht] at hr
  cases hr
  refine ⟨⟨fun x hx hxk hpx => ?_, fun slot x hx => ?_⟩, hP s _ hsh hob hp⟩
  · have hm := hc.tracked x hx hxk (by rwa [Present, hsh, hob] at hpx)
    rw [hli]
    split
    · exact Finset.mem_erase_of_ne_of_mem hxk hm
    · exact hm
  · rw [hli] at hx
    split at hx
    · exact hc.slots slot x (Finset.mem_of_mem_erase hx)
    · exact hc.slots slot x hx

end Track

/-! ## Writes -/

section Writes

variable {σ α : Type} {E : Engine σ} {I : Indexing E} {k : Bytes} {ex : Set Bytes}

lemma put {s s' : Store σ} (hc : I.Complete ex s)
    (hsh : s'.shards = s.shards) (hob : ∀ x, x ∈ s'.objects → x ∈ s.objects ∨ x ∈ ex)
    (hidx : s'.slotIndex = s.slotIndex) : I.Complete ex s' := by
  have hli : ∀ slot, s'.listed slot = s.listed slot := fun slot => by rw [listed, hidx, listed]
  constructor
  · intro x hx hex hp
    rw [hli]
    refine hc.tracked x hx hex ?_
    rcases hp with hp | hp
    · exact .inl (hsh ▸ hp)
    · exact .inr ((hob x hp).resolve_right hex)
  · intro slot x hx
    rw [hli] at hx
    exact hc.slots slot x hx

lemma empty_le {s : Store σ} (hc : I.Complete ∅ s) : I.Complete ex s := hc.mono (Set.empty_subset _)

/-- The object at a key that is there is replaced. -/
lemma replace {s : Store σ} {o o' : Object} (hc : I.Complete ex s) (ho : s.objects.lookup k = some o) :
    I.Complete ex { s with objects := s.objects.insert k o' } := by
  refine put hc rfl (fun x hx => ?_) rfl
  rcases mem_insert.1 hx with rfl | hx
  · exact .inl (mem_of_lookup_eq_some ho)
  · exact .inl hx

instance objectSetEntry_complete (k : Bytes) (o : Object) :
    Keeps (I.Complete {k}) (objectSetEntry k o : StoreM σ _) := by
  refine ⟨fun s a s' hc hr => ?_⟩
  cases hr
  refine put hc rfl (fun x hx => ?_) rfl
  rcases mem_insert.1 hx with rfl | hx
  · exact .inr rfl
  · exact .inl hx

instance objectPut_complete (k : Bytes) (value : TypedValue) :
    Keeps (I.Complete ex) (objectPut k value : StoreM σ _) := by
  refine ⟨fun s a s' hc hr => ?_⟩
  unfold objectPut at hr
  split at hr
  · cases hr
    exact hc
  · rename_i o ho
    cases hr
    exact replace hc ho

instance (k : Bytes) (ttl now : Int) :
    Keeps (I.Complete ex) (objectExpire k ttl now : StoreM σ _) := by
  refine ⟨fun s a s' hc hr => ?_⟩
  unfold objectExpire at hr
  split at hr
  · cases hr
    exact hc
  · rename_i o ho
    split at hr
    · cases hr
      exact hc
    · cases hr
      exact replace hc ho

/-- A call to the shards that adds at most the key `k`, and only when `added` tells so. -/
lemma onShards_complete {call : σ → Go (σ × α)} {added : α → Prop} [DecidablePred added]
    (h : ∀ c c' a, call c = .ok (c', a) → ∀ x ∈ I.K, I.Holds c' x → I.Holds c x ∨ (x = k ∧ added a)) :
    Triple (I.Complete ∅) (onShards call) fun a => I.Complete (if added a then {k} else ∅) := by
  intro s a s' hc hr
  obtain ⟨⟨c', a'⟩, hcall, hr⟩ := Go.bind_eq_ok.1 hr
  cases hr
  refine ⟨fun x hx hex hp => ?_, hc.slots⟩
  refine hc.tracked x hx (fun he => he) ?_
  rcases hp with hp | hp
  · rcases h _ _ _ hcall x hx hp with hp | ⟨rfl, ha⟩
    · exact .inl hp
    · rw [if_pos ha] at hex
      exact absurd rfl hex
  · exact .inr hp

lemma trackAppended_complete (hk : k ∈ I.K) (o : WriteOutcome) :
    Triple (I.Complete (if o = .appended then {k} else ∅)) (trackAppended E k o) fun _ =>
      I.Complete ∅ := by
  unfold trackAppended
  split
  · exact after (trackKey_complete hk)
  · exact triple

instance newCollection_complete [hk : Fact (k ∈ I.K)] (value : TypedValue) (now : Int) :
    Keeps (I.Complete ∅) (newCollection E k value now) :=
  ⟨((objectSetEntry_complete k _).triple.bind fun _ => trackKey_complete hk.out).pre fun _ => empty_le⟩

/-- The object copy of a key goes. When the shards do not hold the key, it is not present. -/
lemma deleteObjectKey_clears (k : Bytes) : Triple (fun s => I.Complete {k} s ∧ ¬ I.Holds s.shards k) (deleteObjectKey E k)
      fun _ s => I.Complete ∅ s ∧ ¬ Present I.Holds s k := by
  -- after the delete the dictionary does not have the key
  refine Triple.bind (Q := fun _ s => I.Complete {k} s ∧ (¬ I.Holds s.shards k ∧ k ∉ s.objects)) ?_ fun b => ?_
  · rintro s b s' ⟨hc, hn⟩ hr
    cases (objectDel_run k s).symm.trans hr
    refine ⟨put hc rfl (fun x hx => .inl (mem_erase.1 hx).2) rfl, hn, ?_⟩
    exact fun hm => (mem_erase.1 hm).1 rfl
  · have hdone : ∀ s : Store σ, I.Complete {k} s ∧ (¬ I.Holds s.shards k ∧ k ∉ s.objects) →
        I.Complete ∅ s ∧ ¬ Present I.Holds s k :=
      fun s ⟨hc, hn, hm⟩ => ⟨hc.of_not_present (not_or.2 ⟨hn, hm⟩), not_or.2 ⟨hn, hm⟩⟩
    split
    · refine (untrackKey_complete k fun s s' hsh hob hp => ?_).triple.bind fun _ => .pure hdone
      rwa [hsh, hob]
    · exact .pure hdone

/-- The object copy of a key goes that has only one copy. -/
lemma deleteObjectKey_complete (k : Bytes) : Triple (I.Single k) (deleteObjectKey E k) fun _ => I.Complete ∅ := by
  rintro s b s' ⟨hc, hn⟩ hr
  by_cases hm : k ∈ s.objects
  · exact (deleteObjectKey_clears k s b s' ⟨empty_le hc, fun hh => hn ⟨hh, hm⟩⟩ hr).1
  · have hs : deleteObjectKey E k s = .ok (false, s) := by
      change (objectDel k s >>= fun p => _) = _
      rw [objectDel, if_neg hm]
      rfl
    rw [hs] at hr
    cases hr
    exact hc

lemma removeObjectKey_complete (k : Bytes) : Triple (I.Single k) (removeObjectKey E k) fun _ => I.Complete ∅ :=
  after (deleteObjectKey_complete k)

lemma putOrDelete_complete (k : Bytes) (empty : Bool) (value : TypedValue) :
    Triple (I.Single k) (putOrDelete E k empty value) fun _ => I.Complete ∅ := by
  unfold putOrDelete
  split
  · exact after (deleteObjectKey_complete k)
  · exact triple.pre fun _ h => h.1

instance cacheSet_complete [hk : Fact (k ∈ I.K)] (value : Bytes) (ttl now : Int) :
    Keeps (I.Complete ∅) (cacheSet E k value ttl now) :=
  ⟨(onShards_complete fun _ _ _ h => I.backend.set hk.out h).bind (trackAppended_complete hk.out)⟩

instance cacheSetNX_complete [hk : Fact (k ∈ I.K)] (value : Bytes) (ttl now : Int) :
    Keeps (I.Complete ∅) (cacheSetNX E k value ttl now) :=
  ⟨(onShards_complete fun _ _ _ h => I.backend.setNX hk.out h).bind (trackAppended_complete hk.out)⟩

instance cacheIncrBy_complete [hk : Fact (k ∈ I.K)] (delta now : Int) :
    Keeps (I.Complete ∅) (cacheIncrBy E k delta now) := by
  classical
  refine ⟨(onShards_complete fun _ _ _ h => I.backend.incrBy hk.out h).bind fun o => ?_⟩
  split
  · rename_i h
    obtain ⟨n, rfl⟩ := h
    exact after (trackKey_complete hk.out)
  · rename_i hno
    split
    · exact absurd ⟨_, rfl⟩ hno
    · exact triple

lemma cacheDelete_clears (hk : k ∈ I.K) :
    Triple (I.Complete {k}) (cacheDelete E k) fun _ s => I.Complete {k} s ∧ ¬ I.Holds s.shards k := by
  refine Triple.bind (Q := fun _ s => I.Complete {k} s ∧ ¬ I.Holds s.shards k) ?_ fun b => ?_
  · intro s b s' hc hr
    cases hr
    refine ⟨⟨fun x hx hex hp => hc.tracked x hx hex ?_, hc.slots⟩, ?_⟩
    · exact hp.imp_left fun hh => ((I.backend.delete hk x hx).1 hh).2
    · exact fun hh => ((I.backend.delete hk k hk).1 hh).1 rfl
  · split
    · have := @untrackKey_complete σ E I k (fun s => ¬ I.Holds s.shards k) fun s s' hsh _ hp => by
        rwa [hsh]
      exact triple
    · exact triple

lemma bothDeleted (hk : k ∈ I.K) {f : Bool → Bool → StoreM σ α} {Q : α → Store σ → Prop}
    (h : ∀ a b, Triple (fun s => I.Complete ∅ s ∧ ¬ Present I.Holds s k) (f a b) Q) :
    Triple (I.Complete ∅) (do
      let a ← cacheDelete E k
      let b ← deleteObjectKey E k
      f a b) Q :=
  ((cacheDelete_clears hk).pre fun _ => empty_le).bind fun a =>
    (deleteObjectKey_clears k).bind fun b => h a b

instance delKey_complete [hk : Fact (k ∈ I.K)] : Keeps (I.Complete ∅) (delKey E k) :=
  ⟨bothDeleted hk.out fun _ _ => .pure fun _ h => h.1⟩

end Writes

/-! ## Calls -/

section Calls

variable {σ α : Type} {E : Engine σ} {I : Indexing E} {k : Bytes} {P : Store σ → Prop}

/-- After a lookup in the dictionary the key is there, unexpired, or not at all. -/
lemma objectGet_found (hP : I.Stable P) (k : Bytes) (now : Int) : Triple P (objectGet k now : StoreM σ _) fun o s =>
      P s ∧ (∀ o', o = some o' → s.objects.lookup k = some o' ∧ ¬ o'.expired now) ∧ (o = none → k ∉ s.objects) := by
  intro s o s' hp hr
  refine ⟨(hP.objectGet k now).triple s o s' hp hr, ?_⟩
  rcases objectGet_cases k now s with h | ⟨o', ho, hexp, h⟩ <;> cases h.symm.trans hr
  · exact ⟨by simp, fun _ => notMem_erase_self⟩
  · refine ⟨fun o'' he => ?_, by simp⟩
    cases he
    exact ⟨ho, hexp⟩

lemma hasObjectKey_found (hP : I.Stable P) (k : Bytes) (now : Int) : Triple P (hasObjectKey k now : StoreM σ _) fun b s =>
      P s ∧ (b = true → LiveObject s k now) ∧ (b = false → k ∉ s.objects) := by
  have hv : Triple P (getObjectValue k now : StoreM σ _) fun v s =>
      P s ∧ (v.isSome = true → LiveObject s k now) ∧ (v.isSome = false → k ∉ s.objects) := by
    refine (objectGet_found hP k now).bind fun o => .pure fun s h => ⟨h.1, fun ho => ?_, fun ho => ?_⟩
    · rw [Option.isSome_map] at ho
      obtain ⟨o', rfl⟩ := Option.isSome_iff_exists.1 ho
      exact ⟨o', h.2.1 o' rfl⟩
    · rw [Option.isSome_map, Option.isSome_eq_false_iff, Option.isNone_iff_eq_none] at ho
      exact h.2.2 ho
  exact hv.bind fun v => .pure fun s h => h

lemma hasObjectKey_overlap (hk : k ∈ I.K) (now : Int) :
    Triple (fun s => I.Complete ∅ s ∧ ¬ (I.Holds s.shards k ∧ LiveObject s k now))
      (hasObjectKey k now : StoreM σ _) fun b s =>
      I.Complete ∅ s ∧ (b = true → ¬ Overlap I.Holds s k) := by
  have hP : I.Stable fun s => I.Complete ∅ s ∧ ¬ (I.Holds s.shards k ∧ LiveObject s k now) := by
    intro s s' h hp
    refine ⟨hp.1.shrink h, fun ⟨hh, o, ho, hexp⟩ => hp.2 ⟨h.shards k hk hh, o, ?_, hexp⟩⟩
    exact h.objects k o ho
  refine (hasObjectKey_found hP k now).conseq (fun _ h => h) fun b s h => ?_
  exact ⟨h.1.1, fun hb ho => h.1.2 ⟨ho.1, h.2.1 hb⟩⟩

/-- The test of `GetSet` and `Append`: afterwards the object copy is the only one, or there is
none. -/
lemma holdsOther_overlap (k : Bytes) (current : Option Bytes) (now : Int) :
    Triple (fun s => I.Complete ∅ s ∧ (current.isSome = true → ¬ Overlap I.Holds s k))
      (holdsOther current k now : StoreM σ _) fun b s =>
      I.Complete ∅ s ∧ (b = false → ¬ Overlap I.Holds s k) := by
  cases current with
  | some v => exact .pure fun s h => ⟨h.1, fun _ => h.2 rfl⟩
  | none =>
    refine (hasObjectKey_found (stable_complete ∅) k now).conseq (fun _ h => h.1) fun b s h => ?_
    exact ⟨h.1, fun hb ho => h.2.2 hb ho.2⟩

lemma cacheGet_overlap (k : Bytes) (now : Int) (found : Bool) :
    Triple (I.SingleOnGet k now found) (cacheGet E k now) fun v s =>
      I.Complete ∅ s ∧ (v.isSome = found → ¬ Overlap I.Holds s k) := by
  rintro s v s' ⟨hc, hn⟩ hr
  refine ⟨triple s v s' hc hr, fun hv ho => hn ?_⟩
  obtain ⟨⟨c, v'⟩, hget, h⟩ := Go.bind_eq_ok.1 hr
  cases h
  exact ⟨c, v, hget, hv, ho.1, ho.2⟩

lemma getCollection_overlap (hk : k ∈ I.K) (now : Int) : Triple (I.SingleOnGet k now false) (getCollection E k now) fun r s =>
      I.Complete ∅ s ∧ (∀ a, r = .ok a → ¬ Overlap I.Holds s k) := by
  have hex : Triple (I.SingleOnGet k now false) (cacheExists E k now) fun b s =>
      I.Complete ∅ s ∧ (b = false → ¬ Overlap I.Holds s k) :=
    (cacheGet_overlap k now false).bind fun v => .pure fun _ h => h
  refine hex.bind fun b => ?_
  have hP : I.Stable fun s => I.Complete ∅ s ∧ (b = false → ¬ Overlap I.Holds s k) :=
    fun s s' h hp => ⟨hp.1.shrink h, fun hb => h.not_overlap hk (hp.2 hb)⟩
  have := hP.objectGet
  split
  · exact .pure fun s h => ⟨h.1, by simp⟩
  · rename_i hb
    refine triple.bind fun v => ?_
    split
    · exact .pure fun s h => ⟨h.1, by simp⟩
    · exact .pure fun s h => ⟨h.1, fun _ _ => h.2 (by simpa using hb)⟩

lemma getTyped_overlap (hk : k ∈ I.K) (as : TypedValue → Option α) (now : Int) :
    Triple (I.SingleOnGet k now false) (getTyped E as k now) fun r s =>
      I.Complete ∅ s ∧ (∀ a, r = .ok a → ¬ Overlap I.Holds s k) := by
  refine (getCollection_overlap hk now).bind fun r => ?_
  split
  · exact .pure fun s h => ⟨h.1, by simp⟩
  · split
    · exact .pure fun s h => ⟨h.1, by simp⟩
    · exact .pure fun s h => ⟨h.1, fun _ _ => h.2 _ rfl⟩

section Strings

lemma setXX_complete (hk : k ∈ I.K) (value : Bytes) (ttl now : Int) :
    Triple (fun s => I.Complete ∅ s ∧ TakesNoHalf I.Holds E s (.setXX k value ttl now))
      (setXX E k value ttl now) fun _ => I.Complete ∅ := by
  have := Fact.mk hk
  refine (hasObjectKey_overlap hk now).bind fun b => ?_
  split
  · rename_i hb
    exact after ((removeObjectKey_complete k).pre fun s h => ⟨h.1, h.2 hb⟩)
  · exact triple.pre fun _ h => h.1

/-- The body of `GetSet` and `Append`: the string takes the place of the object. -/
lemma replaceObject_complete {β : Type} (hk : k ∈ I.K) (current : Option Bytes) (value : Bytes)
    (now : Int) (wrong : β) (r : WriteOutcome → β) :
    Triple (fun s => I.Complete ∅ s ∧ (current.isSome = true → ¬ Overlap I.Holds s k)) (do
        if ← holdsOther current k now then return wrong
        else
          removeObjectKey E k
          let outcome ← cacheSet E k value 0 now
          return r outcome) fun _ => I.Complete ∅ := by
  have := Fact.mk hk
  refine (holdsOther_overlap k current now).bind fun b => ?_
  split
  · exact .pure fun _ h => h.1
  · rename_i hb
    exact after ((removeObjectKey_complete k).pre fun s h => ⟨h.1, h.2 (by simpa using hb)⟩)

lemma getSet_complete (hk : k ∈ I.K) (value : Bytes) (now : Int) :
    Triple (I.SingleOnGet k now true) (getSet E k value now) fun _ => I.Complete ∅ :=
  (cacheGet_overlap k now true).bind fun current =>
    replaceObject_complete hk current value now _ _

lemma append_complete (hk : k ∈ I.K) (value : Bytes) (now : Int) :
    Triple (I.SingleOnGet k now true) (append E k value now) fun _ => I.Complete ∅ :=
  (cacheGet_overlap k now true).bind fun current =>
    replaceObject_complete hk current (current.getD [] ++ value) now _ _

lemma msetPairs_complete (now : Int) (pairs : List Bytes)
    (hk : ∀ k ∈ StoreOp.pairKeys pairs, k ∈ I.K) : Keeps (I.Complete ∅) (msetPairs E now pairs) := by
  induction pairs using StoreOp.pairKeys.induct with
  | case1 key value pairs ih =>
    have : Fact (key ∈ I.K) := ⟨hk key mem_cons_self⟩
    have := ih fun k hm => hk k (mem_cons_of_mem _ hm)
    refine then_ fun r => ?_
    split <;> infer_instance
  | case2 pairs hno =>
    unfold msetPairs
    split
    · rename_i key value pairs
      exact absurd rfl (hno key value pairs)
    · exact pure _

end Strings

section Keys

instance flushDB_complete : Keeps (I.Complete ∅) (flushDB E) := by
  refine ⟨fun s a s' _ hr => ?_⟩
  cases hr
  refine ⟨fun x _ _ hp => ?_, fun slot x hx => ?_⟩
  · rcases hp with hp | hp
    · exact absurd hp I.backend.clear
    · exact absurd hp notMem_empty
  · simp [listed] at hx

lemma del_complete (keys : List Bytes) (hk : ∀ k ∈ keys, k ∈ I.K) : Keeps (I.Complete ∅) (del E keys) := by
  induction keys with
  | nil => exact pure _
  | cons key keys ih =>
    have : Fact (key ∈ I.K) := ⟨hk key mem_cons_self⟩
    have := ih fun k hm => hk k (mem_cons_of_mem _ hm)
    exact bind

instance restoreEntry_complete [hk : Fact (k ∈ I.K)] (type : ValueType) (payload : Bytes) (ttl now : Int) :
    Keeps (I.Complete ∅) (restoreEntry E k type payload ttl now) := by
  unfold restoreEntry
  split
  · refine ⟨bothDeleted hk.out fun _ _ => after ((removeObjectKey_complete k).pre fun s h => ?_)⟩
    exact ⟨h.1, fun ho => h.2 (.inl ho.1)⟩
  · split
    · exact pure _
    · refine ⟨bothDeleted hk.out fun _ _ => ?_⟩
      refine ((objectSetEntry_complete k _).triple.pre fun _ h => empty_le h.1).bind fun _ => ?_
      exact after (trackKey_complete hk.out)

/-- A delete of the object copy, where the key is excepted anyway. -/
lemma deleteObjectKey_excepted (k : Bytes) : Keeps (I.Complete {k}) (deleteObjectKey E k) := by
  have hdel : Keeps (I.Complete {k}) (objectDel k : StoreM σ _) := by
    refine ⟨fun s b s' hc hr => ?_⟩
    cases (objectDel_run k s).symm.trans hr
    exact put hc rfl (fun x hx => .inl (mem_erase.1 hx).2) rfl
  have hun : Keeps (I.Complete {k}) (untrackKey E k) := ⟨fun s a s' hc hr =>
    ((@untrackKey_complete σ E I k (fun _ => True) fun _ _ _ _ h => h).triple s a s' ⟨hc, trivial⟩ hr).1⟩
  exact bind

/-- What `Delete` does to the shards; the dictionary stays. -/
lemma cacheDelete_frame (k : Bytes) (s : Store σ) : Triple (fun t => t = s) (cacheDelete E k) fun _ s' =>
      s'.shards = (E.delete s.shards k).1 ∧ s'.objects = s.objects := by
  have hun : Keeps (fun s' => s'.shards = (E.delete s.shards k).1 ∧ s'.objects = s.objects) (untrackKey E k) := by
    refine ⟨fun t a t' h hr => ?_⟩
    obtain ⟨index, hrun⟩ := untrackKey_run E k t
    cases hrun.symm.trans hr
    exact h
  refine after ?_
  rintro t b t' rfl hr
  cases hr
  exact ⟨rfl, rfl⟩

lemma cacheDelete_loses (hk : k ∈ I.K) {s s' : Store σ} {b : Bool}
    (hr : cacheDelete E k s = .ok (b, s')) : Loses I.K I.Holds s s' := by
  obtain ⟨hsh, hob⟩ := cacheDelete_frame k s s b s' rfl hr
  refine ⟨fun x hx hh => ?_, fun x o ho => hob ▸ ho⟩
  rw [hsh] at hh
  exact ((I.backend.delete hk x hx).1 hh).2

/-- The string copy of a key goes that has only one copy. -/
lemma cacheDelete_complete (hk : k ∈ I.K) : Triple (I.Single k) (cacheDelete E k) fun _ => I.Complete ∅ := by
  rintro s b s' ⟨hc, hn⟩ hr
  by_cases hm : k ∈ s.objects
  · -- the shards do not hold the key, so nothing is untracked
    have hh : ¬ I.Holds s.shards k := fun hh => hn ⟨hh, hm⟩
    have hdone : (E.delete s.shards k).2 = false := by
      rw [← Bool.not_eq_true, I.backend.delete_done]
      exact hh
    have hs : cacheDelete E k s = .ok (false, { s with shards := (E.delete s.shards k).1 }) := by
      change (if (E.delete s.shards k).2 = true then _ else _ : StoreM σ Bool) _ = _
      rw [hdone]
      rfl
    rw [hs] at hr
    cases hr
    refine ⟨fun x hx hex hp => hc.tracked x hx hex ?_, hc.slots⟩
    exact hp.imp_left fun hh => ((I.backend.delete hk x hx).1 hh).2
  · obtain ⟨hc', hh⟩ := cacheDelete_clears hk s b s' (empty_le hc) hr
    have hl := cacheDelete_loses hk hr
    exact hc'.of_not_present (not_or.2 ⟨hh, fun hm' => hm (hl.mem hm')⟩)

variable {newkey : Bytes}

lemma renameString_complete (hk : k ∈ I.K) (hn : newkey ∈ I.K) (value : Bytes) (ttl now : Int) (r : WriteOutcome → α) :
    Triple (fun s => I.Complete ∅ s ∧ (k ≠ newkey → ¬ Overlap I.Holds s k ∧ ¬ Overlap I.Holds s newkey)) (do
        let _ ← cacheDelete E k
        let _ ← deleteObjectKey E newkey
        let outcome ← cacheSet E newkey value ttl now
        return r outcome) fun _ => I.Complete ∅ := by
  have := Fact.mk hn
  by_cases hkn : k = newkey
  · subst hkn
    exact (bothDeleted hk fun _ _ => triple.pre fun _ h => h.1).pre fun _ h => h.1
  · refine Triple.bind (Q := fun _ => I.Single newkey) ?_ fun _ => ?_
    · rintro s b s' ⟨hc, ho⟩ hr
      obtain ⟨h1, h2⟩ := ho hkn
      refine ⟨cacheDelete_complete hk s b s' ⟨hc, h1⟩ hr, ?_⟩
      exact (cacheDelete_loses hk hr).not_overlap hn h2
    · exact after (deleteObjectKey_complete newkey)

lemma renameObject_complete (hn : newkey ∈ I.K) (o : Object) (r : α) :
    Triple (fun s => I.Complete ∅ s ∧ (k ≠ newkey → ¬ Overlap I.Holds s k)) (do
        let _ ← deleteObjectKey E k
        let _ ← cacheDelete E newkey
        objectSetEntry newkey o
        trackKey E newkey
        return r) fun _ => I.Complete ∅ := by
  have hdel : Triple (fun s => I.Complete ∅ s ∧ (k ≠ newkey → ¬ Overlap I.Holds s k))
      (deleteObjectKey E k) fun _ => I.Complete {newkey} := by
    by_cases hkn : k = newkey
    · subst hkn
      exact (deleteObjectKey_excepted k).triple.pre fun _ h => empty_le h.1
    · exact (deleteObjectKey_complete k).conseq (fun _ h => ⟨h.1, h.2 hkn⟩) fun _ _ => empty_le
  refine hdel.bind fun _ => (cacheDelete_clears hn).bind fun _ => ?_
  refine ((objectSetEntry_complete newkey o).triple.pre fun _ h => h.1).bind fun _ => ?_
  exact after (trackKey_complete hn)

lemma rename_complete (hk : k ∈ I.K) (hn : newkey ∈ I.K) (now : Int) :
    Triple (fun s => I.Complete ∅ s ∧ TakesNoHalf I.Holds E s (.rename k newkey now))
      (rename E k newkey now) fun _ => I.Complete ∅ := by
  -- the read of the key comes first; afterwards the copies are judged in the state it leaves
  have hget : Triple (fun s => I.Complete ∅ s ∧ TakesNoHalf I.Holds E s (.rename k newkey now))
      (cacheGet E k now) fun v s => I.Complete ∅ s ∧ (k ≠ newkey → ¬ Overlap I.Holds s k ∧
        (v.isSome = true → ¬ Overlap I.Holds s newkey)) := by
    rintro s v s' ⟨hc, ht⟩ hr
    have hsh : Shrinks I.K I.Holds s s' :=
      (Stable.cacheGet (I := I) (fun _ _ h hs => hs.trans h) k now).triple s v s' (.refl s) hr
    obtain ⟨⟨c, v'⟩, hg, h⟩ := Go.bind_eq_ok.1 hr
    cases h
    refine ⟨hc.shrink hsh, fun hkn => ⟨fun ho => ?_, fun hv => ?_⟩⟩
    · exact (ht hkn).1 v.isSome ⟨c, v, hg, rfl, ho.1, ho.2⟩
    · obtain ⟨w, rfl⟩ := Option.isSome_iff_exists.1 hv
      exact hsh.not_overlap hn ((ht hkn).2 c w hg)
  refine hget.bind fun v => ?_
  cases v with
  | some value =>
    have hP : I.Stable fun s => I.Complete ∅ s ∧
        (k ≠ newkey → ¬ Overlap I.Holds s k ∧ ¬ Overlap I.Holds s newkey) := fun s s' h hp =>
      ⟨hp.1.shrink h, fun hkn => ⟨h.not_overlap hk (hp.2 hkn).1, h.not_overlap hn (hp.2 hkn).2⟩⟩
    refine ((hP.ttlOrZero k now).triple.pre fun s h =>
      ⟨h.1, fun hkn => ⟨(h.2 hkn).1, (h.2 hkn).2 rfl⟩⟩).bind fun ttl => ?_
    exact renameString_complete hk hn value ttl now writeError
  | none =>
    have hP : I.Stable fun s => I.Complete ∅ s ∧ (k ≠ newkey → ¬ Overlap I.Holds s k) :=
      fun s s' h hp => ⟨hp.1.shrink h, fun hkn => h.not_overlap hk (hp.2 hkn)⟩
    refine ((hP.objectGet k now).triple.pre fun s h => ⟨h.1, fun hkn => (h.2 hkn).1⟩).bind fun o => ?_
    cases o with
    | none => exact .pure fun _ h => h.1
    | some o => exact renameObject_complete hn o _

end Keys

section Collections

section

variable (hk : k ∈ I.K)
include hk

/-- The shape of the calls that take something out: after the value was found, the string copy is
not there. -/
lemma take_complete {β : Type} (as : TypedValue → Option α) (now : Int)
    {f : Except StoreError α → StoreM σ β} (herr : ∀ e, Keeps (I.Complete ∅) (f (.error e)))
    (hok : ∀ a, Triple (I.Single k) (f (.ok a)) fun _ => I.Complete ∅) :
    Triple (I.SingleOnGet k now false) (getTyped E as k now >>= f) fun _ => I.Complete ∅ := by
  refine (getTyped_overlap hk as now).bind fun r => ?_
  cases r with
  | error e => exact (herr e).triple.pre fun _ h => h.1
  | ok a => exact (hok a).pre fun _ h => ⟨h.1, h.2 a rfl⟩

lemma popList_complete (left : Bool) (now : Int) :
    Triple (I.SingleOnGet k now false) (popList E k left now) fun _ => I.Complete ∅ := by
  refine take_complete hk _ now (fun e => pure _) fun items => ?_
  dsimp only
  split
  · exact .pure fun _ h => h.1
  · exact after (putOrDelete_complete k _ _)

lemma ltrim_complete (start stop now : Int) :
    Triple (I.SingleOnGet k now false) (ltrim E k start stop now) fun _ => I.Complete ∅ := by
  refine take_complete hk _ now (fun e => ?_) fun items => ?_
  · cases e <;> exact pure _
  · dsimp only
    split
    · exact after (deleteObjectKey_complete k)
    · exact triple.pre fun _ h => h.1

end

end Collections

section ActiveExpiry

variable (I) in
/-- What the active expiry may take away at `now`: objects in `U`, each the only copy of its key. -/
def ObjectsAlone (U : List Bytes) (now : Int) (s : Store σ) : Prop :=
  I.Complete ∅ s ∧ ∀ k ∈ U, DueObject s k now → ¬ I.Holds s.shards k

variable (I) in
/-- What the active expiry may take away at `now`: also strings in `T`, each the only copy. -/
def DueAlone (T U : List Bytes) (now : Int) (s : Store σ) : Prop :=
  I.ObjectsAlone U now s ∧ ∀ k ∈ T, DueString E s k now → k ∉ s.objects

variable {T U : List Bytes} {now : Int}

variable {s s' : Store σ}

lemma dueObject_mono (h : Loses I.K I.Holds s s') (hd : DueObject s' k now) : DueObject s k now := by
  obtain ⟨o, ho, hrest⟩ := hd
  exact ⟨o, h.objects k o ho, hrest⟩

lemma cacheTTL_eq_ok {d : Option Int} : cacheTTL E k now s = .ok (d, s') ↔ E.ttl s.shards k now = .ok d ∧ s' = s := by
  unfold cacheTTL onShards
  constructor
  · intro hr
    obtain ⟨⟨c, d'⟩, h1, h2⟩ := Go.bind_eq_ok.1 hr
    cases h2
    obtain ⟨d'', h1, h2⟩ := Go.bind_eq_ok.1 h1
    cases h2
    exact ⟨h1, rfl⟩
  · rintro ⟨h, rfl⟩
    dsimp only
    rw [h]
    rfl

/-- A time to live that is over means that the object is due. -/
lemma objectTTL_due (hP : I.Stable P) (k : Bytes) (now : Int) : Triple P (objectTTL k now : StoreM σ _) fun d s =>
      P s ∧ ∀ ttl, d = some ttl → ttl ≠ -1 → ttl ≤ 0 → DueObject s k now := by
  refine (objectGet_found hP k now).bind fun o => ?_
  cases o with
  | none => exact .pure fun s h => ⟨h.1, by simp⟩
  | some o =>
    dsimp only
    split
    · refine .pure fun s h => ⟨h.1, fun ttl he h1 => ?_⟩
      cases he
      exact absurd rfl h1
    · rename_i h0
      split
      · exact .pure fun s h => ⟨h.1, by simp⟩
      · rename_i hneg
        refine .pure fun s h => ⟨h.1, fun ttl he _ h2 => ?_⟩
        cases he
        obtain ⟨ho, hexp⟩ := h.2.1 o rfl
        exact ⟨o, ho, hexp, h0, by omega⟩

lemma deleteObjectKey_loses (I : Indexing E) (k : Bytes) {b : Bool}
    (hr : deleteObjectKey E k s = .ok (b, s')) : Loses I.K I.Holds s s' := by
  have hun : Keeps (Loses I.K I.Holds s) (untrackKey E k) := by
    refine ⟨fun t a t' ht hr => ?_⟩
    obtain ⟨index, hrun⟩ := untrackKey_run E k t
    cases hrun.symm.trans hr
    exact ht.trans ⟨fun _ _ hh => hh, fun _ _ ho => ho⟩
  have hdel : Keeps (Loses I.K I.Holds s) (objectDel k : StoreM σ _) := by
    refine ⟨fun t a t' ht hr => ?_⟩
    cases (objectDel_run k t).symm.trans hr
    exact ht.trans ⟨fun _ _ h => h, fun _ _ => GoMap.lookup_of_erase⟩
  have : Keeps (Loses I.K I.Holds s) (deleteObjectKey E k) := bind
  exact this.triple s b s' (.refl s) hr

lemma expireCacheKeys_complete (hU : ∀ k ∈ U, k ∈ I.K) (keys : List Bytes) (hT : ∀ k ∈ T, k ∈ I.K) (hkT : ∀ k ∈ keys, k ∈ T) :
    Keeps (I.DueAlone T U now) (expireCacheKeys E now keys) := by
  induction keys with
  | nil => exact pure _
  | cons key keys ih =>
    have ih' := ih fun k hm => hkT k (mem_cons_of_mem _ hm)
    have hkey := hkT key mem_cons_self
    -- the time to live is read in the state in which the key is deleted
    refine ⟨Triple.bind (Q := fun d s => I.DueAlone T U now s ∧ E.ttl s.shards key now = .ok d) ?_ fun d => ?_⟩
    · intro s d s' h hr
      obtain ⟨h1, rfl⟩ := cacheTTL_eq_ok.1 hr
      exact ⟨h, h1⟩
    have hskip : ∀ d', Triple (fun s => I.DueAlone T U now s ∧ E.ttl s.shards key now = .ok d')
        (expireCacheKeys E now keys) fun _ => I.DueAlone T U now :=
      fun _ => ih'.triple.pre fun _ h => h.1
    cases d with
    | none => exact hskip none
    | some d =>
      dsimp only
      split
      · exact hskip _
      rename_i hne
      split
      · rename_i hle
        refine after ?_
        rintro s b s' ⟨⟨⟨hc, hobj⟩, hstr⟩, httl⟩ hr
        have hno : key ∉ s.objects := hstr key hkey ⟨d, httl, hne, hle⟩
        have hl := cacheDelete_loses (hT key hkey) hr
        obtain ⟨hsh, -⟩ := cacheDelete_frame key s s b s' rfl hr
        refine ⟨⟨cacheDelete_complete (hT key hkey) s b s' ⟨hc, fun ho => hno ho.2⟩ hr,
          fun x hx hd hh => ?_⟩, fun x hx hd hm => ?_⟩
        · exact hobj x hx (dueObject_mono hl hd) (hl.shards x (hU x hx) hh)
        · obtain ⟨d', h1, h2, h3⟩ := hd
          rw [hsh] at h1
          exact hstr x hx ⟨d', I.backend.ttl_delete (hT key hkey) x (hT x hx) h1, h2, h3⟩ (hl.mem hm)
      · exact hskip _

lemma stable_objectsAlone (hU : ∀ k ∈ U, k ∈ I.K) : I.Stable (I.ObjectsAlone U now) :=
  fun _ _ h hp => ⟨hp.1.shrink h, fun x hx hd hh =>
    hp.2 x hx (dueObject_mono h.toLoses hd) (h.shards x (hU x hx) hh)⟩

lemma expireObjectKeys_complete (hU : ∀ k ∈ U, k ∈ I.K) (keys : List Bytes)
    (hkU : ∀ k ∈ keys, k ∈ U) : Keeps (I.ObjectsAlone U now) (expireObjectKeys E now keys) := by
  induction keys with
  | nil => exact pure _
  | cons key keys ih =>
    have ih' := ih fun k hm => hkU k (mem_cons_of_mem _ hm)
    refine ⟨(objectTTL_due (stable_objectsAlone hU) key now).bind fun d => ?_⟩
    have hskip := ih'.triple.pre fun s (h : I.ObjectsAlone U now s ∧
      ∀ ttl, d = some ttl → ttl ≠ -1 → ttl ≤ 0 → DueObject s key now) => h.1
    cases d with
    | none => exact hskip
    | some d =>
      dsimp only
      split
      · exact hskip
      rename_i hne
      split
      · rename_i hle
        refine after ?_
        rintro s b s' ⟨⟨hc, hdue⟩, hd⟩ hr
        have hno := hdue key (hkU key mem_cons_self) (hd d rfl hne hle)
        have hl := deleteObjectKey_loses I key hr
        refine ⟨deleteObjectKey_complete key s b s' ⟨hc, fun ho => hno ho.1⟩ hr, fun x hx hdx hh => ?_⟩
        exact hdue x hx (dueObject_mono hl hdx) (hl.shards x (hU x hx) hh)
      · exact hskip

lemma activeExpireCycle_complete (cacheSamples objectSamples : List (List Bytes)) (now : Int)
    (hT : ∀ k ∈ cacheSamples.flatten, k ∈ I.K) (hU : ∀ k ∈ objectSamples.flatten, k ∈ I.K) :
    Triple (fun s => I.Complete ∅ s ∧ TakesNoHalf I.Holds E s (.activeExpireCycle cacheSamples objectSamples now))
      (activeExpireCycle E cacheSamples objectSamples now) fun _ => I.Complete ∅ := by
  have hcache : Keeps (I.DueAlone cacheSamples.flatten objectSamples.flatten now)
      (expireRounds (expireCacheKeys E now) cacheSamples) :=
    expireRounds_keeps cacheSamples fun keys hm =>
      expireCacheKeys_complete hU keys hT fun k hk => mem_flatten_of_mem hm hk
  have hobject : Keeps (I.ObjectsAlone objectSamples.flatten now) (expireRounds (expireObjectKeys E now) objectSamples) :=
    expireRounds_keeps objectSamples fun keys hm =>
      expireObjectKeys_complete hU keys fun k hk => mem_flatten_of_mem hm hk
  refine Triple.bind (hcache.triple.pre fun s h => ⟨⟨h.1, h.2.2⟩, h.2.1⟩) fun _ => ?_
  exact hobject.triple.conseq (fun s h => h.1) fun _ _ h => h.1

end ActiveExpiry

/-! ## One call -/

/-- **Step lemma**: a call that takes no half keeps the index complete. -/
theorem run_complete (I : Indexing E) (op : StoreOp) (hk : ∀ k ∈ op.keys, k ∈ I.K) :
    Triple (fun s => I.Complete ∅ s ∧ TakesNoHalf I.Holds E s op) (op.run E) fun _ =>
      I.Complete ∅ := by
  -- most calls need only that the index is complete before
  have keep : ∀ {α : Type} {x : StoreM σ α}, Keeps (I.Complete ∅) x →
      Triple (fun s => I.Complete ∅ s ∧ TakesNoHalf I.Holds E s op) (StoreOp.ignore x) fun _ =>
        I.Complete ∅ :=
    fun h => (h.triple.pre fun _ h => h.1).bind fun _ => .pure fun _ h => h
  have hkey : ∀ key, op.keys = [key] → key ∈ I.K := fun key h =>
    hk key (h ▸ mem_singleton_self key)
  cases op with
  | set | setNX | incrBy | expireAt | restoreEntry | hset | pushList | sadd | zadd =>
    have := Fact.mk (hkey _ rfl)
    exact keep inferInstance
  | setXX key value ttl now => exact after (setXX_complete (hkey _ rfl) value ttl now)
  | getSet key value now => exact after (getSet_complete (hkey _ rfl) value now)
  | append key value now => exact after (append_complete (hkey _ rfl) value now)
  | mset pairs now =>
    have := msetPairs_complete now pairs hk
    exact keep inferInstance
  | del keys => exact keep (del_complete keys hk)
  | rename key newkey now =>
    exact after (rename_complete (hk key (by simp [StoreOp.keys])) (hk newkey (by simp [StoreOp.keys])) now)
  | flushDB => exact flushDB_complete.triple.pre fun _ h => h.1
  | activeExpireCycle cacheSamples objectSamples now =>
    exact activeExpireCycle_complete cacheSamples objectSamples now
      (fun k hm => hk k (mem_append_left _ hm)) fun k hm => hk k (mem_append_right _ hm)
  | hdel key _ now | srem key _ now | zrem key _ now =>
    refine after (take_complete (hkey _ rfl) _ now (fun e => ?_) fun _ => after (putOrDelete_complete key _ _))
    cases e <;> exact pure _
  | popList key left now => exact after (popList_complete (hkey _ rfl) left now)
  | ltrim key start stop now => exact after (ltrim_complete (hkey _ rfl) start stop now)
  | _ => exact keep inferInstance

end Calls

end Indexing

end AutoCache.Store
