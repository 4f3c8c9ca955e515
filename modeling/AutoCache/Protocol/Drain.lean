import AutoCache.Protocol.HandOver
import AutoCache.Store.CollectionCalls

/-!
# What a failed move leaves behind

The keys of a slot leave one by one, and an error ends the loop where it is. The slot becomes stable
again under its old owner; the keys that had left are gone from it. So nothing is lost exactly when
no key had left that would still be live.

`handedOver` says which keys leave, from the store as it was before the move: others leave these
keys alone, and a key is not touched before its turn.
-/

namespace AutoCache

open World List Views

namespace World

variable (w : World)

/-- What `GetEntry` returns. -/
def entry (key : Bytes) (now : Int) : Option (Value × Int) :=
  match (w key).str with
  | some slot =>
    some (.string slot.text, match slot.ttl now with
      | some ttl => if ttl > 0 then now + ttl else 0
      | none => 0)
  | none => (w key).obj.map fun o => (.object o.value, if o.expireAt > 0 then o.expireAt else 0)

lemma has_later_of_has {key : Bytes} {t : Int} (h : (w.later t).has key = true) : w.has key = true := by
  simp only [has, later, Bool.or_eq_true, Option.isSome_filter, Option.any_eq_true] at h ⊢
  rcases h with ⟨a, ha, -⟩ | ⟨a, ha, -⟩
  · exact .inl (by simp [ha])
  · exact .inr (by simp [ha])

end World

namespace Protocol

open Cluster

variable {L : LogicalConfig} {cfg : NodeConfig Cache} {now : Int} {key : Bytes}

lemma getEntry_acts (hE : cfg.engine = L.engine) : Acts now id (getEntry cfg now key) fun w => (w.entry key now, w) := by
  intro s
  unfold getEntry
  rw [hE]
  cases h : (s.live now key).str with
  | some slot =>
    have hcache : Store.cacheTTL L.engine key now s = .ok (slot.ttl now, s) := by
      obtain ⟨hl, -⟩ := Store.lookup_of_live h
      change Except.ok (Cache.ttl s.shards key now, s) = _
      cases slot <;> simp only [Cache.ttl, Slot.ttl, hl]
    rw [run_bind (Store.cacheGet_of_live h)]
    dsimp only
    rw [run_bind hcache]
    refine ⟨(s.live now).entry key now, s, ?_, rfl⟩
    simp only [entry, h]
    cases slot.ttl now <;> rfl
  | none =>
    obtain ⟨v, s', hget, hlive⟩ := @Store.cacheGet_acts L key now s
    simp only [h, Option.map_none, id, Prod.mk.injEq] at hlive
    rw [run_bind hget, ← hlive.1, hlive.2]
    obtain ⟨o, s'', hobj, hlive'⟩ := @Store.objectGet_acts key now s'
    simp only [id, Prod.mk.injEq] at hlive'
    dsimp only
    rw [run_bind hobj]
    refine ⟨_, s'', rfl, ?_⟩
    rw [hlive.2] at h
    simp only [entry, h, hlive'.1]
    rw [hlive'.2]
    rfl

/-! ## The keys that leave -/

/-- The keys that leave, judged by the store before the move: they come in turn, and the first whose
turn does not succeed ends it. -/
def handedOver (cfg : NodeConfig Cache) (visits : ℕ → Visit Cache) (s : Store Cache) :
    ℕ → List Bytes → List Bytes
  | _, [] => []
  | n, key :: keys =>
    let v := visits n
    if v.cancelled = false ∧ (v.settle cfg ((s.live v.now).entry key v.now)).isOk then
      key :: handedOver cfg visits s (n + 1) keys
    else []

/-- The clock does not go back. -/
structure Drain.Ordered {σ : Type} (d : Drain σ) : Prop where
  first : d.start ≤ (d.visits 0).now
  next : ∀ n, (d.visits n).now ≤ (d.visits (n + 1)).now
  last : ∀ n, (d.visits n).now ≤ d.stop

/-- Others leave these keys alone. -/
structure Drain.Spares (d : Drain Cache) (keys : Bytes → Prop) : Prop where
  between : ∀ n s t key, keys key → ((d.visits n).meanwhile s).live t key = s.live t key
  after : ∀ s t key, keys key → (d.meanwhile s).live t key = s.live t key

/-- From `now` on a store shows of `keys` what `s₀` shows, less what is gone. -/
def Less (s₀ : Store Cache) (keys : Bytes → Prop) (gone : List Bytes) (now : Int)
    (s : Store Cache) : Prop :=
  ∀ t, now ≤ t → ∀ key, keys key →
    s.live t key = if key ∈ gone then ⟨none, none⟩ else s₀.live t key

variable {s₀ s s' : Store Cache} {keys : Bytes → Prop} {gone : List Bytes} {t₀ t₁ : Int}

lemma Less.refl (s₀ : Store Cache) (keys : Bytes → Prop) : Less s₀ keys [] now s₀ :=
  fun _ _ _ _ => by simp

section

variable (h : Less s₀ keys gone t₀ s) (ht : t₀ ≤ t₁)
include h ht

lemma Less.spare (hsame : ∀ t key, keys key → s'.live t key = s.live t key) : Less s₀ keys gone t₁ s' :=
  fun t hle key hkey => (hsame t key hkey).trans (h t (le_trans ht hle) key hkey)

lemma Less.quiet (hlive : s'.live t₁ = s.live t₁) : Less s₀ keys gone t₁ s' := by
  intro t hle key hkey
  rw [Store.live_later hle, hlive, ← Store.live_later hle]
  exact h t (le_trans ht hle) key hkey

lemma Less.delete (hlive : s'.live t₁ = (s.live t₁).del [key]) : Less s₀ keys (gone ++ [key]) t₁ s' := by
  intro t hle k hk
  rw [Store.live_later hle, hlive]
  by_cases hkey : k = key
  · subst hkey
    simp [later, del, delKey, setStr, setObj]
  · have hoth : (s.live t₁).del [key] k = s.live t₁ k := by
      simp [del, delKey, setStr_apply, setObj_apply, hkey]
    have hlater : ((s.live t₁).del [key]).later t k = (s.live t₁).later t k := by
      simp only [later, hoth]
    rw [hlater, ← Store.live_later hle, h t (le_trans ht hle) k hk]
    simp [hkey]

end

lemma drainKey_spec (hE : cfg.engine = L.engine) {v : Visit Cache} (ht : t₀ ≤ v.now)
    (h : Less s₀ keys gone t₀ s) (hkey : keys key) (hgone : key ∉ gone) :
    ∃ s', drainKey cfg v key s = .ok (v.settle cfg ((s₀.live v.now).entry key v.now), s') ∧ Less s₀ keys
        (if (v.settle cfg ((s₀.live v.now).entry key v.now)).isOk then gone ++ [key] else gone)
        v.now s' := by
  obtain ⟨s₁, hent, hlive₁⟩ := (@getEntry_acts L cfg v.now key hE).run s
  have hsame : (s.live v.now).entry key v.now = (s₀.live v.now).entry key v.now := by
    have := h v.now ht key hkey
    rw [if_neg hgone] at this
    simp only [entry, this]
  rw [hsame] at hent
  have hquiet := h.quiet ht hlive₁
  unfold drainKey
  rw [run_bind hent]
  cases hsettle : v.settle cfg ((s₀.live v.now).entry key v.now) with
  | error err => exact ⟨s₁, rfl, hquiet⟩
  | ok u =>
    obtain ⟨count, s₂, hdel, hlive₂⟩ := @Store.del_acts L v.now [key] s₁
    have hlive₂ := congrArg Prod.snd hlive₂
    dsimp only
    rw [hE, run_bind hdel]
    exact ⟨s₂, rfl, hquiet.delete le_rfl hlive₂.symm⟩

lemma drainKeys_cons {visits : ℕ → Visit Cache} {n : ℕ} {key : Bytes} {todo : List Bytes} {s : Store Cache} :
    drainKeys cfg visits n (key :: todo) s = (if (visits n).cancelled then return .error .cancelled
        else do
          match ← drainKey cfg (visits n) key with
          | .error err => return .error (.key key err)
          | .ok () => drainKeys cfg visits (n + 1) todo : StoreM Cache (Except DrainError Unit))
        ((visits n).meanwhile s) := rfl

lemma drainKeys_spec (hE : cfg.engine = L.engine) {d : Drain Cache} (hclock : d.Ordered) (hspares : d.Spares keys) :
    ∀ (todo : List Bytes) (n : ℕ) (gone : List Bytes) (t₀ : Int) (s : Store Cache),
      (∀ key ∈ todo, keys key) → todo.Nodup → (∀ key ∈ todo, key ∉ gone) →
      t₀ ≤ (d.visits n).now → Less s₀ keys gone t₀ s →
      ∃ result s', drainKeys cfg d.visits n todo s = .ok (result, s') ∧
        Less s₀ keys (gone ++ handedOver cfg d.visits s₀ n todo) d.stop s' ∧
        (result = .ok () → handedOver cfg d.visits s₀ n todo = todo) := by
  intro todo
  induction todo with
  | nil =>
    intro n gone t₀ s _ _ _ ht h
    refine ⟨.ok (), s, rfl, ?_, fun _ => rfl⟩
    rw [handedOver, append_nil]
    exact h.spare (le_trans ht (hclock.last n)) fun _ _ _ => rfl
  | cons key todo ih =>
    intro n gone t₀ s hkeys hnd hgone ht h
    obtain ⟨hnotin, hnd⟩ := nodup_cons.1 hnd
    have hsome := hkeys key mem_cons_self
    have h₁ := h.spare le_rfl fun t k hk => hspares.between n s t k hk
    have hstop := hclock.last n
    rw [drainKeys_cons, handedOver]
    by_cases hcancel : (d.visits n).cancelled
    · rw [if_pos hcancel, if_neg (by simp [hcancel]), append_nil]
      exact ⟨_, _, rfl, h₁.spare (le_trans ht hstop) fun _ _ _ => rfl, fun hc => by cases hc⟩
    rw [if_neg hcancel]
    obtain ⟨s₁, hkey, hless⟩ := drainKey_spec hE ht h₁ hsome (hgone key mem_cons_self)
    rw [run_bind hkey]
    cases hsettle : (d.visits n).settle cfg ((s₀.live (d.visits n).now).entry key (d.visits n).now) with
    | error err =>
      rw [hsettle] at hless
      have hnot : ¬ (Except.error err : Except KeyError Unit).isOk = true := by simp [Except.isOk, Except.toBool]
      rw [if_neg (fun hc => hnot hc.2), append_nil]
      exact ⟨_, _, rfl, hless.spare hstop fun _ _ _ => rfl, fun hc => by cases hc⟩
    | ok u =>
      rw [hsettle] at hless
      have hok : (Except.ok u : Except KeyError Unit).isOk = true := rfl
      rw [if_pos ⟨by simpa using hcancel, hok⟩]
      have hfresh : ∀ k ∈ todo, k ∉ gone ++ [key] := by
        intro k hk hmem
        rcases mem_append.1 hmem with hmem | hmem
        · exact hgone k (mem_cons_of_mem _ hk) hmem
        · exact hnotin (mem_singleton.1 hmem ▸ hk)
      obtain ⟨result, s₂, hrest, hless', hall⟩ := ih (n + 1) (gone ++ [key]) _ s₁
        (fun k hk => hkeys k (mem_cons_of_mem _ hk)) hnd hfresh (hclock.next n) hless
      refine ⟨result, s₂, hrest, ?_, fun hr => by rw [hall hr]⟩
      rw [append_assoc, singleton_append] at hless'
      exact hless'

/-- **The move of the keys of a slot.** It always returns, and it takes the keys of `handedOver`. -/
lemma drainSlot_spec (hE : cfg.engine = L.engine) {d : Drain Cache} (hclock : d.Ordered)
    (s₀ : Store Cache) (slot : UInt16) (hspares : d.Spares fun key => (s₀.live d.start).has key) :
    ∃ result s', drainSlot cfg d slot s₀ = .ok (result, s') ∧ Less s₀ (fun key => (s₀.live d.start).has key)
        (handedOver cfg d.visits s₀ 0 (s₀.slotKeys slot d.start)) d.stop s' ∧
      (result = .ok () → handedOver cfg d.visits s₀ 0 (s₀.slotKeys slot d.start) = s₀.slotKeys slot d.start) := by
  obtain ⟨s₁, hkeys, hlive₁⟩ := @Store.keysInSlot_run L d.start s₀ slot
  have hless₁ := (@Less.refl d.start s₀ fun key => (s₀.live d.start).has key).quiet le_rfl hlive₁
  have hmem : ∀ key ∈ s₀.slotKeys slot d.start, (s₀.live d.start).has key = true :=
    fun key hkey => (mem_filter.1 hkey).2
  have hnd : (s₀.slotKeys slot d.start).Nodup := (Finset.sort_nodup _ _).filter _
  obtain ⟨result, s₂, hdrain, hless₂, hall⟩ := drainKeys_spec hE hclock hspares
    (s₀.slotKeys slot d.start) 0 [] d.start s₁ hmem hnd (fun _ _ => not_mem_nil)
    hclock.first hless₁
  unfold drainSlot
  rw [hE, run_bind hkeys]
  by_cases hempty : s₀.slotKeys slot d.start = []
  · rw [if_pos hempty]
    refine ⟨_, s₁, rfl, ?_, fun _ => by rw [hempty]; rfl⟩
    rw [hempty]
    exact hless₁.spare (le_trans hclock.first (hclock.last 0)) fun _ _ _ => rfl
  · rw [if_neg hempty, run_bind hdrain]
    cases result with
    | error err => exact ⟨_, s₂, rfl, hless₂, fun hc => by cases hc⟩
    | ok u =>
      obtain ⟨s₃, hagain, hlive₃⟩ :=
        @Store.keysInSlot_run L d.stop (d.meanwhile s₂) slot
      have hless₃ := (hless₂.spare le_rfl fun t k hk => hspares.after s₂ t k hk).quiet le_rfl hlive₃
      change ∃ result s', (Store.keysInSlot L.engine slot 0 d.stop >>= fun remaining =>
        if remaining = [] then return .ok () else return .error (.remaining slot remaining.length) :
          StoreM Cache (Except DrainError Unit)) (d.meanwhile s₂) = .ok (result, s') ∧ _
      rw [run_bind hagain]
      split
      · exact ⟨_, s₃, rfl, hless₃, fun _ => hall rfl⟩
      · exact ⟨_, s₃, rfl, hless₃, fun hc => by cases hc⟩

/-! ## Failed moves -/

/-- The slot is where it was, in its normal state, and so is every key of it that is still live. -/
structure Kept (cfg : NodeConfig Cache) (slot : UInt16) (t : Int) (n n' : Member Cache) : Prop where
  owner : n'.gossip.slots.getSlotNode slot = cfg.view.selfID
  normal : (n'.gossip.slots.slots slot).state = .normal
  keys : ∀ key, cfg.view.keySlot key = slot → (n.store.live t).has key →
    (n'.store.live t key).content = (n.store.live t key).content

/-- Every key of the slot that leaves has expired by the end. -/
def NothingLeft (cfg : NodeConfig Cache) (d : Drain Cache) (slot : UInt16) (s : Store Cache) : Prop :=
  ∀ key ∈ handedOver cfg d.visits s 0 (s.slotKeys slot d.start), cfg.view.keySlot key = slot →
    ¬ (s.live d.stop).has key

variable {d : Drain Cache} {slot : UInt16} {targetID : String} {n n' : Member Cache}

open SlotManager

lemma stable_of_exporting {sm sm₁ sm₂ : SlotManager} (hexport : sm.setExporting slot targetID = .ok sm₁)
    (hstable : sm₁.setStable slot = .ok sm₂) :
    sm₂.getSlotNode slot = sm.getSlotNode slot ∧ (sm₂.slots slot).state = .normal := by
  obtain ⟨hslot, rfl⟩ := setExporting_ok hexport
  obtain ⟨-, hnode, hstate⟩ := setStable_ok hstable
  refine ⟨?_, hstate⟩
  rw [getSlotNode_of_lt hslot, getSlotNode_of_lt hslot, hnode, modify_slots, Function.update_self]

lemma content_ne_of_has {w : World} (h : w.has key = true) : KeyState.content ⟨none, none⟩ ≠ (w key).content := by
  intro heq
  simp only [KeyState.content, Option.map_none, Prod.mk.injEq] at heq
  have hstr : (w key).str = none := by simpa using heq.1.symm
  simp [has, hstr, ← heq.2] at h

lemma kept_moveSlot_iff (hE : cfg.engine = L.engine) (hclock : d.Ordered)
    (howner : n.gossip.slots.getSlotNode slot = cfg.view.selfID)
    (hothers : d.Spares fun key => (n.store.live d.start).has key) {err : DrainError}
    (h : moveSlot cfg d slot targetID n = .ok (.error err, n')) :
    Kept cfg slot d.stop n n' ↔ NothingLeft cfg d slot n.store := by
  obtain ⟨slots, hexport, hcases⟩ := moveSlot_cases h
  rcases hcases with ⟨err', stable, -, hdrain, hstable, hgossip⟩ | ⟨msg, hres, -, -⟩
  · obtain ⟨hnode, hstate⟩ := stable_of_exporting hexport hstable
    obtain ⟨result, s', hdrain', hless, -⟩ := drainSlot_spec hE hclock n.store slot hothers
    have hsto : s' = n'.store := by
      rw [hdrain] at hdrain'
      cases hdrain'
      rfl
    subst hsto
    have hstart : d.start ≤ d.stop := le_trans hclock.first (hclock.last 0)
    have hlive : ∀ key, (n.store.live d.stop).has key → n'.store.live d.stop key =
        if key ∈ handedOver cfg d.visits n.store 0 (n.store.slotKeys slot d.start)
          then ⟨none, none⟩ else n.store.live d.stop key := by
      intro key hhas
      rw [Store.live_later hstart] at hhas
      exact hless d.stop le_rfl key (has_later_of_has _ hhas)
    constructor
    · intro hkept key hmem hslot hhas
      have hcontent := hkept.keys key hslot hhas
      rw [hlive key hhas, if_pos hmem] at hcontent
      exact content_ne_of_has hhas hcontent
    · intro hnone
      refine ⟨?_, ?_, fun key hslot hhas => ?_⟩
      · rw [hgossip]
        exact hnode.trans howner
      · rw [hgossip]
        exact hstate
      · rw [hlive key hhas, if_neg fun hmem => hnone key hmem hslot hhas]
  · cases hres

lemma migrateSlot_fails (hE : cfg.engine = L.engine) (hclock : d.Ordered) (hslot : slot < slotCount)
    (hkn : (n.gossip.nodes.lookup targetID).isSome)
    (hothers : d.Spares fun key => (n.store.live d.start).has key)
    (hne : handedOver cfg d.visits n.store 0 (n.store.slotKeys slot d.start) ≠ n.store.slotKeys slot d.start) :
    ∃ err n', migrateSlot cfg d slot targetID n = .ok (.error err, n') ∧
      Less n.store (fun key => (n.store.live d.start).has key)
        (handedOver cfg d.visits n.store 0 (n.store.slotKeys slot d.start)) d.stop n'.store := by
  obtain ⟨result, s', hdrain, hless, hall⟩ := drainSlot_spec hE hclock n.store slot hothers
  have hge := UInt16.not_le.2 hslot
  cases result with
  | ok u => exact absurd (hall rfl) hne
  | error err =>
    obtain ⟨sm, hexport⟩ : ∃ sm, n.gossip.slots.setExporting slot targetID = .ok sm :=
      ⟨_, if_neg hge⟩
    obtain ⟨stable, hstable⟩ : ∃ stable, sm.setStable slot = .ok stable := ⟨_, if_neg hge⟩
    refine ⟨.drain slot err, ⟨{ n.gossip with slots := stable }, s'⟩, ?_, hless⟩
    rw [migrateSlot, if_neg (by simpa using Option.isSome_iff_ne_none.1 hkn)]
    simp only [moveSlot, hexport, Go.ok_bind, hdrain, hstable]
    rfl

def twoKeys : Store Cache :=
  { shards := ((∅ : Cache).insert [98] (counterSlot 1)).insert [97] (counterSlot 1)
    slotIndex := (∅ : GoMap UInt16 (Finset Bytes)).insert 0 {[97], [98]}
    objects := ∅ }

lemma twoKeys_slotKeys : twoKeys.slotKeys 0 0 = [[97], [98]] := by
  have hsort : ({[97], [98]} : Finset Bytes).sort (· ≤ ·) = [[97], [98]] := by
    rw [Finset.sort_insert _ (by decide) (by decide), Finset.sort_singleton]
  unfold Store.slotKeys
  rw [show (twoKeys.slotIndex.lookup 0).getD ∅ = {[97], [98]} from by simp [twoKeys], hsort]
  rfl

/-- After `k` keys the target refuses the connection. -/
def refusedAfter (k : ℕ) : Drain Cache :=
  { visits := fun n =>
      { exchange := { dial := if n < k then .ok () else .error "connection refused" } } }

lemma refusedAfter_ordered (k : ℕ) : (refusedAfter k).Ordered :=
  ⟨le_rfl, fun _ => le_rfl, fun _ => le_rfl⟩

lemma refusedAfter_spares (k : ℕ) (keys : Bytes → Prop) : (refusedAfter k).Spares keys :=
  ⟨fun _ _ _ _ _ => rfl, fun _ _ _ _ => rfl⟩

def keyHolder : Member Cache := ⟨pairGossip "t" 0 1, twoKeys⟩

end Protocol

end AutoCache
