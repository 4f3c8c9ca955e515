import Mathlib.Data.Set.Card
import AutoCache.Persistence.Manager
import AutoCache.Store.LogicalIndex
import AutoCache.Store.OneType
import AutoCache.Store.SlotIndex
import AutoCache.Tiered.Adapter

/-!
# Listing a slot over two tiers

`KeysInSlot` and `CountKeysInSlot` of the adapter ask the memory store, whose slot index knows the
keys of the hot tier. `GetEntry` also finds a key that only the warm tier has. So once no call takes
one of two copies of a key, a slot is listed in full exactly if the warm tier shows no key of it that
is not in the hot tier as well: a demotion of one key is enough to break it.
-/

namespace AutoCache.Tiered

open Hoare Hoare.Keeps Runs Store Views Tiered Persistence

/-! ## A node -/

structure TieredNode where
  tiers : Tiers Cache
  now : Int

/-- What happens on a node: commands of the adapter that go through the manager, calls it hands to the
memory store or that the expiry manager makes there, moves between the tiers, and what the
write-behind queue brings into the warm tier. -/
inductive NodeEvent where
  | command (op : TierOp)
  | set (key value : Bytes) (ttl : Int)
  | del (keys : List Bytes)
  | store (op : StoreOp)
  | flushDB
  | demote (key : Bytes)
  | promote (key : Bytes)
  | load
  | flush (batch : List WriteOp)
  | tick (d : ℕ)

namespace NodeEvent

variable (S : Setup) (marshal : TypedValue → Go Bytes) (now : Int)

def run : NodeEvent → TierM Cache Unit
  | command op => do
    let _ ← op.run S.logical.engine marshal now
    return ()
  | set key value ttl => do
    let _ ← Tiered.set S.logical.engine now key value ttl
    return ()
  | del keys => do
    let _ ← Tiered.del S.logical.engine now keys
    return ()
  | store op => hotCall ((op.withClock now).run S.logical.engine)
  | flushDB => do
    hotCall (Store.flushDB S.logical.engine)
    warmCall fun _ => ((), ∅)
  | demote key => do
    let _ ← demoteKey S.logical.engine now key
    return ()
  | promote key => do
    let _ ← Tiered.promote S.logical.engine now key
    return ()
  | load => fun s => hotCall (S.load now s.warm) s
  | flush batch => warmCall fun warm => ((), Persistence.flush now batch warm)
  | tick _ => return ()

end NodeEvent

namespace TieredNode

variable (S : Setup) (marshal : TypedValue → Go Bytes)

def step (s : TieredNode) : NodeEvent → Go TieredNode
  | .tick d => return { s with now := s.now + d }
  | e => do
    let (_, tiers) ← e.run S marshal s.now s.tiers
    return { s with tiers }

def start (db : Warm) (now : Int) : TieredNode := ⟨⟨⟨∅, ∅, ∅⟩, db⟩, now⟩

/-- `GetEntry` reads the key. -/
def Readable (s : TieredNode) (key : Bytes) : Prop :=
  ∃ entry t, getEntry S.logical.engine s.now key s.tiers = .ok (some entry, t)

/-- **The slot is listed in full**: `KeysInSlot` returns the keys of the slot that can be read, each
once, and `CountKeysInSlot` is their number. -/
def ListsSlot (slotFunc : Bytes → UInt16) (s : TieredNode) (slot : UInt16) : Prop :=
  ∃ keys hot, Store.keysInSlot S.logical.engine slot 0 s.now s.tiers.hot = .ok (keys, hot) ∧
    keys.Nodup ∧ (∀ key, key ∈ keys ↔ slotFunc key = slot ∧ s.Readable S key) ∧
    keys.length = Set.ncard { key | slotFunc key = slot ∧ s.Readable S key }

def WarmOnly (s : TieredNode) (key : Bytes) : Prop :=
  (s.tiers.warm.get key s.now).isSome ∧ (s.tiers.hot.live s.now).has key = false

/-- A call on the memory store takes no copy of a key away while the other one stays. -/
def TakesNoHalf (s : TieredNode) : NodeEvent → Prop
  | .store op => Store.TakesNoHalf (fun c k => k ∈ c) S.logical.engine s.tiers.hot (op.withClock s.now)
  | _ => True

end TieredNode

/-! ## The index over a run -/

section Index

variable {α β : Type} {L : LogicalConfig} {slotFunc : Bytes → UInt16} {now : Int}

abbrev Indexed (slotFunc : Bytes → UInt16) (s : Tiers Cache) : Prop :=
  Complete Set.univ (fun (c : Cache) k => k ∈ c) slotFunc ∅ s.hot

/-- The memory store of a hot tier, for all keys. -/
def hotIndexing (hslot : L.slotFunc = some slotFunc) : Indexing L.engine :=
  ⟨Set.univ, fun c k => k ∈ c, slotFunc, hslot, logicalBackend_indexed L.size⟩

def HotIndexed (hslot : L.slotFunc = some slotFunc) (s : Tiers Cache) : Prop :=
  (hotIndexing hslot).Complete ∅ s.hot

variable {hslot : L.slotFunc = some slotFunc} {key value : Bytes}

instance : Fact (key ∈ (hotIndexing hslot).K) := ⟨Set.mem_univ key⟩

instance {x : StoreM Cache α} [Keeps ((hotIndexing hslot).Complete ∅) x] :
    Keeps (HotIndexed hslot) (hotCall x) := by
  refine ⟨fun s a s' hs hr => ?_⟩
  obtain ⟨⟨b, hot⟩, hx, hr⟩ := Go.bind_eq_ok.1 hr
  cases hr
  exact triple (P := (hotIndexing hslot).Complete ∅) s.hot a hot hs hx

instance (f : Warm → α × Warm) : Keeps (HotIndexed hslot) (warmCall f : TierM Cache α) := by
  refine ⟨fun s a s' hs hr => ?_⟩
  cases hr
  exact hs

instance (x : Go α) : Keeps (HotIndexed hslot) (liftM x : TierM Cache α) := by
  refine ⟨fun s a s' hs hr => ?_⟩
  obtain ⟨b, -, hr⟩ := Go.bind_eq_ok.1 (show (x >>= fun b => Pure.pure (b, s)) = .ok (a, s') from hr)
  cases hr
  exact hs

/-! The calls on the memory store, for any key. -/

instance : Keeps ((hotIndexing hslot).Complete ∅) (engineEntry L.engine key now) := by
  refine then_ fun value => ?_
  split
  · refine then_ fun ttl => ?_
    split <;> infer_instance
  · infer_instance

/-! The commands of the manager. -/

instance : Keeps (HotIndexed hslot) (getEntry L.engine now key) := by
  refine then_ fun entry => ?_
  split <;> infer_instance

instance : Keeps (HotIndexed hslot) (get L.engine now key) := by
  refine then_ fun value => ?_
  split
  · infer_instance
  · refine then_ fun entry => ?_
    split <;> infer_instance

instance existsKeys_indexed : ∀ keys, Keeps (HotIndexed hslot) (existsKeys L.engine now keys)
  | [] => pure _
  | _ :: keys => have := existsKeys_indexed keys; bind

instance : Keeps (HotIndexed hslot) (ttl L.engine now key) := by
  refine then_ fun hot => ?_
  split
  · infer_instance
  · refine then_ fun ttl => ?_
    split <;> infer_instance

instance mgetBytes_indexed : ∀ keys, Keeps (HotIndexed hslot) (mgetBytes L.engine now keys)
  | [] => pure _
  | _ :: keys => by
    have := mgetBytes_indexed keys
    refine then_ fun value => ?_
    split <;> infer_instance

instance (ttl : Int) :
    Keeps (HotIndexed hslot) (set L.engine now key value ttl) := bind

instance (keys : List Bytes) : Keeps (HotIndexed hslot) (del L.engine now keys) := bind

instance rewrite_indexed (key : Bytes) (next : Option Bytes → Except TierError (Bytes × α)) :
    Keeps (HotIndexed hslot) (rewrite L.engine now key next) := by
  have hwr : ∀ current, Keeps (HotIndexed hslot) (match next current with
      | .error e => return .error e
      | .ok (value, reply) => do
        let _ ← del L.engine now [key]
        let result ← set L.engine now key value 0
        return result.map fun _ => reply : TierM Cache (Except TierError α)) := by
    intro current
    split <;> infer_instance
  refine then_ fun value => ?_
  split
  · exact hwr _
  · exact hwr _
  · infer_instance

instance (marshal : TypedValue → Go Bytes) (newkey : Bytes) :
    Keeps (HotIndexed hslot) (rename L.engine now marshal key newkey) := by
  refine then_ fun entry => ?_
  split
  · infer_instance
  · refine then_ fun ttl => then_ fun _ => then_ fun _ => ?_
    split <;> infer_instance

instance (ttl : Int) :
    Keeps (HotIndexed hslot) (setNX L.engine now key value ttl) := bind

instance (ttl : Int) :
    Keeps (HotIndexed hslot) (setXX L.engine now key value ttl) := bind

instance : Keeps (HotIndexed hslot) (strlen L.engine now key) := by
  refine then_ fun value => ?_
  split <;> infer_instance

/-- **Step lemma** for the commands that go through the manager: they need no condition, since what
they take from the hot tier they take with both copies. -/
instance command_indexed (marshal : TypedValue → Go Bytes) (op : TierOp) :
    Keeps (HotIndexed hslot) (op.run L.engine marshal now) := by
  have hincr : ∀ key delta, Keeps (HotIndexed hslot) (incrBy L.engine now key delta) :=
    fun key delta => rewrite_indexed key _
  have hot : ∀ key delta, Keeps (HotIndexed hslot) (do
      let n ← hotCall (Store.incrBy L.engine key delta now)
      return n.mapError TierError.hot) := fun _ _ => Keeps.bind
  cases op with
  | incr key => exact @map _ _ _ _ _ _ _ (hot key 1)
  | decr key => exact @map _ _ _ _ _ _ _ (hot key (-1))
  | decrBy key delta => exact @map _ _ _ _ _ _ _ (hincr key _)
  | append key suffix | getSet key value => exact @map _ _ _ _ _ _ _ (rewrite_indexed key _)
  | mset pairs | type key | expire key time | persist key => exact @map _ _ _ _ _ _ _ Keeps.bind
  | _ => exact map _

instance : Keeps (HotIndexed hslot) (demoteKey L.engine now key) := by
  refine then_ fun entry => ?_
  split <;> infer_instance

instance : Keeps (HotIndexed hslot) (promote L.engine now key) := by
  refine then_ fun value => ?_
  split
  · infer_instance
  · refine then_ fun entry => ?_
    split
    · infer_instance
    · split
      · infer_instance
      · refine then_ fun result => ?_
        split <;> infer_instance

end Index

section Load

variable {S : Setup} {slotFunc : Bytes → UInt16} {now : Int}
  {hslot : S.logical.slotFunc = some slotFunc}

instance (db : Warm) (key : Bytes) :
    Keeps ((hotIndexing hslot).Complete ∅) (S.loadKey now db key) := by
  refine then_ fun entry => ?_
  split
  · infer_instance
  · split
    · infer_instance
    · split <;> infer_instance

instance loadKeys_indexed (db : Warm) :
    ∀ keys, Keeps ((hotIndexing hslot).Complete ∅) (S.loadKeys now db keys)
  | [] => pure _
  | _ :: keys => have := loadKeys_indexed db keys; bind

end Load

namespace TieredNode

variable {S : Setup} {marshal : TypedValue → Go Bytes} {slotFunc : Bytes → UInt16}
  {s s' : TieredNode} {e : NodeEvent}

lemma run_indexed (hslot : S.logical.slotFunc = some slotFunc) (now : Int)
    (he : ∀ op, e ≠ .store op) : Keeps (HotIndexed hslot) (e.run S marshal now) := by
  cases e with
  | store op => exact absurd rfl (he op)
  | load => exact ⟨fun t a t' => triple (x := hotCall (S.loadKeys now t.warm _)) t a t'⟩
  | flush batch =>
    exact inferInstanceAs (Keeps (HotIndexed hslot) (warmCall fun warm => ((), flush now batch warm)))
  | tick d => exact pure _
  | _ => exact bind

/-- **Step lemma.** -/
lemma step_indexed (hslot : S.logical.slotFunc = some slotFunc) (h : Indexed slotFunc s.tiers)
    (hhalf : s.TakesNoHalf S e) (hstep : s.step S marshal e = .ok s') :
    Indexed slotFunc s'.tiers := by
  by_cases htick : ∃ d, e = .tick d
  · obtain ⟨d, rfl⟩ := htick
    cases hstep
    exact h
  obtain ⟨⟨u, tiers⟩, hx, hr⟩ : ∃ p, e.run S marshal s.now s.tiers = .ok p ∧
      (pure { s with tiers := p.2 } : Go TieredNode) = .ok s' := by
    cases e with
    | tick d => exact absurd ⟨d, rfl⟩ htick
    | _ => exact Go.bind_eq_ok.1 hstep
  cases hr
  by_cases hsto : ∃ op, e = .store op
  · obtain ⟨op, rfl⟩ := hsto
    obtain ⟨⟨v, hot⟩, hop, hr⟩ := Go.bind_eq_ok.1 hx
    cases hr
    exact (hotIndexing hslot).run_complete (op.withClock s.now) (fun key _ => Set.mem_univ key)
      s.tiers.hot _ hot ⟨h, hhalf⟩ hop
  · exact (run_indexed hslot s.now fun op he => hsto ⟨op, he⟩).triple s.tiers u tiers h hx

/-! ## The listing -/

lemma engineEntry_isSome {w : World} {key : Bytes} {now : Int} : (w.engineEntry key now).isSome = w.has key := by
  unfold World.engineEntry World.has
  cases (w key).str with
  | some slot => rfl
  | none => cases (w key).obj <;> rfl

lemma readable_iff {key : Bytes} : s.Readable S key ↔
    (s.tiers.hot.live s.now).has key = true ∨ (s.tiers.warm.get key s.now).isSome = true := by
  obtain ⟨t, hget, -⟩ := (@getEntry_simulates S.logical s.now key).run s.tiers
  have hent : ((s.tiers.view s.now).entry s.now key).isSome =
      ((s.tiers.hot.live s.now).has key || (s.tiers.warm.get key s.now).isSome) := by
    rw [TierView.entry, Option.isSome_or]
    exact congrArg₂ _ engineEntry_isSome rfl
  unfold Readable
  rw [hget, ← Bool.or_eq_true, ← hent, Option.isSome_iff_exists]
  constructor
  · rintro ⟨entry, t', h⟩
    exact ⟨entry, congrArg Prod.fst (Except.ok.inj h)⟩
  · rintro ⟨entry, h⟩
    exact ⟨entry, t, by rw [h]⟩

/-- On a complete index `KeysInSlot` lists what is live in the hot tier. -/
lemma mem_slotKeys (h : Indexed slotFunc s.tiers) {slot : UInt16} {key : Bytes} :
    key ∈ slotKeys s.tiers.hot slot s.now ↔ slotFunc key = slot ∧ (s.tiers.hot.live s.now).has key = true := by
  rw [slotKeys, List.mem_filter, Finset.mem_sort]
  refine and_congr_left fun hlive => ⟨fun hmem => (h.slots slot key hmem).1, ?_⟩
  rintro rfl
  refine h.tracked key trivial (Set.notMem_empty key) ?_
  rcases Bool.or_eq_true _ _ |>.mp hlive with hstr | hobj
  · obtain ⟨x, hx⟩ := Option.isSome_iff_exists.1 hstr
    exact .inl (Finmap.mem_of_lookup_eq_some (Option.mem_filter_iff.1 hx).1)
  · obtain ⟨o, ho⟩ := Option.isSome_iff_exists.1 hobj
    exact .inr (Finmap.mem_of_lookup_eq_some (Option.mem_filter_iff.1 ho).1)

lemma listsSlot_of_indexed (h : Indexed slotFunc s.tiers) (slot : UInt16) :
    s.ListsSlot S slotFunc slot ↔ ∀ key, slotFunc key = slot → ¬ s.WarmOnly key := by
  obtain ⟨hot, hkeys, -⟩ := @keysInSlot_run S.logical s.now s.tiers.hot slot
  constructor
  · rintro ⟨keys, hot', hkeys', -, hmem, -⟩ key rfl ⟨hwarm, hcold⟩
    obtain rfl : slotKeys s.tiers.hot (slotFunc key) s.now = keys :=
      congrArg Prod.fst (Except.ok.inj (hkeys.symm.trans hkeys'))
    have hlst := (hmem key).2 ⟨rfl, readable_iff.2 (.inr hwarm)⟩
    rw [mem_slotKeys h, hcold] at hlst
    exact absurd hlst.2 (by simp)
  · intro hnone
    have hmem : ∀ key, key ∈ slotKeys s.tiers.hot slot s.now ↔ slotFunc key = slot ∧ s.Readable S key := by
      intro key
      rw [mem_slotKeys h, readable_iff]
      refine and_congr_right fun hkey => ⟨.inl, fun hread => ?_⟩
      by_contra hcold
      exact hnone key hkey ⟨hread.resolve_left hcold, by simpa using hcold⟩
    have hnd : (slotKeys s.tiers.hot slot s.now).Nodup :=
      (Finset.sort_nodup _ _).filter _
    refine ⟨_, hot, hkeys, hnd, hmem, ?_⟩
    have hset : { key | slotFunc key = slot ∧ s.Readable S key } =
        ((slotKeys s.tiers.hot slot s.now).toFinset : Set Bytes) := by
      ext key
      simp [hmem]
    rw [hset, Set.ncard_coe_finset, List.toFinset_card_of_nodup hnd]

/-- Cluster mode with one slot for every key. -/
def oneSlotSetup : Setup where
  logical := { smallHot with slotFunc := some fun _ => 0 }
  batchSize := 1
  marshal _ := none

def hotString : TieredNode where
  tiers := ⟨⟨(∅ : Cache).insert [97] (.entry (writtenEntry [1] 0 0)),
    (∅ : GoMap UInt16 (Finset Bytes)).insert 0 {[97]}, ∅⟩, ∅⟩
  now := 0

def warmString : TieredNode where
  tiers := ⟨⟨∅, ∅, ∅⟩, (∅ : Warm).insert [97] ⟨⟨.string [1], none⟩, none⟩⟩
  now := 0

lemma set_hotString : step oneSlotSetup (fun _ => .ok []) (start ∅ 0) (.set [97] [1] 0) = .ok hotString := rfl

lemma demote_hotString : step oneSlotSetup (fun _ => .ok []) hotString (.demote [97]) = .ok warmString := rfl

end TieredNode

end AutoCache.Tiered
