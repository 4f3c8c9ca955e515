import AutoCache.Tiered.Manager

/-!
# What the tiers show

At a moment the hot tier shows its live keys and the warm tier the items a transaction sees. What the
manager does is a function of that, except for what it counts as deleted, and for the time to live of a
key that no read finds.
-/

namespace AutoCache

open Store Function

namespace World

variable (w : World) (key : Bytes) (now : Int)

/-- What `GetEntry` of the hot tier returns. -/
def engineEntry : Option Tiered.EngineEntry :=
  match (w key).str with
  | some slot =>
    some ⟨.string slot.text, (slot.ttl now).bind fun ttl => if ttl > 0 then some (now + ttl) else none⟩
  | none =>
    (w key).obj.map fun o => ⟨.object o.value, if o.expireAt > 0 then some o.expireAt else none⟩

end World

namespace Store

variable {L : LogicalConfig} {key : Bytes} {now : Int} {s : Store Cache}

/-- On a live string `GetEntry` changes nothing at all. -/
lemma engineEntry_of_live {slot : Slot} (h : (s.live now key).str = some slot) :
    engineEntry L.engine key now s = .ok ((s.live now).engineEntry key now, s) := by
  unfold engineEntry
  rw [Views.run_bind (cacheGet_of_live h)]
  dsimp only
  rw [Views.run_bind (cacheTTL_of_live h)]
  simp only [World.engineEntry, h]
  cases slot.ttl now <;> rfl

lemma engineEntry_acts : Acts now id (engineEntry L.engine key now) fun w => (w.engineEntry key now, w) := by
  intro s
  cases h : (s.live now key).str with
  | some slot => exact ⟨(s.live now).engineEntry key now, s, engineEntry_of_live h, rfl⟩
  | none =>
    obtain ⟨s', hget, hlive⟩ := (@cacheGet_acts L key now).run s
    rw [h] at hget
    obtain ⟨s'', hobj, hlive'⟩ := (@objectGet_acts key now).run s'
    rw [hlive] at hobj hlive'
    refine ⟨(s.live now).engineEntry key now, s'', ?_, by rw [hlive']; rfl⟩
    unfold engineEntry
    rw [Views.run_bind hget]
    dsimp only [Option.map_none]
    rw [Views.run_bind hobj]
    simp only [World.engineEntry, h]
    rfl

end Store

namespace Tiered

open Views

/-! ## The warm tier -/

/-- The items a transaction sees. -/
def Warm.seen (now : Int) (warm : Warm) : Bytes → Option Item := fun key => warm.txnGet key now

section Warm

variable {warm : Warm} {key : Bytes} {now : Int}

open Warm

lemma Warm.seen_insert {item : Item} : seen now (warm.insert key item) =
      update (seen now warm) key (if item.Visible now then some item else none) := by
  funext k
  by_cases hk : k = key
  · subst hk
    by_cases hv : item.Visible now <;> simp [seen, txnGet, hv]
  · simp [seen, txnGet, hk, Finmap.lookup_insert_of_ne _ hk]

lemma Warm.seen_erase : seen now (warm.erase key) = update (seen now warm) key none := by
  funext k
  by_cases hk : k = key
  · subst hk
    simp [seen, txnGet]
  · simp [seen, txnGet, hk, Finmap.lookup_erase_ne hk]

lemma visible_deadline {entry : EngineEntry} {ttl : Int} : Item.Visible now ⟨entry, Warm.deadline ttl now⟩ := by
  intro t ht
  unfold Warm.deadline at ht
  split at ht
  · cases ht
    omega
  · cases ht

lemma Warm.seen_del (keys : List Bytes) :
    seen now (del now keys warm).2 = fun k => if k ∈ keys then none else seen now warm k := by
  induction keys generalizing warm with
  | nil => simp [del]
  | cons key keys ih =>
    cases h : warm.txnGet key now with
    | none =>
      simp only [del, h, ih]
      funext k
      by_cases hk : k = key
      · subst hk
        simp [seen, h]
      · simp [hk]
    | some item =>
      simp only [del, h, ih, seen_erase]
      funext k
      by_cases hk : k = key <;> simp [hk]

/-- `Expire` on what is seen. -/
def seenExpire (now : Int) (key : Bytes) (ttl : Int) (seen : Bytes → Option Item) :
    Bool × (Bytes → Option Item) :=
  match seen key with
  | none => (false, seen)
  | some item =>
    (true, update seen key (if 0 < ttl then some ⟨item.entry, some (now + ttl)⟩ else none))

lemma Warm.seen_expire {ttl : Int} : seenExpire now key ttl (seen now warm) =
    ((warm.expire key now ttl).1, seen now (warm.expire key now ttl).2) := by
  unfold seenExpire expire
  rw [show seen now warm key = warm.txnGet key now from rfl]
  cases warm.txnGet key now with
  | none => rfl
  | some item =>
    have hvis : Item.Visible now ⟨item.entry, some (now + ttl)⟩ ↔ 0 < ttl := by
      simp [Item.Visible]
    rw [seen_insert, if_congr hvis rfl rfl]

/-- `Persist` on what is seen. -/
def seenPersist (key : Bytes) (seen : Bytes → Option Item) : Bool × (Bytes → Option Item) :=
  match seen key with
  | none => (false, seen)
  | some item => (item.expiresAt.isSome, update seen key (some ⟨item.entry, none⟩))

lemma Warm.seen_persist : seenPersist key (seen now warm) =
    ((warm.persist key now).1, seen now (warm.persist key now).2) := by
  unfold seenPersist persist
  rw [show seen now warm key = warm.txnGet key now from rfl]
  cases hget : warm.txnGet key now with
  | none => rfl
  | some item =>
    obtain ⟨entry, expiresAt⟩ := item
    cases expiresAt with
    | none =>
      have hself : update (seen now warm) key (some ⟨entry, none⟩) = seen now warm :=
        update_eq_self_iff.2 hget.symm
      simp [hself]
    | some t =>
      have hvis : Item.Visible now ⟨entry, none⟩ := by simp [Item.Visible]
      rw [seen_insert, if_pos hvis]
      rfl

end Warm

/-! ## Both tiers -/

/-- What both tiers show at a moment. -/
@[ext]
structure TierView where
  hot : World
  warm : Bytes → Option Item

def Tiers.view (now : Int) (s : Tiers Cache) : TierView := ⟨s.hot.live now, Warm.seen now s.warm⟩

/-- Time passes. -/
def TierView.later (v : TierView) (t : Int) : TierView :=
  ⟨v.hot.later t, fun k => (v.warm k).filter (Item.Visible t)⟩

open Tiers

lemma Tiers.view_later {now t : Int} (h : now ≤ t) (s : Tiers Cache) : s.view t = (s.view now).later t := by
  have hwarm : Warm.seen t s.warm = fun k => (Warm.seen now s.warm k).filter (Item.Visible t) := by
    funext k
    simp only [Warm.seen, Warm.txnGet, Option.filter_filter]
    congr 1
    funext item
    have himp : item.Visible t → item.Visible now := fun hv d hd => lt_of_le_of_lt h (hv d hd)
    by_cases hv : item.Visible t
    · simp [hv, himp hv]
    · simp [hv]
  simp only [view, TierView.later, live_later h, hwarm]

namespace TierView

variable (v : TierView) (now : Int) (key : Bytes)

def get : Except TierError Bytes :=
  match v.hot.get key with
  | .ok value => .ok value
  | .error _ => (v.warm key).elim (.error .keyNotFound) fun item => stringEntryValue item.entry

/-- `GetEntry`: the value, the type and the deadline of a key. -/
def entry : Option EngineEntry := (v.hot.engineEntry key now).or ((v.warm key).map Item.entry)

def set (size : RingSize) (value : Bytes) (ttl : Int) : Except TierError Unit × TierView :=
  let r := v.hot.set size key value ttl now
  (r.1.mapError .hot, { v with hot := r.2 })

def del (keys : List Bytes) : TierView where
  hot := v.hot.del keys
  warm := fun k => if k ∈ keys then none else v.warm k

def expire (ttl : Int) : Bool × TierView :=
  match v.hot.expire key ttl now with
  | (true, hot) => (true, { v with hot })
  | (false, hot) => ((seenExpire now key ttl v.warm).1, ⟨hot, (seenExpire now key ttl v.warm).2⟩)

def persist : Bool × TierView :=
  match v.hot.expire key 0 now with
  | (true, hot) => (true, { v with hot })
  | (false, hot) => ((seenPersist key v.warm).1, ⟨hot, (seenPersist key v.warm).2⟩)

/-- `demoteKey`. -/
def demote : Bool × TierView :=
  match v.hot.engineEntry key now with
  | none => (false, v)
  | some entry =>
    if ∃ t ∈ entry.expireAt, Store.timeUntil t now ≤ 0 then (false, v)
    else
      let t := Warm.deadline (entryTTL now entry) now
      (true, ⟨v.hot.del [key], update v.warm key (some ⟨⟨entry.value, t⟩, t⟩)⟩)

/-- The promotion of a key. -/
def promote (size : RingSize) : Bool × TierView :=
  match v.hot.get key, v.warm key with
  | .error _, some item =>
    match stringEntryValue item.entry with
    | .error _ => (false, v)
    | .ok value =>
      match v.hot.set size key value (entryTTL now item.entry) now with
      | (.error _, hot) => (false, { v with hot })
      | (.ok (), hot) => (true, ⟨hot, update v.warm key none⟩)
  | _, _ => (false, v)

def evict : TierView := { v with hot := v.hot.setStr key none }

end TierView

section Reads

variable {v : TierView} {key : Bytes} {now : Int}

lemma TierView.get_hot {slot : Slot} (h : (v.hot key).str = some slot) : v.get key = .ok slot.text := by
  simp only [TierView.get, World.get, h]

lemma TierView.get_cold (h : v.hot key = ⟨none, none⟩) :
    v.get key = (v.warm key).elim (.error .keyNotFound) fun item => stringEntryValue item.entry := by
  simp [TierView.get, World.get, h]

lemma TierView.entry_hot {slot : Slot} (h : (v.hot key).str = some slot) :
    ∃ t, v.entry now key = some ⟨.string slot.text, t⟩ := by
  simp [TierView.entry, World.engineEntry, h]

lemma TierView.entry_cold (h : v.hot key = ⟨none, none⟩) : v.entry now key = (v.warm key).map Item.entry := by
  simp [TierView.entry, World.engineEntry, h]

end Reads

section Simulation

variable {L : LogicalConfig} {now : Int} {key value : Bytes}

lemma hotCall_simulates {α β : Type} {π : α → β} {x : StoreM Cache α} {f : World → β × World}
    (h : Acts now π x f) : Simulates (view now) π (hotCall x) fun v => ((f v.hot).1, { v with hot := (f v.hot).2 }) := by
  intro s
  obtain ⟨a, hot, hs, hf⟩ := h s.hot
  refine ⟨a, { s with hot }, ?_, ?_⟩
  · change (x s.hot >>= fun p => _) = _
    rw [hs]
    rfl
  · simp only [view, hf]

lemma warmCall_simulates {α β : Type} {π : α → β} {f : Warm → α × Warm}
    {g : (Bytes → Option Item) → β × (Bytes → Option Item)}
    (h : ∀ warm, g (Warm.seen now warm) = (π (f warm).1, Warm.seen now (f warm).2)) :
    Simulates (view now) π (warmCall (σ := Cache) f) fun v => ((g v.warm).1, { v with warm := (g v.warm).2 }) :=
  fun s => ⟨(f s.warm).1, { s with warm := (f s.warm).2 }, rfl, by simp only [view, h]⟩

lemma warmGet_simulates : Simulates (view now) id
    (warmCall (σ := Cache) fun warm => (warm.get key now, warm)) fun v => ((v.warm key).map Item.entry, v) :=
  fun s => ⟨s.warm.get key now, s, rfl, rfl⟩

lemma warmSet_simulates {value : Value} {ttl : Int} : Simulates (view now) id
    (warmCall (σ := Cache) fun warm => ((), warm.set key now value ttl)) fun v =>
        let deadline := Warm.deadline ttl now
        ((), { v with warm := update v.warm key (some ⟨⟨value, deadline⟩, deadline⟩) }) :=
  warmCall_simulates (g := fun seen => ((), update seen key
    (some ⟨⟨value, Warm.deadline ttl now⟩, Warm.deadline ttl now⟩))) fun warm => by rw [Warm.set, Warm.seen_insert, if_pos visible_deadline]

lemma warmDel_simulates : Simulates (view now) (fun _ => ()) (warmCall (σ := Cache) (Warm.del now [key]))
      fun v => ((), { v with warm := update v.warm key none }) :=
  warmCall_simulates (g := fun seen => ((), update seen key none)) fun warm => by
    rw [Warm.seen_del]
    refine Prod.ext rfl (funext fun k => ?_)
    by_cases hk : k = key <;> simp [hk]

open Simulates

lemma get_simulates : Simulates (view now) id (get L.engine now key) fun v => (v.get key, v) := by
  refine (bind (g := fun r v => match r with
    | .ok value => (.ok value, v)
    | .error _ => ((v.warm key).elim (.error .keyNotFound) fun item => stringEntryValue item.entry, v))
    (hotCall_simulates get_acts) fun r => ?_).congr fun v => ?_
  · cases r with
    | ok value => exact .pure _
    | error e =>
      refine (bind (g := fun entry v =>
        (entry.elim (.error .keyNotFound) stringEntryValue, v)) warmGet_simulates fun entry => ?_).congr
        fun v => ?_
      · cases entry <;> exact .pure _
      · cases v.warm key <;> rfl
  · unfold TierView.get
    cases v.hot.get key <;> rfl

lemma getEntry_simulates : Simulates (view now) id (getEntry L.engine now key) fun v => (v.entry now key, v) := by
  refine (bind (g := fun r v => (r.or ((v.warm key).map Item.entry), v))
    (hotCall_simulates engineEntry_acts) fun r => ?_).congr fun v => ?_
  · cases r with
    | some entry => exact .pure _
    | none => exact warmGet_simulates
  · unfold TierView.entry
    cases v.hot.engineEntry key now <;> rfl

lemma set_simulates {ttl : Int} : Simulates (view now) id (set L.engine now key value ttl)
    fun v => v.set now key L.size value ttl :=
  bind (g := fun (r : Except StoreError Unit) v => (r.mapError TierError.hot, v))
    (hotCall_simulates set_acts) fun _ => .pure _

lemma del_simulates {keys : List Bytes} :
    Simulates (view now) (fun _ => ()) (del L.engine now keys) fun v => ((), v.del keys) := by
  have hwarm : Simulates (view now) (fun _ => ()) (warmCall (σ := Cache) (Warm.del now keys))
      fun v => ((), { v with warm := fun k => if k ∈ keys then none else v.warm k }) :=
    warmCall_simulates (g := fun seen => ((), fun k => if k ∈ keys then none else seen k)) fun warm => by
      rw [Warm.seen_del]
  exact (hotCall_simulates (del_acts keys)).seq fun n => hwarm.seq fun m => .pure (n + m)

/-- `Expire` and `Persist` go on to the warm tier if the hot one does not have the key. -/
lemma orWarm_simulates {ttl : Int} {x : StoreM Cache Bool} {f : Warm → Bool × Warm}
    {g : (Bytes → Option Item) → Bool × (Bytes → Option Item)} (hx : Acts now id x fun w => w.expire key ttl now)
    (hg : ∀ warm, g (Warm.seen now warm) = ((f warm).1, Warm.seen now (f warm).2)) :
    Simulates (view now) id (do if ← hotCall x then return true else warmCall f) fun v =>
      match v.hot.expire key ttl now with
      | (true, hot) => (true, { v with hot })
      | (false, hot) => ((g v.warm).1, ⟨hot, (g v.warm).2⟩) := by
  refine (bind (g := fun (r : Bool) v => match r with
    | true => (true, v)
    | false => ((g v.warm).1, { v with warm := (g v.warm).2 })) (hotCall_simulates hx) fun r => ?_).congr fun v => ?_
  · cases r with
    | true => exact .pure true
    | false => exact warmCall_simulates hg
  · rcases v.hot.expire key ttl now with ⟨r, hot⟩
    cases r <;> rfl

lemma expire_simulates {ttl : Int} : Simulates (view now) id (expire L.engine now key ttl)
    fun v => v.expire now key ttl := orWarm_simulates expire_acts fun _ => Warm.seen_expire

lemma persist_simulates : Simulates (view now) id (persist L.engine now key) fun v => v.persist now key :=
  orWarm_simulates persist_acts fun _ => Warm.seen_persist

lemma evict_simulates : Simulates (view now) (fun _ => ()) (evict L.engine key) fun v => ((), v.evict key) :=
  hotCall_simulates cacheDelete_acts

lemma demote_simulates : Simulates (view now) id (demoteKey L.engine now key) fun v => v.demote now key := by
  refine (bind (g := fun (r : Option EngineEntry) v => match r with
    | none => (false, v)
    | some entry =>
      if ∃ t ∈ entry.expireAt, timeUntil t now ≤ 0 then (false, v)
      else
        let t := Warm.deadline (entryTTL now entry) now
        (true, ⟨v.hot.del [key], update v.warm key (some ⟨⟨entry.value, t⟩, t⟩)⟩))
    (hotCall_simulates engineEntry_acts) fun r => ?_).congr fun v => ?_
  · cases r with
    | none => exact .pure false
    | some entry =>
      dsimp only [id]
      split
      · exact .pure false
      · exact warmSet_simulates.seq fun _ => (hotCall_simulates (del_acts [key])).seq fun _ => .pure true
  · unfold TierView.demote
    cases v.hot.engineEntry key now <;> rfl

lemma promote_simulates : Simulates (view now) id (promote L.engine now key) fun v => v.promote now key L.size := by
  -- the write to the hot tier, and the deletion from the warm one if it went well
  let finish (value : Bytes) (ttl : Int) (v : TierView) : Bool × TierView :=
    match v.hot.set L.size key value ttl now with
    | (.error _, hot) => (false, { v with hot })
    | (.ok (), hot) => (true, ⟨hot, update v.warm key none⟩)
  refine (bind (g := fun (r : Except StoreError Bytes) v => match r with
    | .ok _ => (false, v)
    | .error _ => match v.warm key with
      | none => (false, v)
      | some item => match stringEntryValue item.entry with
        | .error _ => (false, v)
        | .ok value => finish value (entryTTL now item.entry) v)
    (hotCall_simulates get_acts) fun r => ?_).congr fun v => ?_
  · cases r with
    | ok value => exact .pure false
    | error e =>
      refine (bind (g := fun (r : Option EngineEntry) v => match r with
        | none => (false, v)
        | some entry => match stringEntryValue entry with
          | .error _ => (false, v)
          | .ok value => finish value (entryTTL now entry) v) warmGet_simulates fun r => ?_).congr
        fun v => ?_
      · cases r with
        | none => exact .pure false
        | some entry =>
          dsimp only [id]
          cases stringEntryValue entry with
          | error e => exact .pure false
          | ok value =>
            refine (bind (g := fun (r : Except StoreError Unit) v =>
              if r.isOk then (true, { v with warm := update v.warm key none }) else (false, v))
              (hotCall_simulates set_acts) fun r => ?_).congr fun v => ?_
            · cases r with
              | error e => exact .pure false
              | ok u => exact warmDel_simulates.seq fun _ => .pure true
            · dsimp only [finish]
              rcases v.hot.set L.size key value (entryTTL now entry) now with ⟨r, hot⟩
              cases r <;> rfl
      · cases v.warm key <;> rfl
  · unfold TierView.promote
    cases v.hot.get key with
    | ok value => rfl
    | error e => cases v.warm key <;> rfl

end Simulation

def smallHot : LogicalConfig where
  size := ⟨Ring.minRingBufferSize, Int.le_refl _⟩
  slotFunc := none
  unmarshal _ _ := .error "unexpected end of JSON input"

end Tiered

end AutoCache
