import AutoCache.Persistence.Saved
import AutoCache.Store.CollectionCalls

/-!
# What survives a restart

Every write that reaches the queue keeps each key saved, and so does one that changes nothing in
memory. A run of such commands, with flushes and waits in between, can be loaded again once the queue
is empty.
-/

namespace AutoCache.Persistence

open Tiered Hoare Views Store World Triple Option Manager List

/-- Every key is saved, and the clock is in its range. -/
structure Process.Safe (S : Setup) (now : Int) (s : Process) : Prop where
  now_eq : s.now = now
  clock : 0 ≤ now ∧ now < 2 ^ 63 - 1
  saved : ∀ key, Saved S now (s.tiers.hot.live now) s.tiers.warm s.queue key

namespace Process

section Programs

variable {α β : Type} {S : Setup} {now ttl : Int} {key value : Bytes} {s s' : Process}

/-! ## Programs on the tiers -/

/-- The call changes memory only, and what is live there by `f`. -/
def OnHot (now : Int) (x : TierM Cache α) (f : World → World) : Prop :=
  ∀ t a t', x t = .ok (a, t') → t'.warm = t.warm ∧ t'.hot.live now = f (t.hot.live now)

abbrev Still (now : Int) (x : TierM Cache α) : Prop := OnHot now x fun w => w

variable {x : TierM Cache α} {marshal : TypedValue → Go Bytes}

lemma onTiers_ok {a : α} (h : onTiers x s = .ok (a, s')) : ∃ t, x s.tiers = .ok (a, t) ∧ s' = { s with tiers := t } := by
  obtain ⟨p, hx, h⟩ := Go.bind_eq_ok.1 h
  cases h
  exact ⟨p.2, hx, rfl⟩

lemma hotCall_ok {x : StoreM Cache α} {t t' : Tiers Cache} {a : α} (h : hotCall x t = .ok (a, t')) :
    ∃ hot, x t.hot = .ok (a, hot) ∧ t' = { t with hot } := by
  obtain ⟨p, hx, h⟩ := Go.bind_eq_ok.1 h
  cases h
  exact ⟨p.2, hx, rfl⟩

namespace OnHot

lemma pure (a : α) : Still now (Pure.pure a : TierM Cache α) := by
  intro t b t' h
  cases h
  exact ⟨rfl, rfl⟩

lemma bind {x : TierM Cache α} {y : α → TierM Cache β} {f g : World → World} (hx : OnHot now x f)
    (hy : ∀ a, OnHot now (y a) g) : OnHot now (x >>= y) fun w => g (f w) := by
  intro t b t'' h
  obtain ⟨p, hrun, h⟩ := Go.bind_eq_ok.1 h
  obtain ⟨hwarm, hlive⟩ := hx t p.1 p.2 hrun
  obtain ⟨hwarm', hlive'⟩ := hy p.1 p.2 b t'' h
  exact ⟨hwarm'.trans hwarm, hlive'.trans (congrArg g hlive)⟩

lemma hotCall {π : α → β} {x : StoreM Cache α} {f : World → β × World} (hx : Acts now π x f) :
    OnHot now (hotCall x) fun w => (f w).2 := by
  intro t a t' h
  obtain ⟨hot, hrun, rfl⟩ := hotCall_ok h
  obtain ⟨b, u, hrun', hlive⟩ := hx t.hot
  cases hrun'.symm.trans hrun
  exact ⟨rfl, (congrArg Prod.snd hlive).symm⟩

lemma still {x : TierM Cache α} {y : α → TierM Cache β} (hx : Still now x) (hy : ∀ a, Still now (y a)) :
    Still now (x >>= y) := hx.bind hy

lemma quiet {x : StoreM Cache α} (hx : Quiet now x) : Still now (Tiered.hotCall x) := hotCall hx

lemma warmRead {g : Warm → α} : Still now (warmCall (σ := Cache) fun warm => (g warm, warm)) := by
  intro t a t' h
  cases h
  exact ⟨rfl, rfl⟩

end OnHot

lemma still_get : Still now (get S.logical.engine now key) := by
  refine OnHot.still (.quiet (.of_acts get_acts)) fun r => ?_
  cases r with
  | ok value => exact .pure _
  | error e =>
    refine OnHot.still .warmRead fun entry => ?_
    cases entry <;> exact .pure _

lemma still_getEntry : Still now (getEntry S.logical.engine now key) := by
  refine OnHot.still (.quiet (.of_acts engineEntry_acts)) fun r => ?_
  cases r with
  | some entry => exact .pure _
  | none => exact .warmRead

lemma still_exists : Still now (existsKeys S.logical.engine now [key]) :=
  OnHot.still still_getEntry fun _ => OnHot.still (.pure 0) fun _ => .pure _

lemma still_ttl : Still now (Tiered.ttl S.logical.engine now key) := by
  refine OnHot.still (.quiet ttl_quiet) fun r => ?_
  split
  · exact .pure _
  · refine OnHot.still .warmRead fun ttl => ?_
    cases ttl <;> exact .pure _

lemma Safe.congr {t : Tiers Cache} (hs : Safe S now s) (hwarm : t.warm = s.tiers.warm)
    (hlive : t.hot.live now = s.tiers.hot.live now) : Safe S now { s with tiers := t } := by
  refine ⟨hs.now_eq, hs.clock, fun key => ?_⟩
  rw [hwarm, hlive]
  exact hs.saved key

/-- A call that changes nothing in memory where it is made. -/
lemma unchanged_safe {f : World → World} (hx : OnHot now x f) :
    Triple (fun s => Safe S now s ∧ f (s.tiers.hot.live now) = s.tiers.hot.live now) (onTiers x) fun _ => Safe S now := by
  rintro s a s' ⟨hs, hsame⟩ h
  obtain ⟨t, hrun, rfl⟩ := onTiers_ok h
  obtain ⟨hwarm, hlive⟩ := hx _ _ _ hrun
  exact hs.congr hwarm (hlive.trans hsame)

lemma still_safe (hx : Still now x) : Triple (Safe S now) (onTiers x) fun _ => Safe S now :=
  (unchanged_safe hx).pre fun _ h => ⟨h, rfl⟩

lemma still_keeps (hx : Still now x) (R : World → Prop) :
    Triple (fun s => Safe S now s ∧ R (s.tiers.hot.live now)) (onTiers x) fun _ s =>
      Safe S now s ∧ R (s.tiers.hot.live now) := by
  rintro s a s' ⟨hs, hR⟩ h
  refine ⟨still_safe hx s a s' hs h, ?_⟩
  obtain ⟨t, hrun, rfl⟩ := onTiers_ok h
  rw [(hx _ _ _ hrun).2]
  exact hR

lemma read_safe {g : TierView → α} (hx : Still now x) (hread : Simulates (Tiers.view now) id x fun v => (g v, v)) :
    Triple (Safe S now) (onTiers x) fun a s => Safe S now s ∧ a = g (s.tiers.view now) := by
  intro s a s' hs h
  refine ⟨still_safe hx s a s' hs h, ?_⟩
  obtain ⟨t, hrun, rfl⟩ := onTiers_ok h
  obtain ⟨t', hrun', hview⟩ := hread.run s.tiers
  cases hrun'.symm.trans hrun
  rw [hview]

/-! ## Writes that are queued -/

/-- A string does not cover a collection that comes back when it expires. -/
def CoversNothing (key : Bytes) (ttl : Int) (k : KeyState) : Prop := k.obj = none ∨ ttl ≤ 0 ∧ Readable key

lemma set_ok {r : Except TierError Unit} (h : set S now key value ttl s = .ok (r, s')) :
    ∃ hot, hot.live now = ((s.tiers.hot.live now).set S.logical.size key value ttl now).2 ∧ s' = { s with
        tiers := { s.tiers with hot }
        queue := s.queue ++ if Cache.TooLarge S.logical.size key value then []
          else [.set key ⟨.string value, Warm.deadline ttl now⟩] } := by
  obtain ⟨hot, hrun, hlive⟩ := (@set_acts S.logical key value ttl now).run s.tiers.hot
  refine ⟨hot, hlive, ?_⟩
  have hcall : onTiers (Tiered.set S.logical.engine now key value ttl) s =
      .ok (((s.tiers.hot.live now).set S.logical.size key value ttl now).1.mapError .hot,
        { s with tiers := { s.tiers with hot } }) := by
    unfold onTiers Tiered.set
    rw [run_bind (hotCall_run hrun)]
    rfl
  unfold set at h
  rw [run_bind hcall] at h
  by_cases hlarge : Cache.TooLarge S.logical.size key value
  · simp only [World.set, if_pos hlarge, Except.mapError] at h
    cases h
    simp [hlarge]
  · simp only [World.set, if_neg hlarge, Except.mapError] at h
    cases h
    simp [hlarge]

lemma set_safe : Triple (fun s => Safe S now s ∧ CoversNothing key ttl (s.tiers.hot.live now key) ∧ ttl < 2 ^ 63)
    (set S now key value ttl) fun _ => Safe S now := by
  rintro s r s' ⟨hs, hcovers, httl⟩ h
  obtain ⟨hot, hlive, rfl⟩ := set_ok h
  refine ⟨hs.now_eq, hs.clock, fun k => ?_⟩
  rw [hlive]
  have hsaved := hs.saved k
  by_cases hlarge : Cache.TooLarge S.logical.size key value
  · have hsame : ((s.tiers.hot.live now).set S.logical.size key value ttl now).2 = s.tiers.hot.live now := by
      have hfilter : (s.tiers.hot.live now key).str.filter (!·.isCounter) = (s.tiers.hot.live now key).str := by
        cases hstr : (s.tiers.hot.live now key).str with
        | none => rfl
        | some slot => simp [(hs.saved key).noCounter slot hstr]
      simp only [World.set, if_pos hlarge, hfilter, World.setStr_self]
    rw [hsame, if_pos hlarge, append_nil]
    exact hsaved
  · simp only [World.set, if_neg hlarge]
    by_cases hk : k = key
    · subst hk
      refine Saved.push (.set k ⟨.string value, Warm.deadline ttl now⟩) ?_ ?_ (agrees_string hs.clock.1 httl hlarge hcovers)
      · intro slot hslot
        simp only [WriteOp.key, World.putStr, World.setStr_apply, if_true, freshSlot_entry] at hslot
        split at hslot
        · cases hslot
          rfl
        · cases hslot
      · intro o ho
        simp only [WriteOp.key, World.putStr, World.setStr_apply, if_true] at ho
        exact hsaved.undated o ho
    · refine hsaved.frame ?_ rfl ?_
      · simp [World.putStr, World.setStr_apply, hk]
      · rintro ⟨op, hop, hkey⟩
        rw [mem_singleton.1 hop] at hkey
        exact hk hkey.symm

lemma pushDels_eq (keys : List Bytes) : pushDels keys s = .ok ((), { s with queue := s.queue ++ keys.map .del }) := by
  induction keys generalizing s with
  | nil => simp [pushDels]; rfl
  | cons key keys ih =>
    change pushDels keys { s with queue := s.queue ++ [.del key] } = _
    rw [ih]
    simp

lemma leaves_dels (keys : List Bytes) : leaves (keys.map .del) = fun _ => none := by
  induction keys with
  | nil => rfl
  | cons key keys ih =>
    have hfirst : WriteOp.write (fun _ => none) (.del key) = fun _ => none := Function.update_eq_self key _
    change written (keys.map .del) (WriteOp.write (fun _ => none) (.del key)) = _
    rw [hfirst]
    exact ih

lemma lookup_del_of_not_mem (keys : List Bytes) (warm : Warm) {k : Bytes} (hk : k ∉ keys) :
    (Warm.del now keys warm).2.lookup k = warm.lookup k := by
  induction keys generalizing warm with
  | nil => rfl
  | cons key keys ih =>
    have hne : k ≠ key := ne_of_not_mem_cons hk
    have hrest : k ∉ keys := not_mem_of_not_mem_cons hk
    unfold Warm.del
    cases warm.txnGet key now with
    | none => exact ih _ hrest
    | some item =>
      rw [ih _ hrest, Finmap.lookup_erase_ne hne]

lemma del_safe (gone : List Bytes) {keys : List Bytes} :
    Triple (fun s => Safe S now s ∧ ∀ k ∈ gone, s.tiers.hot.live now k = .gone) (del S now keys) fun _ s =>
      Safe S now s ∧ ∀ k ∈ gone ++ keys, s.tiers.hot.live now k = .gone := by
  rintro s r s' ⟨hs, hbefore⟩ h
  obtain ⟨n, hot, hdel, hlive⟩ := @del_acts S.logical now keys s.tiers.hot
  have hcall : onTiers (Tiered.del S.logical.engine now keys) s = .ok (n + (Warm.del now keys s.tiers.warm).1,
        { s with tiers := ⟨hot, (Warm.del now keys s.tiers.warm).2⟩ }) := by
    unfold onTiers Tiered.del
    rw [run_bind (hotCall_run hdel)]
    rfl
  unfold del at h
  rw [run_bind hcall, run_bind (pushDels_eq keys)] at h
  cases h
  have hw : hot.live now = (s.tiers.hot.live now).del keys := (Prod.mk.inj hlive).2.symm
  have hgone (k : Bytes) (hk : k ∈ keys) : hot.live now k = .gone := by
    rw [hw, del_apply, if_pos hk]
    rfl
  refine ⟨⟨hs.now_eq, hs.clock, fun k => ?_⟩, fun k hk => ?_⟩
  swap
  · by_cases hmem : k ∈ keys
    · exact hgone k hmem
    · rw [hw, del_apply, if_neg hmem]
      exact hbefore k ((mem_append.1 hk).resolve_right hmem)
  by_cases hk : k ∈ keys
  · refine Saved.queued ?_ ?_ ⟨.del k, mem_map_of_mem hk, rfl⟩ ?_
    · rw [hgone k hk]
      exact nofun
    · rw [hgone k hk]
      exact nofun
    · rw [leaves_dels]
      exact agrees_gone (hgone k hk)
  · refine (hs.saved k).frame ?_ (lookup_del_of_not_mem keys _ hk) ?_
    · rw [hw, del_apply, if_neg hk]
    · rintro ⟨op, hop, hkey⟩
      obtain ⟨k', hk', rfl⟩ := mem_map.1 hop
      exact hk (hkey ▸ hk')

lemma entry_eq_none (v : TierView) (h : v.entry now key = none) : (v.hot key).obj = none := by
  rw [TierView.entry, or_eq_none_iff] at h
  have hent := h.1
  unfold World.engineEntry at hent
  cases hstr : (v.hot key).str with
  | some slot => simp [hstr] at hent
  | none => simpa [hstr] using hent

lemma setNX_safe (httl : ttl < 2 ^ 63) : Triple (Safe S now) (setNX S now key value ttl) fun _ => Safe S now := by
  refine bind (read_safe still_exists (existsKeys_simulates [key])) fun count => ?_
  split
  · exact .pure fun _ h => h.1
  rename_i hcnt
  refine bind (set_safe.pre fun s h => ⟨h.1, .inl ?_, httl⟩) fun _ =>
    .pure fun _ h => h
  have hexists := h.2
  rw [existsKeys_one] at hexists
  refine entry_eq_none (s.tiers.view now) (?_ : TierView.entry _ now key = none)
  cases hent : (s.tiers.view now).entry now key with
  | none => rfl
  | some entry =>
    rw [hent] at hexists
    simp at hexists
    omega

lemma setXX_safe (httl : ttl < 2 ^ 63) : Triple (fun s => Safe S now s ∧ CoversNothing key ttl (s.tiers.hot.live now key))
      (setXX S now key value ttl) fun _ => Safe S now := by
  refine bind (still_keeps still_exists fun w => CoversNothing key ttl (w key)) fun count => ?_
  split
  · exact .pure fun _ h => h.1
  · exact bind (set_safe.pre fun _ h => ⟨h.1, h.2, httl⟩) fun _ =>
      .pure fun _ h => h

lemma write_safe (next : Except TierError (Bytes × α)) : Triple (Safe S now) (match next with
    | .error e => return .error e
    | .ok (value, reply) => do
      let _ ← del S now [key]
      let result ← set S now key value 0
      return result.map fun _ => reply) fun _ => Safe S now := by
  rcases next with e | ⟨value, reply⟩
  · exact .pure fun _ h => h
  · refine bind ((del_safe []).pre fun _ h => ⟨h, by simp⟩)
      fun _ => bind (set_safe.pre fun s h => ⟨h.1, .inl ?_, ?_⟩) fun _ => .pure fun _ h => h
    · rw [h.2 key (mem_singleton_self key)]
      rfl
    · decide

lemma rewrite_safe {next : Option Bytes → Except TierError (Bytes × α)} :
    Triple (Safe S now) (rewrite S now key next) fun _ => Safe S now := by
  refine bind (still_safe still_get) fun r => ?_
  rcases r with e | current
  · cases e with
    | keyNotFound => exact write_safe (next none)
    | _ => exact .pure fun _ h => h
  · exact write_safe (next (some current))

lemma timeLeft_lt (hs : Safe S now s) : s.tiers.timeLeft now key < 2 ^ 63 := by
  have hhidden : (s.tiers.view now).hiddenTTL now key < 2 ^ 63 := by
    unfold TierView.hiddenTTL
    cases hobj : ((s.tiers.view now).hot key).obj with
    | some o =>
      have hzero := (hs.saved key).undated o hobj
      simp [Object.ttl, hzero]
    | none =>
      cases hitem : (s.tiers.view now).warm key with
      | none => simp
      | some item =>
        simp only [bind_none, none_or, bind_some, Item.ttl]
        cases item.expiresAt with
        | none => simp
        | some t =>
          dsimp only
          unfold timeUntil
          split
          · simp
          · simp only [getD_some]
            omega
  unfold Tiers.timeLeft
  cases hslot : (s.tiers.hot.shards.lookup key).bind (Slot.ttl now) with
  | none => exact hhidden
  | some t =>
    obtain ⟨slot, -, hslot⟩ := bind_eq_some_iff.1 hslot
    exact (Slot.ttl_range hslot).2

lemma ttl_safe : Triple (Safe S now) (onTiers (Tiered.ttl S.logical.engine now key)) fun ttl s =>
    Safe S now s ∧ ttl < 2 ^ 63 := by
  intro s ttl s' hs h
  refine ⟨still_safe still_ttl s ttl s' hs h, ?_⟩
  obtain ⟨t, hrun, rfl⟩ := onTiers_ok h
  obtain ⟨t', hrun', -⟩ := @ttl_run S.logical now key s.tiers
  cases hrun'.symm.trans hrun
  exact timeLeft_lt hs

lemma rename_safe {newkey : Bytes} : Triple (fun s => Safe S now s ∧
        ∀ entry ∈ (s.tiers.view now).entry now key, ∃ text, entry.value = .string text)
      (rename S marshal now key newkey) fun _ => Safe S now := by
  have hread : Triple (fun s => Safe S now s ∧ ∀ entry ∈ (s.tiers.view now).entry now key, ∃ text, entry.value = .string text)
      (onTiers (getEntry S.logical.engine now key)) fun r s =>
        Safe S now s ∧ ∀ entry ∈ r, ∃ text, entry.value = .string text := by
    rintro s r s' ⟨hs, hstring⟩ h
    refine ⟨still_safe still_getEntry s r s' hs h, ?_⟩
    obtain ⟨t, hrun, rfl⟩ := onTiers_ok h
    obtain ⟨t', hrun', -⟩ := (@getEntry_simulates S.logical now key).run s.tiers
    cases hrun'.symm.trans hrun
    exact hstring
  refine bind hread fun r => ?_
  cases r with
  | none => exact .pure fun _ h => h.1
  | some entry =>
    obtain ⟨value, deadline⟩ := entry
    cases value with
    | object v =>
      intro s r s' h
      obtain ⟨text, htext⟩ := h.2 _ rfl
      cases htext
    | string text =>
      refine bind (ttl_safe.pre fun _ h => h.1) fun ttl => ?_
      intro s r s' h
      have hprogram : Triple (Safe S now) (do
          let _ ← del S now [newkey]
          let _ ← del S now [key]
          set S now newkey text ttl) fun _ => Safe S now := by
        refine bind ((del_safe []).pre fun _ h => ⟨h, nofun⟩) fun _ => bind (del_safe [newkey]) fun _ => ?_
        refine set_safe.pre fun s hs => ⟨hs.1, .inl ?_, h.2⟩
        rw [hs.2 newkey (by simp)]
        rfl
      exact hprogram s r s' h.1

/-! ## Calls that change nothing in memory -/

/-- The item of a key that memory does not have gets another deadline in the database. -/
lemma Safe.reitem {item : Item} {expiresAt : Option Int} (hs : Safe S now s)
    (hgone : s.tiers.hot.live now key = .gone) (hitem : s.tiers.warm.lookup key = some item) :
    Safe S now { s with
      tiers := { s.tiers with warm := s.tiers.warm.insert key ⟨item.entry, expiresAt⟩ } } := by
  refine ⟨hs.now_eq, hs.clock, fun k => ?_⟩
  by_cases hk : k = key
  · subst hk
    have hentries : entries (s.tiers.warm.insert k ⟨item.entry, expiresAt⟩) k = entries s.tiers.warm k := by
      simp [entries, hitem]
    exact ⟨(hs.saved k).noCounter, (hs.saved k).undated, by
      rw [written_congr hentries]
      exact (hs.saved k).agrees, fun _ _ _ _ _ _ => later_gone_entry hgone⟩
  · exact (hs.saved k).congr rfl (Finmap.lookup_insert_of_ne _ hk)

/-- `Expire` and `Persist` look in the database for a key that memory does not have. -/
lemma gone_of_not_expired (hs : Safe S now s)
    (h : ((s.tiers.hot.live now).expire key ttl now).1 = false) : s.tiers.hot.live now key = .gone := by
  have hctr := (hs.saved key).noCounter
  unfold World.expire World.cacheExpire World.objectExpire at h
  rcases hkey : s.tiers.hot.live now key with ⟨str, obj⟩
  rw [hkey] at h hctr
  cases str with
  | some slot =>
    cases slot with
    | counter n hn => simpa [Slot.isCounter] using hctr _ rfl
    | entry e => simp at h
  | none =>
    cases obj with
    | some o => simp at h
    | none => rfl

lemma deadline_safe {x : StoreM Cache Bool} {g : Warm → Bool × Warm} (hx : Acts now id x fun w => w.expire key ttl now)
    (hg : ∀ warm, (g warm).2 = warm ∨ ∃ item expiresAt, warm.lookup key = some item ∧
      (g warm).2 = warm.insert key ⟨item.entry, expiresAt⟩) :
    Triple (fun s => Safe S now s ∧ ((s.tiers.hot.live now).expire key ttl now).2 = s.tiers.hot.live now)
      (onTiers do if ← hotCall x then return true else warmCall g) fun _ => Safe S now := by
  rintro s r s' ⟨hs, hsame⟩ h
  obtain ⟨t, hrun, rfl⟩ := onTiers_ok h
  obtain ⟨hot, hcall, hlive⟩ := hx.run s.tiers.hot
  rw [run_bind (hotCall_run hcall)] at hrun
  have hsafe : Safe S now { s with tiers := { s.tiers with hot } } := hs.congr rfl (hlive.trans hsame)
  cases hfnd : ((s.tiers.hot.live now).expire key ttl now).1 with rw [hfnd] at hrun
  | true =>
    cases hrun
    exact hsafe
  | false =>
    cases hrun
    have hgone : hot.live now key = .gone := by
      rw [hlive, hsame]
      exact gone_of_not_expired hs hfnd
    rcases hg s.tiers.warm with heq | ⟨item, expiresAt, hitem, heq⟩
    · rw [heq]
      exact hsafe
    · rw [heq]
      exact hsafe.reitem hgone hitem

lemma expire_safe : Triple (fun s => Safe S now s ∧ ((s.tiers.hot.live now).expire key ttl now).2 = s.tiers.hot.live now)
    (onTiers (expire S.logical.engine now key ttl)) fun _ => Safe S now := by
  refine deadline_safe expire_acts fun warm => ?_
  unfold Warm.expire
  cases hitem : warm.txnGet key now with
  | none => exact .inl rfl
  | some item => exact .inr ⟨item, _, (filter_eq_some_iff.1 hitem).1, rfl⟩

lemma persist_safe : Triple (fun s => Safe S now s ∧ ((s.tiers.hot.live now).expire key 0 now).2 = s.tiers.hot.live now)
    (onTiers (persist S.logical.engine now key)) fun _ => Safe S now := by
  refine deadline_safe persist_acts fun warm => ?_
  unfold Warm.persist
  cases hitem : warm.txnGet key now with
  | none => exact .inl rfl
  | some item =>
    dsimp only
    split
    · exact .inl rfl
    · exact .inr ⟨item, _, (filter_eq_some_iff.1 hitem).1, rfl⟩

lemma flushDB_safe : Triple (fun s => Safe S now s ∧ ∀ key, leaves s.queue key = none) (flushDB S) fun _ => Safe S now := by
  rintro s r s' ⟨hs, hqueue⟩ h
  have hrun : flushDB S s = .ok ((), { s with tiers := ⟨⟨∅, ∅, ∅⟩, ∅⟩ }) := rfl
  cases hrun.symm.trans h
  refine ⟨hs.now_eq, hs.clock, fun key =>
    ⟨nofun, nofun, ?_, ?_⟩⟩
  · have hempty : entries (∅ : Warm) = fun _ => none := rfl
    rw [hempty, show written s.queue (fun _ => none) key = none from hqueue key]
    exact agrees_gone rfl
  · intro _ item hitem
    cases hitem

/-! ## Collections -/

/-- What is live under a key is a collection without a deadline, if anything. -/
def OnlyCollection (k : KeyState) : Prop := k.str = none ∧ ∀ o ∈ k.obj, o.expireAt = 0

/-- One key changes at most. If its entry is to be queued, there is a collection or nothing. -/
def Touched (key : Bytes) (queued : Bool) (w w' : World) : Prop :=
  (∀ k, k ≠ key → w' k = w k) ∧
    (queued = true → (∀ o ∈ (w key).obj, o.expireAt = 0) → OnlyCollection (w' key))

def Touches (now : Int) (key : Bytes) (x : StoreM Cache Bool) : Prop :=
  ∀ hot queued hot', x hot = .ok (queued, hot') → Touched key queued (hot.live now) (hot'.live now)

/-- The key is all that is left to save, and there is a collection that can be loaded, or nothing. -/
structure Unsaved (S : Setup) (now : Int) (key : Bytes) (s : Process) : Prop where
  now_eq : s.now = now
  clock : 0 ≤ now ∧ now < 2 ^ 63 - 1
  others : ∀ k, k ≠ key → Saved S now (s.tiers.hot.live now) s.tiers.warm s.queue k
  collection : OnlyCollection (s.tiers.hot.live now key)
  loads : ∀ o ∈ (s.tiers.hot.live now key).obj, S.RoundTrips o.value

lemma Unsaved.push (op : WriteOp) (hs : Unsaved S now op.key s)
    (hagrees : S.Agrees now op.key (s.tiers.hot.live now) op.entry) :
    Safe S now { s with queue := s.queue ++ [op] } := by
  refine ⟨hs.now_eq, hs.clock, fun k => ?_⟩
  by_cases hk : k = op.key
  · subst hk
    refine Saved.push op ?_ hs.collection.2 hagrees
    rw [hs.collection.1]
    exact nofun
  · refine (hs.others k hk).frame rfl rfl fun ⟨op', hop, hkey⟩ => ?_
    rw [mem_singleton.1 hop] at hkey
    exact hk hkey.symm

lemma pushEntry_safe : Triple (Unsaved S now key) (pushEntry S now key) fun _ => Safe S now := by
  refine bind (Q := fun r s => Unsaved S now key s ∧ r = (s.tiers.hot.live now).engineEntry key now) ?_ fun r => ?_
  · intro s r s' hs h
    obtain ⟨t, hrun, rfl⟩ := onTiers_ok h
    obtain ⟨hot, hcall, rfl⟩ := hotCall_ok hrun
    obtain ⟨hent, hlive⟩ := Prod.mk.inj (engineEntry_acts.of_run hcall)
    obtain ⟨hnow, hclk, hothers, hcollection, hloads⟩ := hs
    rw [hlive] at hent hothers hcollection hloads
    exact ⟨⟨hnow, hclk, hothers, hcollection, hloads⟩, hent.symm⟩
  · rintro s u s' ⟨hs, rfl⟩ h
    obtain ⟨hstr, hundated⟩ := hs.collection
    rcases hkey : s.tiers.hot.live now key with ⟨str, obj⟩
    rw [hkey] at hstr hundated
    obtain rfl : str = none := hstr
    cases obj with
    | none =>
      rw [engineEntry_gone hkey] at h
      cases h
      exact hs.push (.del key) (agrees_gone hkey)
    | some o =>
      obtain ⟨v, expireAt⟩ := o
      obtain rfl : expireAt = 0 := hundated _ rfl
      have hent : (s.tiers.hot.live now).engineEntry key now = some ⟨.object v, none⟩ := by
        simp [World.engineEntry, hkey]
      rw [hent] at h
      cases h
      have hloads := hs.loads ⟨v, 0⟩ (by rw [hkey]; rfl)
      exact hs.push (.set key ⟨.object v, none⟩) (agrees_object hkey hloads)

lemma collection_safe {x : StoreM Cache Bool} (hx : Touches now key x) :
    Triple (fun s => Safe S now s ∧ ∀ queued hot, x s.tiers.hot = .ok (queued, hot) →
        if queued then ∀ o ∈ (hot.live now key).obj, S.RoundTrips o.value
        else hot.live now = s.tiers.hot.live now)
      (do if ← onTiers (hotCall x) then pushEntry S now key) fun _ => Safe S now := by
  refine bind (Q := fun queued s => if queued then Unsaved S now key s else Safe S now s) ?_ fun queued => ?_
  · rintro s queued s' ⟨hs, hcond⟩ h
    obtain ⟨t, hrun, rfl⟩ := onTiers_ok h
    obtain ⟨hot, hcall, rfl⟩ := hotCall_ok hrun
    obtain ⟨hoff, hkey⟩ := hx s.tiers.hot queued hot hcall
    have hcond := hcond queued hot hcall
    cases queued with
    | false => exact hs.congr rfl hcond
    | true =>
      exact ⟨hs.now_eq, hs.clock, fun k hk => (hs.saved k).congr (hoff k hk) rfl, hkey rfl (hs.saved key).undated, hcond⟩
  · cases queued with
    | false => exact .pure fun _ h => h
    | true => exact pushEntry_safe

/-! ### The calls -/

lemma touches_of_run {x : StoreM Cache α} {p : α → Bool}
    (hx : ∀ hot a hot', x hot = .ok (a, hot') → Touched key (p a) (hot.live now) (hot'.live now)) :
    Touches now key (p <$> x) := by
  intro hot queued hot' h
  obtain ⟨r, hrun, h⟩ := Go.bind_eq_ok.1 h
  cases h
  exact hx hot r.1 r.2 hrun

lemma touches_of_acts {x : StoreM Cache α} {f : World → α × World} {p : α → Bool} (hx : Acts now id x f)
    (hf : ∀ {w w' : World} {a : α}, f w = (a, w') → Touched key (p a) w w') : Touches now key (p <$> x) :=
  touches_of_run fun _ _ _ h => hf (hx.of_run h)

lemma typed_cases (w : World) (key : Bytes) (as : TypedValue → Option α) :
    (∃ a o, w.typed key as = .ok a ∧ w key = ⟨none, some o⟩) ∨
      (w.typed key as = .error .keyNotFound ∧ w key = .gone) ∨ w.typed key as = .error .wrongType := by
  unfold typed
  rcases w key with ⟨str, obj⟩
  cases str with
  | some slot => simp
  | none =>
    cases obj with
    | none => exact .inr (.inl ⟨rfl, rfl⟩)
    | some o => cases h : as o.value <;> simp [h]

lemma objectPut_apply {w : World} {o : Object} (v : TypedValue) (h : w key = ⟨none, some o⟩)
    (ho : o.expireAt = 0) : w.objectPut key now v = w.setObj key (some ⟨v, 0⟩) := by
  have hfresh : freshObject now { o with value := v } = some ⟨v, 0⟩ := by
    rw [freshObject_eq]
    simp [Object.expired, ho]
  simp only [World.objectPut, h, hfresh]

lemma objectPut_of_ne {w : World} {v : TypedValue} {k : Bytes} (hk : k ≠ key) : w.objectPut key now v k = w k := by
  unfold World.objectPut
  cases (w key).obj <;> simp [setObj_apply, hk]

lemma touched_add {w w' : World} {as : TypedValue → Option α} {empty : α} {f : α → TypedValue × Int}
    {r : Except StoreError Int} (h : w.add key as now empty f = (r, w')) :
    Touched key (CollectionWrite.counted r) w w' := by
  unfold add at h
  obtain ⟨a, o, hty, hw⟩ | ⟨hty, hw⟩ | hty := typed_cases w key as
  · rw [hty] at h
    cases h
    refine ⟨fun k hk => objectPut_of_ne hk, fun _ hundated => ?_⟩
    have ho : o.expireAt = 0 := hundated o (by rw [hw]; rfl)
    rw [objectPut_apply _ hw ho]
    simp [OnlyCollection, setObj_apply, hw]
  · rw [hty] at h
    cases h
    refine ⟨fun k hk => by simp [setObj_apply, hk], fun _ _ => ?_⟩
    simp [OnlyCollection, setObj_apply, hw, KeyState.gone]
  · rw [hty] at h
    cases h
    exact ⟨fun _ _ => rfl, fun hcounted => by cases hcounted⟩

lemma touched_change {w w' : World} {as : TypedValue → Option α} {absent : StoreError → Except StoreError β}
    {f : α → Except StoreError β × Option (Bool × TypedValue)} {p : Except StoreError β → Bool}
    {r : Except StoreError β} (h : w.change key as now absent f = (r, w'))
    (hp : p (absent .wrongType) = false) : Touched key (p r) w w' := by
  unfold change at h
  obtain ⟨a, o, hty, hw⟩ | ⟨hty, hw⟩ | hty := typed_cases w key as
  · rw [hty] at h
    dsimp only at h
    have ho (hundated : ∀ o ∈ (w key).obj, o.expireAt = 0) : o.expireAt = 0 := hundated o (by rw [hw]; rfl)
    rcases hnext : (f a).2 with _ | ⟨_ | _, v⟩
    · rw [hnext] at h
      cases h
      refine ⟨fun _ _ => rfl, fun _ hundated => ?_⟩
      simp [OnlyCollection, hw, ho hundated]
    · rw [hnext] at h
      cases h
      refine ⟨fun k hk => objectPut_of_ne hk, fun _ hundated => ?_⟩
      simp [World.putOrDelete, objectPut_apply _ hw (ho hundated), OnlyCollection, World.setObj_apply, hw]
    · rw [hnext] at h
      cases h
      refine ⟨fun k hk => by simp [World.putOrDelete, World.setObj_apply, hk], fun _ _ => ?_⟩
      simp [World.putOrDelete, OnlyCollection, World.setObj_apply, hw]
  · rw [hty] at h
    cases h
    refine ⟨fun _ _ => rfl, fun _ _ => ?_⟩
    simp [OnlyCollection, hw, KeyState.gone]
  · rw [hty] at h
    cases h
    exact ⟨fun _ _ => rfl, fun hqueued => by rw [hp] at hqueued; cases hqueued⟩

lemma touches_pure {e : StoreError} :
    Touches now key (CollectionWrite.counted <$> (pure (.error e) : StoreM Cache (Except StoreError Int))) :=
  touches_of_acts (Acts.pure _) fun h => by
    cases h
    exact ⟨fun _ _ => rfl, fun h => by cases h⟩

lemma touches_push {left : Bool} {values : List Bytes} :
    Touches now key (CollectionWrite.counted <$> Store.pushList S.logical.engine key left values now) := by
  by_cases h : values = []
  · unfold pushList
    rw [if_pos h]
    exact touches_pure
  · exact touches_of_acts (pushList_acts h) touched_add

lemma touches_hset {pairs : List Bytes} :
    Touches now key (CollectionWrite.counted <$> Store.hset S.logical.engine key pairs now) := by
  by_cases hpairs : pairs.length = 0 ∨ pairs.length % 2 ≠ 0
  · unfold hset
    rw [if_pos hpairs]
    exact touches_pure
  · refine touches_of_run fun hot result hot' h => ?_
    by_cases hnil : Store.HoldsNil (hot.live now) key
    · cases (hset_of_nil hpairs hnil).symm.trans h
    · obtain ⟨result', hot'', hrun, hadd⟩ := @hset_run S.logical key now pairs hpairs hot hnil
      cases hrun.symm.trans h
      exact touched_add hadd

lemma touches_call (write : CollectionWrite) : Touches now key (write.call S.logical.engine now key) := by
  cases write with
  | hset pairs => exact touches_hset
  | hdel fields => exact touches_of_acts hdel_acts fun h => touched_change h rfl
  | lpush values | rpush values => exact touches_push
  | lpop | rpop => exact touches_of_acts popList_acts fun h => touched_change h rfl
  | lset index value => exact touches_of_acts lset_acts fun h => touched_change h rfl
  | ltrim start stop => exact touches_of_acts ltrim_acts fun h => touched_change h rfl
  | sadd members =>
    by_cases h : members = []
    · subst h
      exact touches_pure
    · exact touches_of_acts (sadd_acts h) touched_add
  | srem members => exact touches_of_acts srem_acts fun h => touched_change h rfl
  | zadd members =>
    by_cases h : members = []
    · subst h
      exact touches_pure
    · exact touches_of_acts (zadd_acts h) touched_add
  | zrem members => exact touches_of_acts zrem_acts fun h => touched_change h rfl

/-! ## Commands and runs -/

lemma ignore_safe {P : Process → Prop} {x : ProcessM α} (h : Triple P x fun _ => Safe S now) :
    Triple P (ignore x) fun _ => Safe S now := bind h fun _ => .pure fun _ h => h

lemma mset_onHot {pairs : List Bytes} : OnHot now (mset S.logical.engine now pairs) fun w =>
    if pairs.length % 2 ≠ 0 then w else (w.mset S.logical.size now pairs).2 := by
  have hmset : Acts now id (mset S.logical.engine pairs now) fun w =>
      if pairs.length % 2 ≠ 0 then (.error .wrongNumber, w) else w.mset S.logical.size now pairs := by
    unfold Store.mset
    split
    · exact .pure _
    · exact msetPairs_acts pairs
  have honHot := (OnHot.hotCall hmset).bind fun r => OnHot.pure (r.mapError TierError.hot)
  refine fun t a t' h => (honHot t a t' h).imp_right fun hlive => hlive.trans ?_
  split <;> rfl

/-- **A command that brings all it writes into the queue keeps every key saved.** -/
lemma command_safe (c : Command) :
    Triple (fun s => Safe S now s ∧ c.Queued S s) (c.run S marshal now) fun _ => Safe S now := by
  -- the condition is read at the clock of the process
  have hqueued (s : Process) (h : Safe S now s ∧ c.Queued S s) : Safe S now s ∧ c.Queued S { s with now } := by
    have hself : { s with now } = s := by rw [← h.1.now_eq]
    rw [hself]
    exact h
  cases c with
  | set key value ttl =>
    exact ignore_safe (set_safe.pre fun s h => ⟨h.1, (hqueued s h).2, ttl.2.2⟩)
  | setNX key value ttl => exact ignore_safe ((setNX_safe ttl.2.2).pre fun _ h => h.1)
  | setXX key value ttl => exact ignore_safe ((setXX_safe ttl.2.2).pre hqueued)
  | getSet key value | incrBy key delta | decrBy key delta | append key suffix =>
    exact ignore_safe (rewrite_safe.pre fun _ h => h.1)
  | incr key =>
    have hincr : OnHot now (incr S.logical.engine now key) fun w => (w.incrBy key 1).2 :=
      (OnHot.hotCall incrBy_acts).bind fun _ => .pure _
    exact ignore_safe ((unchanged_safe hincr).pre hqueued)
  | decr key =>
    have hdecr : OnHot now (decr S.logical.engine now key) fun w => (w.incrBy key (-1)).2 :=
      (OnHot.hotCall incrBy_acts).bind fun _ => .pure _
    exact ignore_safe ((unchanged_safe hdecr).pre hqueued)
  | mset pairs =>
    refine ignore_safe ((unchanged_safe mset_onHot).pre fun s h => ⟨h.1, ?_⟩)
    split
    · rfl
    · next heven => exact (hqueued s h).2 (not_not.1 heven)
  | collection key write =>
    exact (collection_safe (touches_call write)).pre hqueued
  | del keys =>
    exact ignore_safe ((del_safe []).conseq (fun _ h => ⟨h.1, nofun⟩) fun _ _ h => h.1)
  | rename key newkey => exact ignore_safe (rename_safe.pre hqueued)
  | expire key ttl | expireAt key t => exact ignore_safe (expire_safe.pre hqueued)
  | persist key => exact ignore_safe (persist_safe.pre hqueued)
  | flushDB => exact flushDB_safe
  | restoreEntry key type payload ttl =>
    refine ignore_safe ((unchanged_safe (.hotCall restoreEntry_acts)).pre fun s h => ⟨h.1, ?_⟩)
    cases hval : restoredValue S.logical type payload with
    | error text => rfl
    | ok v => exact (hqueued s h).2 v hval

lemma step_safe {event : ProcessEvent} (hs : Safe S s.now s)
    (hqueued : s.Queued S event) (h : s.step S marshal event = .ok s') : Safe S s'.now s' := by
  cases event with
  | wait ns =>
    simp only [step] at h
    split at h
    · next hclk =>
      cases h
      refine ⟨rfl, ⟨?_, hclk⟩, fun key => ?_⟩
      · have := hs.clock.1
        dsimp only
        omega
      · have hle : s.now ≤ s.now + ns := by omega
        rw [live_later hle]
        exact (hs.saved key).later hle
    · cases h
  | command c =>
    simp only [step] at h
    split at h
    · next hrun =>
      cases h
      have hsafe := command_safe c s _ _ ⟨hs, hqueued⟩ hrun
      rw [hsafe.now_eq]
      exact hsafe
    · cases h
  | flush n =>
    cases h
    exact ⟨rfl, hs.clock, fun key => (hs.saved key).flush hs.clock.1 n⟩

lemma start_safe (now : Fin (2 ^ 63 - 1)) : Safe S (start now).now (start now) := by
  refine ⟨rfl, ⟨?_, ?_⟩, fun key => ⟨nofun, nofun, agrees_gone rfl, ?_⟩⟩
  · exact Int.natCast_nonneg _
  · change (now.val : Int) < 2 ^ 63 - 1
    omega
  · intro _ item hitem
    cases hitem

end Programs

lemma Safe.loads_same {S : Setup} {s : Process} (hs : Safe S s.now s) (hflushed : s.queue = []) (key : Bytes)
    (hdue : ∀ item ∈ s.tiers.warm.lookup key, item.entry.expireAt ≠ some s.now) :
    (s.tiers.warm.get key s.now).bind (S.shown s.now key) = (s.tiers.hot.live s.now).engineEntry key s.now := by
  obtain ⟨-, -, hagrees, hhidden⟩ := hs.saved key
  have hlater : (s.tiers.hot.live s.now).later s.now = s.tiers.hot.live s.now :=
    (live_later le_rfl s.tiers.hot).symm
  rw [hflushed] at hagrees hhidden
  have hnone : ¬ Waits [] key := fun ⟨_, hop, _⟩ => absurd hop not_mem_nil
  have hentries : written [] (entries s.tiers.warm) key = (s.tiers.warm.lookup key).map Item.entry := rfl
  rw [hentries] at hagrees
  cases hitem : s.tiers.warm.lookup key with
  | none =>
    rw [hitem] at hagrees
    have hshown := hagrees s.now ⟨le_rfl, hs.clock.2, nofun⟩
    rw [hlater] at hshown
    rw [hshown, Warm.get, Warm.txnGet, hitem]
    rfl
  | some item =>
    have hmoment : Moment s.now (some item.entry) s.now :=
      ⟨le_rfl, hs.clock.2, fun e he => some.inj he ▸ hdue item hitem⟩
    by_cases hvis : item.Visible s.now
    · rw [hitem] at hagrees
      have hshown := hagrees s.now hmoment
      rw [hlater] at hshown
      rw [hshown, Warm.get, Warm.txnGet, hitem, filter_some_pos (by simpa using hvis)]
    · have hgone := hhidden hnone item hitem s.now hmoment hvis
      rw [hlater] at hgone
      rw [hgone, Warm.get, Warm.txnGet, hitem, filter_some_neg (by simpa using hvis)]
      rfl

end Process

end AutoCache.Persistence
