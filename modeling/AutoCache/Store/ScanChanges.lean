import AutoCache.Lib.Runs
import AutoCache.Store.ScanComplete

/-!
# A scan while the cache changes

Between the calls of an iteration of `ShardedCache.Scan` other clients write, delete and read, and
entries expire. The cursor is a position among the names a shard lists at the moment of the call, so
a key is missed if it moves from behind the cursor to before it: that takes the removal of a key that
is listed before it, while the cursor stands in its shard.
-/

namespace AutoCache

open Pages Runs Store List

inductive CacheCall where
  | get (key : Bytes)
  | set (key value : Bytes) (ttl : Int)
  | setNX (key value : Bytes) (ttl : Int)
  | setXX (key value : Bytes) (ttl : Int)
  | expire (key : Bytes) (ttl : Int)
  | incrBy (key : Bytes) (delta : Int)
  | delete (key : Bytes)

def CacheCall.apply (size : RingSize) (now : Int) (c : Cache) : CacheCall → Cache
  | get key => (c.get key now).1
  | set key value ttl => (c.set size key value ttl now).1
  | setNX key value ttl => (c.setNX size key value ttl now).1
  | setXX key value ttl => (c.setXX size key value ttl now).1
  | expire key ttl => (c.expire key ttl now).1
  | incrBy key delta => (c.incrBy key delta now).1
  | delete key => (c.delete key).1

inductive ScanEvent where
  | scan
  | call (op : CacheCall)
  | tick (d : ℕ)

/-- An iteration: `cursor` is what the next call passes on, `none` once a call has returned `0`. -/
structure Iteration where
  cache : Cache
  now : Int
  cursor : Option UInt64
  returned : List Bytes

/-- There is no call after the one that returned `0`. -/
inductive IterationOver where
  | over

namespace Iteration

variable (L : ScanConfig) (size : RingSize) (count : Int)

def start (cache : Cache) (now : Int) : Iteration := ⟨cache, now, some 0, []⟩

def step (s : Iteration) : ScanEvent → Except IterationOver Iteration
  | .scan =>
    match s.cursor with
    | none => .error .over
    | some cursor =>
      let (keys, next) := s.cache.scan L s.now cursor [] count
      .ok { s with cursor := if next = 0 then none else some next, returned := s.returned ++ keys }
  | .call op => .ok { s with cache := op.apply size s.now s.cache }
  | .tick d => .ok { s with now := s.now + d }

def Present (s : Iteration) (key : Bytes) : Prop :=
  ∃ slot, s.cache.lookup key = some slot ∧ slot.Live key s.now

/-- Where the key stands in the listing of its shard. -/
def placeOf (s : Iteration) (key : Bytes) : Place where
  list := L.cacheShards.shardOf key
  pos := (s.cache.shardKeys L.cacheShards s.now (L.cacheShards.shardOf key)).idxOf key

/-- The step does not take the key from behind the cursor to before it. -/
structure Keeps (key : Bytes) (s : Iteration) (e : ScanEvent) : Prop where
  /-- Counters are not listed. -/
  entry : ∀ slot, s.cache.lookup key = some slot → slot.isCounter = false
  short : ∀ l ∈ s.cache.names L.cacheShards s.now, l.length < 2 ^ 32
  /-- While the cursor stands in the shard of the key, as many names as it has passed are left
  before the key. -/
  position : ∀ cursor s', s.cursor = some cursor → e ≠ .scan → step L size count s e = .ok s' →
    (placeAt cursor).list = L.cacheShards.shardOf key →
    (placeAt cursor).pos ≤ (s'.placeOf L key).pos

variable {L size count} {s s' : Iteration} {key : Bytes} {e : ScanEvent}

/-- The key has been returned, or the next call starts at it or before it. -/
def Ahead (L : ScanConfig) (key : Bytes) (s : Iteration) : Prop :=
  key ∈ s.returned ∨ ∃ cursor, s.cursor = some cursor ∧ (placeAt cursor).Before (s.placeOf L key)

lemma mem_shardKeys (hpresent : s.Present key) (hkp : Keeps L size count key s e) :
    key ∈ s.cache.shardKeys L.cacheShards s.now (L.cacheShards.shardOf key) := by
  obtain ⟨slot, hlk, hlive⟩ := hpresent
  cases slot with
  | counter n h => cases hkp.entry _ hlk
  | entry x =>
    rw [Cache.shardKeys, Multiset.mem_sort, Multiset.mem_map]
    have hmem : key ∈ s.cache.keys := Finmap.mem_keys.2 (Finmap.mem_of_lookup_eq_some hlk)
    exact ⟨key, Finset.mem_filter.2 ⟨hmem, rfl, x, hlk, hlive.2⟩, storedValue_of_short hlive.1⟩

lemma rest_placeOf (hpresent : s.Present key) (hkp : Keeps L size count key s e) :
    (s.placeOf L key).rest (s.cache.names L.cacheShards s.now) =
      key :: (s.placeOf L key).succ.rest (s.cache.names L.cacheShards s.now) := by
  have hlt : (s.placeOf L key).list < (s.cache.names L.cacheShards s.now).length := by
    rw [Cache.names, length_map, length_range]
    exact L.cacheShards.shardOf_lt key
  have hshard : (s.cache.names L.cacheShards s.now)[(s.placeOf L key).list] =
      s.cache.shardKeys L.cacheShards s.now (L.cacheShards.shardOf key) := by
    simp [Cache.names, placeOf]
  have hpos := idxOf_lt_length_of_mem (mem_shardKeys hpresent hkp)
  rw [Place.rest, Place.rest, Place.succ, drop_eq_getElem_cons hlt, hshard, ahead, ahead]
  change drop (idxOf key _) _ ++ _ = _
  rw [drop_eq_getElem_cons hpos, getElem_idxOf, cons_append]
  rfl

lemma Ahead.scan {cursor : UInt64} {keys : List Bytes} {next : UInt64} (hcount : 0 < count)
    (hcursor : s.cursor = some cursor) (h : s.Ahead L key) (hpresent : s.Present key)
    (hkp : Keeps L size count key s e)
    (hscan : s.cache.scan L s.now cursor [] count = (keys, next)) :
    Ahead L key { s with
      cursor := if next = 0 then none else some next, returned := s.returned ++ keys } := by
  rcases h with hret | ⟨cursor', hcursor', hbefore⟩
  · exact .inl (mem_append_left _ hret)
  obtain rfl : cursor' = cursor := by simpa [hcursor] using hcursor'.symm
  obtain ⟨result, nextPlace, passed, hpage, hspec⟩ :=
    page_spec (p := L.wanted []) (s.cache.names L.cacheShards s.now) (placeAt cursor')
      (show 0 < pageSize count by rw [pageSize_of_pos hcount]; omega)
  obtain ⟨rfl, rfl⟩ : result = keys ∧ nextCursor nextPlace = next := by
    have hscan' : s.cache.scan L s.now cursor' [] count = (result, nextCursor nextPlace) := by
      change scanShards (L.wanted []) _ _ _ = _
      rw [scanShards, hpage]
    exact Prod.mk.inj (hscan'.symm.trans hscan)
  rcases hspec.passes hbefore (rest_placeOf hpresent hkp) rfl with hmem | ⟨c', rfl, hbefore'⟩
  · exact .inl (mem_append_right _ hmem)
  · have hfits : c'.Fits := (hspec.inside c' rfl).fits hkp.short
    refine .inr ⟨c'.cursor, if_neg (hfits.cursor_ne_zero (hspec.moves c' rfl)), ?_⟩
    rw [hfits.placeAt_cursor]
    exact hbefore'

lemma Ahead.change (hcursor : s'.cursor = s.cursor) (hreturned : s'.returned = s.returned) (h : s.Ahead L key)
    (hposition : ∀ cursor, s.cursor = some cursor → (placeAt cursor).list = L.cacheShards.shardOf key →
      (placeAt cursor).pos ≤ (s'.placeOf L key).pos) : s'.Ahead L key := by
  rcases h with hret | ⟨cursor, hsome, hbefore⟩
  · exact .inl (hreturned ▸ hret)
  · refine .inr ⟨cursor, hcursor.trans hsome, ?_⟩
    rcases hbefore with hlt | ⟨heq, -⟩
    · exact .inl hlt
    · exact .inr ⟨heq, hposition cursor hsome heq⟩

lemma Ahead.step (hcount : 0 < count) (h : s.Ahead L key) (hpresent : s.Present key)
    (hkp : Keeps L size count key s e) (hstep : s.step L size count e = .ok s') :
    s'.Ahead L key := by
  cases e with
  | scan =>
    cases hcursor : s.cursor with simp only [Iteration.step, hcursor] at hstep
    | none =>
      cases hstep
    | some cursor =>
      cases hstep
      exact h.scan hcount hcursor hpresent hkp rfl
  | call op | tick d =>
    refine h.change ?_ ?_ fun cursor hsome => hkp.position cursor s' hsome (by simp) hstep
    all_goals
      cases hstep
      rfl

/-- **The guarantee of a scan.** A key that is present during an iteration has been returned when
the iteration is over, if no step takes it from behind the cursor to before it. -/
theorem returned_of_keeps {c : Cache} {now : Int} {events : List ScanEvent} (hcount : 1 ≤ count)
    (hrun : run (step L size count) (start c now) events = .ok s) (hover : s.cursor = none)
    (hsteps : Along (step L size count)
      (fun s e => s.Present key ∧ Keeps L size count key s e) (start c now) events) :
    key ∈ s.returned := by
  have h0 : (start c now).Ahead L key := by
    refine .inr ⟨0, rfl, ?_⟩
    rcases Nat.eq_zero_or_pos (L.cacheShards.shardOf key) with hzero | hpos
    · exact .inr ⟨hzero.symm, Nat.zero_le _⟩
    · exact .inl hpos
  have hahead := hsteps.run_invariant (fun s e s' h hc hstep => h.step hcount hc.1 hc.2 hstep) h0 hrun
  rcases hahead with hret | ⟨cursor, hsome, -⟩
  · exact hret
  · rw [hover] at hsome
    cases hsome

def twoStrings : Cache :=
  ((∅ : Cache).insert [97] (.entry (writtenEntry [1] 0 0))).insert [98] (.entry (writtenEntry [1] 0 0))

def smallRing : RingSize := ⟨Ring.minRingBufferSize, Int.le_refl _⟩

lemma shardKeys_twoStrings : twoStrings.shardKeys oneShard.cacheShards 0 0 = [[97], [98]] := by
  have hkeys : (twoStrings.keys.filter fun key =>
      oneShard.cacheShards.shardOf key = 0 ∧ twoStrings.Lists 0 key).1.map storedValue = [97] ::ₘ {[98]} := by
    decide
  have hle : ∀ b ∈ ({[98]} : Multiset Bytes), ([97] : Bytes) ≤ b := by decide
  rw [Cache.shardKeys, hkeys, Multiset.sort_cons _ _ _ hle, Multiset.sort_singleton]

lemma names_twoStrings : twoStrings.names oneShard.cacheShards 0 = [[[97], [98]]] :=
  congrArg (fun l => [l]) shardKeys_twoStrings

lemma scan_twoStrings : twoStrings.scan oneShard 0 0 [] 1 = ([[97]], 1) := by
  rw [Cache.scan, names_twoStrings]
  decide

lemma scan_twoStrings_next : twoStrings.scan oneShard 0 1 [] 1 = ([[98]], 0) := by
  rw [Cache.scan, names_twoStrings]
  decide

def lastString : Cache := twoStrings.erase [97]

/-- After `a` is deleted, the next call starts behind `b`. -/
lemma scan_lastString : lastString.scan oneShard 0 1 [] 1 = ([], 0) := by
  have hkeys : (lastString.keys.filter fun key =>
      oneShard.cacheShards.shardOf key = 0 ∧ lastString.Lists 0 key).1.map storedValue = {[98]} := by
    decide
  have hnames : lastString.names oneShard.cacheShards 0 = [[[98]]] := by
    change [lastString.shardKeys oneShard.cacheShards 0 0] = _
    rw [Cache.shardKeys, hkeys, Multiset.sort_singleton]
  rw [Cache.scan, hnames]
  decide

lemma present_b {s : Iteration} (h : s.cache.lookup [98] = some (.entry (writtenEntry [1] 0 0)))
    (hnow : s.now = 0) : s.Present [98] := by
  refine ⟨_, h, ?_⟩
  rw [hnow]
  decide

lemma step_scan_twoStrings : step oneShard smallRing 1 (start twoStrings 0) .scan = .ok ⟨twoStrings, 0, some 1, [[97]]⟩ := by
  simp only [step, start, scan_twoStrings]
  rfl

theorem returned_twoStrings : ∃ s,
    run (step oneShard smallRing 1) (start twoStrings 0) [.scan, .call (.get [97]), .scan] =
      .ok s ∧ s.cursor = none ∧ [98] ∈ s.returned := by
  have h2 : step oneShard smallRing 1 ⟨twoStrings, 0, some 1, [[97]]⟩ (.call (.get [97])) =
      .ok ⟨twoStrings, 0, some 1, [[97]]⟩ := rfl
  have h3 : step oneShard smallRing 1 ⟨twoStrings, 0, some 1, [[97]]⟩ .scan =
      .ok ⟨twoStrings, 0, none, [[97], [98]]⟩ := by
    simp only [step, scan_twoStrings_next]
    rfl
  have hrun : run (step oneShard smallRing 1) (start twoStrings 0)
      [.scan, .call (.get [97]), .scan] = .ok ⟨twoStrings, 0, none, [[97], [98]]⟩ := by
    rw [run_cons_ok step_scan_twoStrings, run_cons_ok h2, run_cons_ok h3]
    rfl
  have hent : ∀ slot, twoStrings.lookup [98] = some slot → slot.isCounter = false := by
    intro slot h
    obtain rfl : Slot.entry (writtenEntry [1] 0 0) = slot := Option.some.inj h
    rfl
  have hshort : ∀ l ∈ twoStrings.names oneShard.cacheShards 0, l.length < 2 ^ 32 := by
    rw [names_twoStrings]
    decide
  have hscan : ∀ cursor keys, Keeps oneShard smallRing 1 [98] ⟨twoStrings, 0, cursor, keys⟩
      .scan := fun cursor keys => ⟨hent, hshort, fun _ _ _ hne => absurd rfl hne⟩
  have hget : Keeps oneShard smallRing 1 [98] ⟨twoStrings, 0, some 1, [[97]]⟩ (.call (.get [97])) := by
    refine ⟨hent, hshort, fun cursor s' hcursor _ hstep _ => ?_⟩
    cases hcursor
    cases h2.symm.trans hstep
    change 1 ≤ (twoStrings.shardKeys oneShard.cacheShards 0 0).idxOf [98]
    rw [shardKeys_twoStrings]
    decide
  refine ⟨_, hrun, rfl, returned_of_keeps (by decide) hrun rfl ?_⟩
  exact .cons ⟨present_b rfl rfl, hscan _ _⟩ step_scan_twoStrings
    (.cons ⟨present_b rfl rfl, hget⟩ h2 (.cons ⟨present_b rfl rfl, hscan _ _⟩ h3 trivial))

/-- `a` is returned and then deleted: `b`, which nobody touches, is never returned. -/
theorem scan_misses_after_delete : ∃ s,
    run (step oneShard smallRing 1) (start twoStrings 0)
        [.scan, .call (.delete [97]), .scan] = .ok s ∧
      Along (step oneShard smallRing 1) (fun s _ => s.Present [98]) (start twoStrings 0)
        [.scan, .call (.delete [97]), .scan] ∧
      s.Present [98] ∧ s.cursor = none ∧ [98] ∉ s.returned := by
  have h2 : step oneShard smallRing 1 ⟨twoStrings, 0, some 1, [[97]]⟩ (.call (.delete [97])) =
      .ok ⟨lastString, 0, some 1, [[97]]⟩ := rfl
  have h3 : step oneShard smallRing 1 ⟨lastString, 0, some 1, [[97]]⟩ .scan =
      .ok ⟨lastString, 0, none, [[97]]⟩ := by
    simp only [step, scan_lastString]
    rfl
  refine ⟨⟨lastString, 0, none, [[97]]⟩, ?_, ?_, present_b rfl rfl, rfl, by decide⟩
  · rw [run_cons_ok step_scan_twoStrings, run_cons_ok h2, run_cons_ok h3]
    rfl
  · exact .cons (present_b rfl rfl) step_scan_twoStrings
      (.cons (present_b rfl rfl) h2 (.cons (present_b rfl rfl) h3 trivial))

end Iteration

end AutoCache
