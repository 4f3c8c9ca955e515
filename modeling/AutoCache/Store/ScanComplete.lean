import AutoCache.Store.Scan

/-!
# A scan of a store at rest

A client calls `Scan` from cursor `0` on until the cursor is `0` again. With shards of fewer than
`2 ^ 32` names this ends, and what it returns is known: the names of the cache that match and then
the keys of the dictionary that match. The second part is missing if a full page ends the last shard
of the cache: then `Scan` returns the cursor `0` and does not enter the dictionary.
-/

namespace AutoCache.Store

open Pages List

variable (L : ScanConfig) (s : Store Cache) (now : Int) (pattern : Bytes) (count : Int)

/-- The calls from a cursor on, and all they return. -/
inductive Scans : UInt64 → List Bytes → Prop
  | last {cursor keys} : s.scan L now cursor pattern count = (keys, 0) → Scans cursor keys
  | more {cursor cursor' keys rest} : s.scan L now cursor pattern count = (keys, cursor') →
      cursor' ≠ 0 → Scans cursor' rest → Scans cursor (keys ++ rest)

/-- No shard lists `2 ^ 32` names, the number of positions a cursor can hold. -/
structure ShortShards : Prop where
  names : ∀ l ∈ s.shards.names L.cacheShards now, l.length < 2 ^ 32
  objectNames : ∀ l ∈ s.objectNames L.dictShards now, l.length < 2 ^ 32

def matchingNames : List Bytes := (s.shards.names L.cacheShards now).flatten.filter (L.selects pattern)

def matchingObjects : List Bytes :=
  (s.objectNames L.dictShards now).flatten.filter (L.selects pattern)

/-- The last name of the last shard of the cache matches, and it fills a page. -/
def SkipsObjects : Prop :=
  EndsOn (L.selects pattern) (s.shards.names L.cacheShards now) ∧
    count.toNat ∣ (s.matchingNames L now pattern).length

variable {L s now pattern count}

/-! ## One call -/

/-- The cursor of a next page in the dictionary. -/
def dictCursor : Option Place → UInt64
  | none => 0
  | some c => c.cursor ||| scanPhaseFlag

abbrev start : Place := ⟨0, 0⟩

variable (S : Sharding)

lemma start_inside (f : ℕ → List Bytes) : start.Inside ((List.range S.count).map f) := by
  obtain ⟨n, hn⟩ := Nat.exists_eq_succ_of_ne_zero S.count_pos.ne'
  exact ⟨f 0, ((range n).map Nat.succ).map f, by rw [hn, range_succ_eq_map]; rfl, .inl rfl⟩

lemma next_cursor_ne_zero {S : Sharding} {f : ℕ → List Bytes} {p : Bytes → Bool} {n : ℕ} {c c' : Place} {keys : List Bytes}
    (hshort : ∀ l ∈ (List.range S.count).map f, l.length < 2 ^ 32) (hn : 0 < n)
    (hpage : page p n ((List.range S.count).map f) c = (keys, some c')) : c'.cursor ≠ 0 := by
  obtain ⟨result, next, passed, hpage', hspec⟩ := page_spec (p := p) ((range S.count).map f) c hn
  have hnext : next = some c' := congrArg Prod.snd (hpage'.symm.trans hpage)
  exact ((hspec.inside c' hnext).fits hshort).cursor_ne_zero (hspec.moves c' hnext)

section Call

variable {c : Place} {keys : List Bytes} (hshort : s.ShortShards L now)
include hshort

/-- A call of `scanDictKeys`, and the cursor `Scan` makes of its cursor. -/
lemma scanDictKeys_cursor {p : Bytes} {n : Int} {next : Option Place}
    (hp : L.wanted p = L.selects pattern) (hn : 0 < n) (hc : c.Fits)
    (hpage : page (L.selects pattern) n.toNat (s.objectNames L.dictShards now) c = (keys, next)) :
    s.scanDictKeys L now p n c.cursor = (keys, nextCursor next) ∧
      (if nextCursor next ≠ 0 then nextCursor next ||| scanPhaseFlag else 0) = dictCursor next := by
  constructor
  · rw [scanDictKeys, scanShards_cursor hc, hp, pageSize_of_pos hn, hpage]
  · cases next with
    | none => exact if_neg (not_not.2 rfl)
    | some c' =>
      have hpos : 0 < n.toNat := by omega
      exact if_pos (next_cursor_ne_zero hshort.objectNames hpos hpage)

variable (pattern) in
lemma scan_flagged {next : Option Place} (hcount : 0 < count) (hc : c.Fits)
    (hpage : page (L.selects pattern) count.toNat (s.objectNames L.dictShards now) c = (keys, next)) :
    s.scan L now (c.cursor ||| scanPhaseFlag) pattern count = (keys, dictCursor next) := by
  have hwanted : L.wanted (if (if pattern = star then [] else pattern).length = 0 then star
      else if pattern = star then [] else pattern) = L.selects pattern := by
    rw [← L.wanted_eq]
    generalize (if pattern = star then [] else pattern) = p
    split
    · rename_i hnil
      rw [eq_nil_of_length_eq_zero hnil, L.wanted_star]
    · rfl
  obtain ⟨hcall, hnext⟩ := scanDictKeys_cursor hshort hwanted hcount hc hpage
  simp only [scan]
  rw [if_neg (not_le.2 hcount), if_neg flagged_and_scanPhaseFlag, flagged_and_not_scanPhaseFlag hc.cursor_lt, hcall]
  simp only [hnext]

section Cache

variable (hcount : 0 < count) (hc : c.Inside (s.shards.names L.cacheShards now))
include hcount hc

lemma cache_scan_cursor {next : Option Place}
    (hpage : page (L.selects pattern) count.toNat (s.shards.names L.cacheShards now) c = (keys, next)) :
    s.shards.scan L now c.cursor (if pattern = star then [] else pattern) count = (keys, nextCursor next) := by
  have hself : (if (if pattern = star then [] else pattern) = star then []
      else if pattern = star then [] else pattern) = if pattern = star then [] else pattern := by
    by_cases hstar : pattern = star
    · rw [if_pos hstar]
      rfl
    · rw [if_neg hstar, if_neg hstar]
  rw [Cache.scan, hself, scanShards_cursor (hc.fits hshort.names), L.wanted_eq, pageSize_of_pos hcount, hpage]

lemma scan_more {c' : Place}
    (hpage : page (L.selects pattern) count.toNat (s.shards.names L.cacheShards now) c = (keys, some c')) :
    s.scan L now c.cursor pattern count = (keys, c'.cursor) := by
  have hfits := hc.fits hshort.names
  have hpos : 0 < count.toNat := by omega
  have hne := next_cursor_ne_zero hshort.names hpos hpage
  simp only [scan]
  rw [if_neg (not_le.2 hcount), if_pos (and_scanPhaseFlag hfits.cursor_lt),
    and_not_scanPhaseFlag hfits.cursor_lt, cache_scan_cursor hshort hcount hc hpage]
  by_cases hge : (keys.length : Int) ≥ count
  · exact (if_pos hge).trans (if_neg hne)
  · exact (if_neg hge).trans (if_pos hne)

section

variable (hpage : page (L.selects pattern) count.toNat (s.shards.names L.cacheShards now) c = (keys, none))
include hpage

lemma scan_full (hfull : keys.length = count.toNat) : s.scan L now c.cursor pattern count = (keys, 0) := by
  have hfits := hc.fits hshort.names
  have hge : (keys.length : Int) ≥ count := by omega
  simp only [scan]
  rw [if_neg (not_le.2 hcount), if_pos (and_scanPhaseFlag hfits.cursor_lt),
    and_not_scanPhaseFlag hfits.cursor_lt, cache_scan_cursor hshort hcount hc hpage]
  exact (if_pos hge).trans (if_pos rfl)

lemma scan_last {dictKeys : List Bytes} {next : Option Place} (hlt : keys.length < count.toNat)
    (hdict : page (L.selects pattern) (count.toNat - keys.length) (s.objectNames L.dictShards now) start = (dictKeys, next)) :
    s.scan L now c.cursor pattern count = (keys ++ dictKeys, dictCursor next) := by
  have hfits := hc.fits hshort.names
  have hge : ¬ (keys.length : Int) ≥ count := by omega
  have hneeded : (count - keys.length).toNat = count.toNat - keys.length := by omega
  obtain ⟨hcall, hnext⟩ := scanDictKeys_cursor (n := count - keys.length) hshort
    (L.wanted_eq pattern) (by omega) ((start_inside _ _).fits hshort.objectNames) (hneeded ▸ hdict)
  simp only [scan]
  rw [if_neg (not_le.2 hcount), if_pos (and_scanPhaseFlag hfits.cursor_lt),
    and_not_scanPhaseFlag hfits.cursor_lt, cache_scan_cursor hshort hcount hc hpage]
  refine (if_neg hge).trans ((if_neg (not_not.2 rfl)).trans ?_)
  have hcall' : s.scanDictKeys L now (if pattern = star then [] else pattern)
      (count - keys.length) 0 = (dictKeys, nextCursor next) := hcall
  simp only [hcall']
  exact congrArg (Prod.mk _) hnext

end

end Cache

end Call

/-! ## All calls -/

/-- The names ahead of a place of the cache that match. -/
abbrev namesFrom (L : ScanConfig) (s : Store Cache) (now : Int) (pattern : Bytes) (c : Place) :
    List Bytes :=
  (c.rest (s.shards.names L.cacheShards now)).filter (L.selects pattern)

/-- What the calls from a place of the cache on return. -/
structure ReturnsFrom (L : ScanConfig) (s : Store Cache) (now : Int) (pattern : Bytes) (count : Int)
    (c : Place) : Prop where
  skips : EndsOn (L.selects pattern) (s.shards.names L.cacheShards now) ∧
      count.toNat ∣ (namesFrom L s now pattern c).length →
    Scans L s now pattern count c.cursor (namesFrom L s now pattern c)
  reaches : ¬ (EndsOn (L.selects pattern) (s.shards.names L.cacheShards now) ∧
      count.toNat ∣ (namesFrom L s now pattern c).length) →
    Scans L s now pattern count c.cursor
      (namesFrom L s now pattern c ++ s.matchingObjects L now pattern)

section Iteration

variable (hshort : s.ShortShards L now) (hcount : 0 < count)
include hshort hcount

lemma scans_flagged (d : Place) (hd : d.Inside (s.objectNames L.dictShards now)) :
    Scans L s now pattern count (d.cursor ||| scanPhaseFlag)
      ((d.rest (s.objectNames L.dictShards now)).filter (L.selects pattern)) := by
  have hpos : 0 < count.toNat := by omega
  refine Place.Inside.induction (p := L.selects pattern) (motive := fun d =>
    Scans L s now pattern count (d.cursor ||| scanPhaseFlag)
      ((d.rest (s.objectNames L.dictShards now)).filter (L.selects pattern))) hpos ?_ d hd
  intro d hd ih
  obtain ⟨keys, next, passed, hpage, hspec⟩ :=
    page_spec (p := L.selects pattern) (s.objectNames L.dictShards now) d hpos
  have hscan := scan_flagged pattern hshort hcount (hd.fits hshort.objectNames) hpage
  have hkeys : passed.filter (L.selects pattern) = keys := hspec.passed.page_eq.symm
  rw [hspec.rest_eq, filter_append, hkeys]
  cases next with
  | none =>
    rw [restOf, filter_nil, append_nil]
    exact .last hscan
  | some d' => exact .more hscan flagged_ne_zero (ih keys d' hpage)

lemma scans_of_last {cursor : UInt64} {keys dictKeys : List Bytes} {next : Option Place} {n : ℕ} (hn : 0 < n)
    (hscan : s.scan L now cursor pattern count = (keys ++ dictKeys, dictCursor next))
    (hdict : page (L.selects pattern) n (s.objectNames L.dictShards now) start = (dictKeys, next)) :
    Scans L s now pattern count cursor (keys ++ s.matchingObjects L now pattern) := by
  obtain ⟨keys', next', passed, hpage, hspec⟩ :=
    page_spec (p := L.selects pattern) (s.objectNames L.dictShards now) start hn
  obtain ⟨rfl, rfl⟩ := Prod.mk.inj (hpage.symm.trans hdict)
  have hall : s.matchingObjects L now pattern =
      keys' ++ (restOf (s.objectNames L.dictShards now) next').filter (L.selects pattern) := by
    have hrest : start.rest (s.objectNames L.dictShards now) = (s.objectNames L.dictShards now).flatten := ahead_zero _
    rw [matchingObjects, ← hrest, hspec.rest_eq, filter_append]
    exact congrArg (· ++ _) hspec.passed.page_eq.symm
  rw [hall, ← append_assoc]
  cases next' with
  | none =>
    rw [restOf, filter_nil, append_nil]
    exact .last hscan
  | some d => exact .more hscan flagged_ne_zero (scans_flagged hshort hcount d (hspec.inside d rfl))

variable (pattern) in
/-- The calls from a place of the cache on return the names ahead of it, and the keys of the
dictionary unless a full page ends the last shard. -/
lemma returnsFrom (c : Place) (hc : c.Inside (s.shards.names L.cacheShards now)) : ReturnsFrom L s now pattern count c := by
  have hpos : 0 < count.toNat := by omega
  refine Place.Inside.induction (p := L.selects pattern) (motive := ReturnsFrom L s now pattern count) hpos ?_ c hc
  intro c hc ih
  obtain ⟨keys, next, passed, hpage, hspec⟩ :=
    page_spec (p := L.selects pattern) (s.shards.names L.cacheShards now) c hpos
  have hnames : namesFrom L s now pattern c = keys ++
      (restOf (s.shards.names L.cacheShards now) next).filter (L.selects pattern) := by
    have hkeys : passed.filter (L.selects pattern) = keys := hspec.passed.page_eq.symm
    rw [namesFrom, hspec.rest_eq, filter_append, hkeys]
  cases next with
  | some c' =>
    -- a full page, so whether the rest ends on a full page does not depend on it
    have hlen : (namesFrom L s now pattern c).length = count.toNat + (namesFrom L s now pattern c').length := by
      rw [hnames, length_append, hspec.full c' rfl]
      rfl
    have hdvd : count.toNat ∣ (namesFrom L s now pattern c).length ↔ count.toNat ∣ (namesFrom L s now pattern c').length := by
      rw [hlen]
      exact (Nat.dvd_add_right (dvd_refl _))
    have hscan := scan_more hshort hcount hc hpage
    have hne := next_cursor_ne_zero hshort.names hpos hpage
    refine ⟨?_, ?_⟩
    · rintro ⟨hends, hfull⟩
      rw [hnames]
      exact .more hscan hne ((ih keys c' hpage).skips ⟨hends, hdvd.1 hfull⟩)
    · intro hnot
      rw [hnames, append_assoc]
      exact .more hscan hne ((ih keys c' hpage).reaches fun h => hnot ⟨h.1, hdvd.2 h.2⟩)
  | none =>
    have hkeys : namesFrom L s now pattern c = keys := by simpa [restOf] using hnames
    rcases Nat.lt_or_eq_of_le hspec.passed.length_le with hlt | hfull
    · -- fewer than a page, so the dictionary comes next
      obtain ⟨dictKeys, next, -, hdict, -⟩ := page_spec (p := L.selects pattern)
        (s.objectNames L.dictShards now) start (show 0 < count.toNat - keys.length by omega)
      have hscan := scan_last hshort hcount hc hpage hlt hdict
      have hall := scans_of_last hshort hcount (by omega) hscan hdict
      refine ⟨?_, ?_⟩
      · rintro ⟨hends, hdvd⟩
        rw [hkeys] at hdvd
        have hne : keys ≠ [] := hkeys ▸ hc.filter_rest_ne_nil hends
        exact absurd (Nat.le_of_dvd (length_pos_iff.2 hne) hdvd) (not_le.2 hlt)
      · intro _
        rwa [hkeys]
    · have hscan := scan_full hshort hcount hc hpage hfull
      refine ⟨?_, ?_⟩
      · intro _
        rw [hkeys]
        exact .last hscan
      · intro hnot
        refine absurd ⟨hspec.endsOn rfl hfull, ?_⟩ hnot
        rw [hkeys, hfull]

end Iteration

/-! ## How often a key is returned -/

def entriesNamed (s : Store Cache) (now : Int) (name : Bytes) : Finset Bytes :=
  s.shards.keys.filter fun key => s.shards.Lists now key ∧ storedValue key = name

lemma count_eq_multiset_count (l : List Bytes) (a : Bytes) : l.count a = Multiset.count a (l : Multiset Bytes) := by
  rw [Multiset.coe_count]
  exact countP_congr fun b _ => by simp

lemma count_flatten_shards (f : ℕ → List Bytes) (K : Finset Bytes) (name : Bytes)
    (hf : ∀ i, (f i).count name = (K.filter fun key => S.shardOf key = i).card) :
    ((List.range S.count).map f).flatten.count name = K.card := by
  have hmaps : ∀ key ∈ K, S.shardOf key ∈ Finset.range S.count := fun key _ =>
    Finset.mem_range.2 (S.shardOf_lt key)
  rw [Finset.card_eq_sum_card_fiberwise hmaps, count_flatten, map_map]
  exact congrArg sum (map_congr_left fun i _ => hf i)

lemma count_names (name : Bytes) : (s.shards.names S now).flatten.count name = (s.entriesNamed now name).card := by
  refine count_flatten_shards S _ _ name fun i => ?_
  rw [Cache.shardKeys, count_eq_multiset_count, Multiset.sort_eq, Multiset.count_map, entriesNamed]
  rw [Finset.filter_filter, Finset.card_def, ← Finset.filter_val, Finset.filter_filter]
  congr 2
  ext key
  simp only [Finset.mem_filter]
  tauto

lemma count_objectNames (key : Bytes) : (s.objectNames S now).flatten.count key = if s.ListsObject now key then 1 else 0 := by
  have hcard : (if s.ListsObject now key then 1 else 0) =
      (if s.ListsObject now key then {key} else ∅ : Finset Bytes).card := by
    split <;> rfl
  rw [hcard]
  refine count_flatten_shards S _ _ key fun i => ?_
  rw [shardObjectKeys, count_eq_multiset_count, Finset.sort_eq, Multiset.count_eq_of_nodup (Finset.nodup _)]
  by_cases hlists : s.ListsObject now key
  · have hmem : key ∈ s.objects.keys := by
      obtain ⟨o, ho, -⟩ := hlists
      exact Finmap.mem_keys.2 (Finmap.mem_of_lookup_eq_some ho)
    by_cases hi : S.shardOf key = i
    · rw [if_pos (by simp [hmem, hi, hlists]), if_pos hlists, Finset.filter_singleton, if_pos hi]
      rfl
    · rw [if_neg (by simp [hi]), if_pos hlists, Finset.filter_singleton, if_neg hi]
      rfl
  · rw [if_neg (by simp [hlists]), if_neg hlists]
    rfl

/-! ## Completeness -/

lemma Scans.unique {cursor : UInt64} {out out' : List Bytes} (h : Scans L s now pattern count cursor out)
    (h' : Scans L s now pattern count cursor out') : out = out' := by
  induction h generalizing out' with
  | last hscan =>
    cases h' with
    | last hscan' => exact congrArg Prod.fst (hscan.symm.trans hscan')
    | more hscan' hne _ => exact absurd (congrArg Prod.snd (hscan'.symm.trans hscan)) hne
  | more hscan hne _ ih =>
    cases h' with
    | last hscan' => exact absurd (congrArg Prod.snd (hscan.symm.trans hscan')) hne
    | more hscan' _ hrest =>
      obtain ⟨rfl, rfl⟩ := Prod.mk.inj (hscan.symm.trans hscan')
      rw [ih hrest]

/-- The iteration ends, and it returns every live key that matches exactly once. -/
def ScansEachOnce (L : ScanConfig) (s : Store Cache) (now : Int) (pattern : Bytes) (count : Int) :
    Prop :=
  ∃ out, Scans L s now pattern count 0 out ∧
    ∀ key, (s.live now).has key = true → L.selects pattern key = true → out.count key = 1

/-- Every live key that matches is the name of one entry or, where the scan gets there, a key of the
dictionary. A counter is neither; a key with a copy in both is counted twice, and so is one whose
name a long key is stored under. -/
def ListsEachOnce (L : ScanConfig) (s : Store Cache) (now : Int) (pattern : Bytes) (count : Int) :
    Prop :=
  ∀ key, (s.live now).has key = true → L.selects pattern key = true →
    (s.SkipsObjects L now pattern count → (s.entriesNamed now key).card = 1) ∧
    (¬ s.SkipsObjects L now pattern count →
      (s.entriesNamed now key).card + (if s.ListsObject now key then 1 else 0) = 1)

variable (pattern) in
lemma scans_start (hshort : s.ShortShards L now) (hcount : 1 ≤ count) : (s.SkipsObjects L now pattern count →
      Scans L s now pattern count 0 (s.matchingNames L now pattern)) ∧
    (¬ s.SkipsObjects L now pattern count → Scans L s now pattern count 0
        (s.matchingNames L now pattern ++ s.matchingObjects L now pattern)) := by
  have hfrom := returnsFrom pattern hshort hcount start (start_inside _ _)
  have hnames : namesFrom L s now pattern start = s.matchingNames L now pattern := by
    exact congrArg _ (ahead_zero _)
  refine ⟨fun hskips => ?_, fun hskips => ?_⟩
  · exact hnames ▸ hfrom.skips (by rwa [hnames])
  · exact hnames ▸ hfrom.reaches (by rwa [hnames])

lemma count_matchingNames {key : Bytes} (hsel : L.selects pattern key = true) :
    (s.matchingNames L now pattern).count key = (s.entriesNamed now key).card := by
  rw [matchingNames, count_filter hsel, count_names]

lemma count_matchingObjects {key : Bytes} (hsel : L.selects pattern key = true) :
    (s.matchingObjects L now pattern).count key = if s.ListsObject now key then 1 else 0 := by
  rw [matchingObjects, count_filter hsel, count_objectNames]

/-- One shard for everything, and patterns that match nothing. -/
def oneShard : ScanConfig where
  cacheShards := ⟨1, by decide, by decide, fun _ => 0⟩
  dictShards := ⟨1, by decide, by decide, fun _ => 0⟩
  pathMatch _ _ := false

def stringAndSet : Store Cache where
  shards := (∅ : Cache).insert [97] (.entry (writtenEntry [1] 0 0))
  slotIndex := ∅
  objects := (∅ : GoMap Bytes Object).insert [98] ⟨.set {[1]}, 0⟩

lemma names_stringAndSet : stringAndSet.shards.names oneShard.cacheShards 0 = [[[97]]] := by
  have hkeys : (stringAndSet.shards.keys.filter fun key =>
      oneShard.cacheShards.shardOf key = 0 ∧ stringAndSet.shards.Lists 0 key) = {[97]} := by
    decide
  change [stringAndSet.shards.shardKeys oneShard.cacheShards 0 0] = _
  rw [Cache.shardKeys, hkeys, Finset.singleton_val, Multiset.map_singleton, Multiset.sort_singleton]
  rfl

lemma objectNames_stringAndSet : stringAndSet.objectNames oneShard.dictShards 0 = [[[98]]] := by
  have hkeys : (stringAndSet.objects.keys.filter fun key =>
      oneShard.dictShards.shardOf key = 0 ∧ stringAndSet.ListsObject 0 key) = {[98]} := by
    decide
  change [stringAndSet.shardObjectKeys oneShard.dictShards 0 0] = _
  rw [shardObjectKeys, hkeys, Finset.sort_singleton]

lemma shortShards_stringAndSet : stringAndSet.ShortShards oneShard 0 where
  names := by
    rw [names_stringAndSet]
    decide
  objectNames := by
    rw [objectNames_stringAndSet]
    decide

end AutoCache.Store
