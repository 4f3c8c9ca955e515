import AutoCache.Store.Defs

/-!
# The sketch and the promotion policy (`internal/engine/tiered/policy.go`, `stats.go`)

Accesses are counted in a count-min sketch behind a Bloom filter. Both find their cells by a hash of the
key in 64-bit words, made positive by a change of sign. The smallest word has no positive counterpart.
-/

namespace AutoCache.Tiered

open Function Int64 List

/-! ## Cells of a key -/

/-- What `range` yields for a string, when `n` bytes of a character are still to come. -/
def runes : ℕ → Bytes → List Char
  | _, [] => []
  | n + 1, _ :: text => runes n text
  | 0, b :: text =>
    match (ByteArray.mk (b :: text).toArray).utf8DecodeChar? 0 with
    | some ch => ch :: runes (ch.utf8Size - 1) text
    | none => Char.ofNat 0xFFFD :: runes 0 text

def hash (key : Bytes) (seed : ℕ) : Int64 :=
  let h := (runes 0 key).foldl (fun h ch => h * 31 + ofNat ch.toNat) (ofNat seed * 0x9e3779b9)
  if h < 0 then -h else h

/-- The index `hash(key, seed) % width` in a slice of `width` elements. -/
def cell (width : Int64) (key : Bytes) (seed : ℕ) : Go ℕ :=
  let idx := hash key seed % width
  if 0 ≤ idx ∧ idx < width then return idx.toInt.toNat else throw .indexRange

structure CountMinSketch where
  width : Int64
  depth : ℕ
  matrix : ℕ → ℕ → UInt8

namespace CountMinSketch

def increment (c : CountMinSketch) (key : Bytes) : Go CountMinSketch := do
  let matrix ← (range c.depth).foldlM (fun matrix i => do
    let idx ← cell c.width key i
    return if matrix i idx < 255 then update matrix i (update (matrix i) idx (matrix i idx + 1))
      else matrix) c.matrix
  return { c with matrix := matrix }

def estimate (c : CountMinSketch) (key : Bytes) : Go UInt8 :=
  (range c.depth).foldlM (fun least i => do
    let idx ← cell c.width key i
    return if c.matrix i idx < least then c.matrix i idx else least) 255

end CountMinSketch

structure BloomFilter where
  size : Int64
  bits : ℕ → Bool

namespace BloomFilter

def add (bf : BloomFilter) (key : Bytes) : Go BloomFilter := do
  let bits ← (range 3).foldlM (fun bits i => do
    let idx ← cell bf.size key i
    return update bits idx true) bf.bits
  return { bf with bits := bits }

def contains (bf : BloomFilter) (key : Bytes) : Go Bool :=
  (range 3).allM fun i => do
    let idx ← cell bf.size key i
    return bf.bits idx

end BloomFilter

/-- The sketch and the filter of that width take every key. -/
def TakesKeys (width : Int64) : Prop :=
  ∀ key, (∀ depth matrix, (∃ c, CountMinSketch.increment ⟨width, depth, matrix⟩ key = .ok c) ∧
      ∃ n, CountMinSketch.estimate ⟨width, depth, matrix⟩ key = .ok n) ∧
    ∀ bits, (∃ bf, BloomFilter.add ⟨width, bits⟩ key = .ok bf) ∧
      ∃ found, BloomFilter.contains ⟨width, bits⟩ key = .ok found

/-- The only hash that is negative is the smallest word. -/
lemma hash_nonneg (key : Bytes) (seed : ℕ) : 0 ≤ hash key seed ∨ hash key seed = minValue := by
  unfold hash
  generalize foldl _ _ _ = h
  dsimp only
  split
  · next hneg =>
    rw [lt_iff_toInt_lt] at hneg
    rw [le_iff_toInt_le, ← toInt_inj, toInt_neg, toInt_minValue, Int.bmod]
    have hmin := h.le_toInt
    simp only [toInt_zero] at *
    split <;> omega
  · next hneg => exact .inl (Int64.not_lt.1 hneg)

lemma cell_returns_iff {width : Int64} (hw : 0 < width) (key : Bytes) (seed : ℕ) :
    (∃ idx, cell width key seed = .ok idx) ↔ 0 ≤ hash key seed ∨ 2 ^ 63 % width.toInt = 0 := by
  have hw' : 0 < width.toInt := lt_iff_toInt_lt.1 hw
  have hreturns : (∃ idx, cell width key seed = .ok idx) ↔ 0 ≤ (hash key seed).toInt.tmod width.toInt ∧
        (hash key seed).toInt.tmod width.toInt < width.toInt := by
    rw [← toInt_mod, ← lt_iff_toInt_lt, ← toInt_zero, ← le_iff_toInt_le]
    unfold cell
    dsimp only
    split
    · next h => exact iff_of_true ⟨_, rfl⟩ h
    · next h => exact iff_of_false (fun ⟨_, hidx⟩ => nomatch hidx) h
  rw [hreturns]
  have hlt := Int.emod_lt_of_pos (2 ^ 63) hw'
  rcases hash_nonneg key seed with h | h
  · have h' : 0 ≤ (hash key seed).toInt := le_iff_toInt_le.1 h
    rw [Int.tmod_eq_emod_of_nonneg h']
    exact iff_of_true ⟨Int.emod_nonneg _ hw'.ne', Int.emod_lt_of_pos _ hw'⟩ (.inl h)
  · rw [h, toInt_minValue, Int.neg_tmod, Int.tmod_eq_emod_of_nonneg (by norm_num)]
    have hnot : ¬ (0 : Int64) ≤ minValue := by decide
    have hge := Int.emod_nonneg (2 ^ 63) hw'.ne'
    constructor
    · intro hidx
      exact .inr (by omega)
    · rintro (h0 | h0)
      · exact absurd h0 hnot
      · omega

/-- The key with the digits of `2 ^ 63` to the base 31. -/
def smallestKey : Bytes := [11, 22, 0, 3, 18, 9, 5, 17, 18, 10, 4, 3, 8]

lemma hash_smallestKey : hash smallestKey 0 = minValue := by
  decide +kernel

/-- Every key has its cells exactly in a width that divides `2 ^ 63`, a power of two. -/
theorem takesKeys_iff {width : Int64} (hw : 0 < width) :
    TakesKeys width ↔ 2 ^ 63 % width.toInt = 0 := by
  constructor
  · intro h
    obtain ⟨bf, hadd⟩ := ((h smallestKey).2 fun _ => false).1
    obtain ⟨bits, hbits, -⟩ := Go.bind_eq_ok.1 hadd
    obtain ⟨bits', hfirst, -⟩ := Go.bind_eq_ok.1 hbits
    obtain ⟨idx, hcell, -⟩ := Go.bind_eq_ok.1 hfirst
    refine ((cell_returns_iff hw smallestKey 0).1 ⟨idx, hcell⟩).resolve_left ?_
    rw [hash_smallestKey]
    decide
  · intro h key
    choose idx hidx using fun i => (cell_returns_iff hw key i).2 (.inr h)
    refine ⟨fun depth matrix => ⟨?_, ?_⟩, fun bits => ⟨?_, ?_⟩⟩
    · simp only [CountMinSketch.increment, hidx, Go.ok_bind, foldlM_pure]
      exact ⟨_, rfl⟩
    · simp only [CountMinSketch.estimate, hidx, Go.ok_bind, foldlM_pure]
      exact ⟨_, rfl⟩
    · simp only [BloomFilter.add, hidx, Go.ok_bind, foldlM_pure]
      exact ⟨_, rfl⟩
    · simp only [BloomFilter.contains, hidx, Go.ok_bind, allM_pure]
      exact ⟨_, rfl⟩

/-- The widths of the store. -/
theorem takesKeys_store : (0 : Int64) < 65536 ∧ TakesKeys 65536 :=
  ⟨by decide, (takesKeys_iff (by decide)).2 (by decide)⟩

/-- In a filter of three cells the smallest word gives the index `-2`. -/
theorem add_smallestKey_panics :
    BloomFilter.add ⟨3, fun _ => false⟩ smallestKey = .error .indexRange := by
  have hcell : cell 3 smallestKey 0 = .error .indexRange := by
    rw [cell, hash_smallestKey]
    decide
  exact congrArg (· >>= _) (congrArg (· >>= _) (congrArg (· >>= _) hcell))

/-! ## The policy -/

inductive TierType where
  | hot
  | warm
  | cold

structure AccessStats where
  accessCount : UInt64
  lastAccessTime : Int64
  writeTime : Int64
  size : Int64

/-- `WTinyLFUCostAwareConfig`. `lowUtility` is the comparison of floats
`utilityScore(stats) <= WarmToColdDemoteThreshold`. -/
structure PolicyConfig where
  hotIdleThreshold : Int64
  windowPercentage : Int64
  warmPromotionMinFrequency : UInt64
  lowUtility : AccessStats → Int → Bool

structure Policy where
  cfg : PolicyConfig
  windowAdmissionFreq : UInt8
  protectedMinFreq : UInt8
  sketch : CountMinSketch

def PolicyConfig.normalized (cfg : PolicyConfig) : PolicyConfig :=
  { cfg with
    hotIdleThreshold := if cfg.hotIdleThreshold ≤ 0 then 300000000000 else cfg.hotIdleThreshold
    windowPercentage := if cfg.windowPercentage ≤ 0 then 1 else cfg.windowPercentage
    warmPromotionMinFrequency :=
      if cfg.warmPromotionMinFrequency = 0 then 2 else cfg.warmPromotionMinFrequency }

namespace Policy

def atLeastOne (freq : UInt8) : UInt8 := if freq < 1 then 1 else freq

/-- `NewWTinyLFUCostAwarePolicy`. -/
def new (config : PolicyConfig) : Policy :=
  let cfg := config.normalized
  let freq := cfg.warmPromotionMinFrequency
  { cfg := cfg
    windowAdmissionFreq :=
      if 1 < freq then atLeastOne ((freq * cfg.windowPercentage.toUInt64 + 99) / 100).toUInt8 else 1
    protectedMinFreq := atLeastOne freq.toUInt8
    sketch := ⟨65536, 4, fun _ _ => 0⟩ }

def estimateFrequency (p : Policy) (key : Bytes) : Option AccessStats → Go UInt8
  | none => return 0
  | some stats => do
    let estimate ← p.sketch.estimate key
    return if estimate = 0 then
      if 255 < stats.accessCount then 255 else stats.accessCount.toUInt8
    else estimate

def shouldDemote (p : Policy) (key : Bytes) (stats : Option AccessStats) (now : Int) :
    TierType → Go Bool
  | .hot =>
    match stats with
    | none => return false
    | some st =>
      if Store.timeUntil now st.lastAccessTime.toInt ≤ p.cfg.hotIdleThreshold.toInt then return false
      else do
        let frequency ← p.estimateFrequency key stats
        return frequency ≤ p.windowAdmissionFreq ∨ frequency < p.protectedMinFreq
  | .warm => return stats.any (p.cfg.lowUtility · now)
  | .cold => return false

def shouldPromote (p : Policy) (key : Bytes) (stats : Option AccessStats) : TierType → Go Bool
  | .hot => return false
  | _ => do
    let frequency ← p.estimateFrequency key stats
    return stats.isSome ∧ p.protectedMinFreq ≤ frequency

/-- Whatever the sketch holds, no key is wanted in both tiers, and none in the hot tier that is not
frequent enough. -/
def Steady (p : Policy) : Prop :=
  ∀ matrix key stats now, let q := { p with sketch := ⟨65536, 4, matrix⟩ }
    ¬ (q.shouldDemote key stats now .hot = .ok true ∧ q.shouldPromote key stats .warm = .ok true) ∧
      ∀ f, q.estimateFrequency key stats = .ok f → q.shouldPromote key stats .warm = .ok true →
        min q.cfg.warmPromotionMinFrequency.toNat 255 ≤ f.toNat

variable {p : Policy} {key : Bytes} {stats : AccessStats} {f : UInt8}

lemma toNat_atLeastOne (freq : UInt8) : (atLeastOne freq).toNat = max 1 freq.toNat := by
  unfold atLeastOne
  split
  · next h => exact (max_eq_left (Nat.le_of_lt (UInt8.lt_iff_toNat_lt.1 h))).symm
  · next h => exact (max_eq_right (UInt8.not_lt.1 h)).symm

lemma estimateFrequency_of_const (hp : p.sketch = ⟨65536, 4, fun _ _ => f⟩) (hf : 1 ≤ f) :
    p.estimateFrequency key (some stats) = .ok f := by
  choose idx hidx using fun i => (@cell_returns_iff 65536 (by decide) key i).2 (.inr (by decide))
  have hest : p.sketch.estimate key = .ok f := by
    rw [hp]
    simp only [CountMinSketch.estimate, hidx, Go.ok_bind, foldlM_pure]
    refine congrArg Except.ok ?_
    simp only [range, range.loop, foldl]
    grind
  have hne : f ≠ 0 := by grind
  simp only [estimateFrequency, hest, Go.ok_bind, if_neg hne, Go.pure_eq_ok]

lemma shouldPromote_iff (hf : p.estimateFrequency key (some stats) = .ok f) :
    p.shouldPromote key (some stats) .warm = .ok true ↔ p.protectedMinFreq ≤ f := by
  simp [shouldPromote, hf]

lemma shouldDemote_iff {now : Int} (hf : p.estimateFrequency key (some stats) = .ok f) :
    p.shouldDemote key (some stats) now .hot = .ok true ↔
      p.cfg.hotIdleThreshold.toInt < Store.timeUntil now stats.lastAccessTime.toInt ∧
        (f ≤ p.windowAdmissionFreq ∨ f < p.protectedMinFreq) := by
  rw [← not_le]
  by_cases hidle : Store.timeUntil now stats.lastAccessTime.toInt ≤ p.cfg.hotIdleThreshold.toInt
  · simp [shouldDemote, hidle]
  · simp [shouldDemote, hidle, hf]

/-- The window's threshold must be the lower one, and the other the configured one. -/
lemma steady_iff_thresholds (hone : 1 ≤ p.protectedMinFreq) : p.Steady ↔
      (p.windowAdmissionFreq < p.protectedMinFreq ∨ p.cfg.hotIdleThreshold = maxValue) ∧
        min p.cfg.warmPromotionMinFrequency.toNat 255 ≤ p.protectedMinFreq.toNat := by
  constructor
  · intro h
    have hf := @estimateFrequency_of_const
      { p with sketch := ⟨65536, 4, fun _ _ => p.protectedMinFreq⟩ } [] ⟨0, 0, 0, 0⟩ _ rfl hone
    have hprom := (shouldPromote_iff hf).2 (UInt8.le_refl _)
    obtain ⟨hboth, hfreq⟩ := h (fun _ _ => p.protectedMinFreq) [] (some ⟨0, 0, 0, 0⟩) (2 ^ 63)
    refine ⟨?_, hfreq _ hf hprom⟩
    by_contra hc
    rw [not_or, UInt8.not_lt] at hc
    refine hboth ⟨(shouldDemote_iff hf).2 ⟨?_, .inl hc.1⟩, hprom⟩
    have hlt := p.cfg.hotIdleThreshold.toInt_lt
    have hne : p.cfg.hotIdleThreshold.toInt ≠ 2 ^ 63 - 1 := fun heq => hc.2 (toInt_inj.1 heq)
    exact lt_of_lt_of_eq (by dsimp only; omega) (show (2 ^ 63 - 1 : Int) = _ by decide)
  · rintro ⟨hwindow, hmin⟩ matrix key stats now q
    cases stats with
    | none => exact ⟨nofun, nofun⟩
    | some stats =>
      refine ⟨fun ⟨hdem, hprom⟩ => ?_, fun f hf hprom => ?_⟩
      · obtain ⟨f, hf, -⟩ := Go.bind_eq_ok.1 hprom
        rw [shouldPromote_iff hf] at hprom
        obtain ⟨hidle, hlow⟩ := (shouldDemote_iff hf).1 hdem
        have hlt : q.windowAdmissionFreq < q.protectedMinFreq := by
          -- a saturated idle time is not over the largest threshold
          refine hwindow.resolve_right fun heq => absurd hidle (not_lt.2 ?_)
          rw [show q.cfg.hotIdleThreshold = maxValue from heq]
          exact max_le (by decide) (min_le_left _ _)
        grind
      · exact hmin.trans ((shouldPromote_iff hf).1 hprom)

/-- Both thresholds are cut to eight bits. The window's is lower than the other exactly if that survives
the cut, and the other is the configured one, up to saturation, unless it lost bits that count. -/
theorem steady_iff (cfg : PolicyConfig) :
    (new cfg).Steady ↔
      let freq := cfg.normalized.warmPromotionMinFrequency.toNat
      let percent := cfg.normalized.windowPercentage.toUInt64.toNat
      (1 < freq ∧ max 1 ((freq * percent + 99) % 2 ^ 64 / 100 % 256) < max 1 (freq % 256) ∨
        cfg.normalized.hotIdleThreshold = maxValue) ∧ (freq < 256 ∨ freq % 256 = 255) := by
  have hone : 1 ≤ (new cfg).protectedMinFreq := by
    change 1 ≤ (atLeastOne _).toNat
    rw [toNat_atLeastOne]
    exact le_max_left _ _
  rw [steady_iff_thresholds hone, UInt8.lt_iff_toNat_lt]
  dsimp only [new]
  have hfreq : cfg.normalized.warmPromotionMinFrequency ≠ 0 := by
    unfold PolicyConfig.normalized
    dsimp only
    split
    · decide
    · assumption
  generalize cfg.normalized.warmPromotionMinFrequency = freq at *
  generalize cfg.normalized.windowPercentage.toUInt64 = percent
  have hpos : freq.toNat ≠ 0 := fun h => hfreq (UInt64.toNat_inj.1 h)
  rw [toNat_atLeastOne, UInt64.toNat_toUInt8]
  refine and_congr (or_congr_left ?_) (by omega)
  by_cases h : 1 < freq
  · have h' : 1 < freq.toNat := h
    rw [if_pos h, toNat_atLeastOne]
    simp [h']
  · have h' : freq.toNat ≤ 1 := UInt64.not_lt.1 h
    rw [if_neg h, show freq.toNat = 1 by omega]
    simp

/-- A configured frequency of 1 is also the window's: such keys are wanted in both tiers. -/
theorem oscillates :
    (new ⟨0, 0, 1, fun _ _ => false⟩).shouldDemote [107] (some ⟨1, 0, 0, 0⟩) (10 ^ 12) .hot = .ok true ∧
      (new ⟨0, 0, 1, fun _ _ => false⟩).shouldPromote [107] (some ⟨1, 0, 0, 0⟩) .warm = .ok true :=
  ⟨rfl, rfl⟩

end Policy

end AutoCache.Tiered
