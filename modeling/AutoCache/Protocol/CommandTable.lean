import AutoCache.Protocol.FastPath

/-!
# The table of commands (`internal/protocol/cmdmap.go`)

The handlers are in a table of 128 buckets with linear probing. An entry goes to the first empty bucket on its path,
so a lookup that ends at an empty bucket has not missed it.
-/

namespace AutoCache.Protocol

open Function List

/-- `HashBytes`. -/
def hashBytes (b : Bytes) : UInt32 := b.foldl (fun h c => (h ^^^ (upperByte c).toUInt32) * 16777619) 2166136261

abbrev CmdMap (H : Type) := Fin 128 → Option (Bytes × H)

/-- The buckets in the order in which they are probed: `((hash & 127) + i) & 127`. -/
def probes (hash : UInt32) : List (Fin 128) :=
  (range 128).map fun i => Fin.ofNat 128 (((hash &&& 127) + UInt32.ofNat i) &&& 127).toNat

lemma mem_probes (hash : UInt32) (p : Fin 128) : p ∈ probes hash := by
  refine mem_map.2 ⟨(p.val + (128 - hash.toNat % 128)) % 128, mem_range.2 (Nat.mod_lt _ (by decide)), Fin.ext ?_⟩
  have hand (x : UInt32) : (x &&& 127).toNat = x.toNat % 128 := Nat.and_two_pow_sub_one_eq_mod x.toNat 7
  simp only [Fin.val_ofNat, hand, UInt32.toNat_add, UInt32.toNat_ofNat']
  omega

namespace CmdMap

variable {H : Type}

def registerFrom (cm : CmdMap H) (entry : Bytes × H) : List (Fin 128) → Option (CmdMap H)
  | [] => none
  | p :: rest =>
    match cm p with
    | none => some (update cm p (some entry))
    | some _ => registerFrom cm entry rest

def lookupFrom (cm : CmdMap H) (name : Bytes) : List (Fin 128) → Option H
  | [] => none
  | p :: rest =>
    match cm p with
    | none => none
    | some entry => if entry.1 = name then some entry.2 else lookupFrom cm name rest

section

variable (hash : Bytes → UInt32)

/-- `none` is the panic of a full table. -/
def register (cm : CmdMap H) (entry : Bytes × H) : Option (CmdMap H) := cm.registerFrom entry (probes (hash entry.1))

def lookup (cm : CmdMap H) (name : Bytes) : Option H := cm.lookupFrom name (probes (hash name))

def registerAll (entries : List (Bytes × H)) : Option (CmdMap H) := entries.foldlM (register hash) fun _ => none

structure Holds (cm : CmdMap H) (entries : List (Bytes × H)) : Prop where
  stored : ∀ p e, cm p = some e → e ∈ entries
  found : ∀ e ∈ entries, cm.lookup hash e.1 = some e.2
  used : ∃ ps : List (Fin 128), ps.length = entries.length ∧ ∀ p ∉ ps, cm p = none

end

variable {hash : Bytes → UInt32} {cm : CmdMap H} {entries rest : List (Bytes × H)} {entry : Bytes × H}
  {path : List (Fin 128)} {p : Fin 128} {name : Bytes} {handler : H}

lemma exists_stored (h : cm.lookupFrom name path = some handler) : ∃ p, cm p = some (name, handler) := by
  fun_induction lookupFrom cm name path with
  | case1 | case2 => cases h
  | case3 p rest e he hname =>
    cases h
    rw [← hname]
    exact ⟨p, he⟩
  | case4 p rest e he hne ih => exact ih h

/-- An entry more does not hide one that is found. -/
lemma lookupFrom_update (hp : cm p = none) (h : cm.lookupFrom name path = some handler) :
    lookupFrom (update cm p (some entry)) name path = some handler := by
  induction path with
  | nil => cases h
  | cons q path ih =>
    have hne : q ≠ p := by
      rintro rfl
      simp [lookupFrom, hp] at h
    simp only [lookupFrom, update_of_ne hne] at h ⊢
    split at h
    · cases h
    · split_ifs at h ⊢
      · exact h
      · exact ih h

lemma registerFrom_spec (hnew : ∀ p e, cm p = some e → e.1 ≠ entry.1) (hfree : ∃ p ∈ path, cm p = none) :
    ∃ p, cm p = none ∧ cm.registerFrom entry path = some (update cm p (some entry)) ∧
      lookupFrom (update cm p (some entry)) entry.1 path = some entry.2 := by
  induction path with
  | nil => simp at hfree
  | cons q path ih =>
    cases hq : cm q with
    | none => exact ⟨q, hq, by simp [registerFrom, hq], by simp [lookupFrom]⟩
    | some e =>
      obtain ⟨p, hp, hreg, hfind⟩ := ih (by simpa [hq] using hfree)
      have hne : q ≠ p := by
        rintro rfl
        cases hq.symm.trans hp
      exact ⟨p, hp, by simp [registerFrom, hq, hreg], by simp [lookupFrom, hne, hq, hnew q e hq, hfind]⟩

lemma Holds.register (h : cm.Holds hash entries) (hlen : entries.length < 128) (hnew : ∀ e ∈ entries, e.1 ≠ entry.1) :
    ∃ cm', cm.register hash entry = some cm' ∧ cm'.Holds hash (entries ++ [entry]) := by
  obtain ⟨ps, hps, hfree⟩ := h.used
  obtain ⟨p, hp⟩ : ∃ p, p ∉ ps := by
    by_contra! hall
    have hle := Finset.card_le_card fun p (_ : p ∈ Finset.univ) => mem_toFinset.2 (hall p)
    have := hle.trans (toFinset_card_le ps)
    rw [Finset.card_fin] at this
    omega
  obtain ⟨p, hp, hreg, hfind⟩ := registerFrom_spec (fun q e he => hnew e (h.stored q e he))
    ⟨p, mem_probes (hash entry.1) p, hfree p hp⟩
  refine ⟨_, hreg, fun q e he => ?_, fun e he => ?_, p :: ps, by simp [hps], fun q hq => ?_⟩
  · by_cases hq : q = p
    · subst hq
      rw [update_self] at he
      cases he
      exact mem_append_right _ mem_cons_self
    · rw [update_of_ne hq] at he
      exact mem_append_left _ (h.stored q e he)
  · rcases mem_append.1 he with he | he
    · exact lookupFrom_update hp (h.found e he)
    · rw [mem_singleton.1 he]
      exact hfind
  · rw [mem_cons, not_or] at hq
    rw [update_of_ne hq.1, hfree q hq.2]

lemma Holds.registerAll (h : cm.Holds hash entries) (hlen : (entries ++ rest).length ≤ 128)
    (hnd : (entries ++ rest).Pairwise (·.1 ≠ ·.1)) :
    ∃ cm', rest.foldlM (CmdMap.register hash) cm = some cm' ∧ cm'.Holds hash (entries ++ rest) := by
  induction rest generalizing cm entries with
  | nil => exact ⟨cm, rfl, by rwa [append_nil]⟩
  | cons entry rest ih =>
    have hnew : ∀ e ∈ entries, e.1 ≠ entry.1 := fun e he => (pairwise_append.1 hnd).2.2 e he entry mem_cons_self
    obtain ⟨cm', hreg, hcm'⟩ := h.register (by simp at hlen; omega) hnew
    rw [append_cons] at hlen hnd ⊢
    rw [foldlM_cons, hreg]
    exact ih hcm' hlen hnd

end CmdMap

variable {σ : Type}

/-- What is registered under a name in upper case. -/
def handlerOf (cfg : NodeConfig σ) (now : Int) (name : Bytes) : Option (List Bytes → HandlerM σ Reply) :=
  match Command.ofName name with
  | some c => some (c.run cfg now)
  | none => cfg.other name

def plainTable : List (Bytes × (List Bytes → HandlerM Cache Reply)) :=
  Command.all.map fun c => (ascii c.name, c.run plainNode 5)

end AutoCache.Protocol
