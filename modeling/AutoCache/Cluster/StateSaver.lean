import AutoCache.Lib.Runs
import Mathlib.Tactic.Common

/-!
# Saving the cluster state (`internal/cluster/state/manager.go`)

Whoever changes the cluster state calls `MarkDirty`: it raises a flag and, if the flag was down, wakes the
save loop. After a pause the loop saves: it takes a snapshot of the provider, writes and renames the file,
and takes the flag down. `Close` waits for the loop and saves once more if the flag is up.

The flag is taken down after the snapshot. A change that comes in between finds the flag up and wakes nobody,
and then the flag goes down: nothing will save that change, unless another one follows.

A provider is set and file operations succeed. Nobody but the loop and `Close` saves.
-/

namespace AutoCache.Cluster

/-- Where the loop is; when it has returned, where `Close` is. A save is made by the loop or, with `closing`,
by `Close`. -/
inductive SaverPhase (σ : Type) where
  /-- the loop is in its `select` -/
  | waiting
  /-- the timer has fired -/
  | fired
  /-- the flag was up: `save` begins -/
  | saving (closing : Bool)
  | snapped (closing : Bool) (snapshot : σ)
  /-- the file is renamed, the flag not yet taken down -/
  | written (closing : Bool)
  /-- the loop has returned, `Close` looks at the flag -/
  | checking
  | closed

/-- `due` counts the calls of `MarkDirty` that are at their compare-and-swap, `sends` those at their send. -/
structure StateSaver (σ : Type) where
  provider : σ
  file : Option σ
  dirty : Bool := false
  signal : Bool := false
  armed : Bool := false
  phase : SaverPhase σ := .waiting
  due : ℕ := 0
  sends : ℕ := 0
  done : Bool := false

inductive SaverEvent (σ : Type) where
  /-- the provider's state changes, `MarkDirty` is called -/
  | change (provider : σ)
  | compareAndSwap
  | send
  /-- the loop receives the signal and sets its timer -/
  | receive
  | timer
  /-- the loop looks at the flag -/
  | check
  | snapshot
  | write
  | clear
  /-- `Close` is called; no `MarkDirty` is running or comes later -/
  | close
  /-- the loop sees `doneCh` closed and returns -/
  | exit
  /-- `Close` looks at the flag -/
  | finish

/-- The loop is still running. -/
def SaverPhase.ofLoop {σ : Type} : SaverPhase σ → Bool
  | .waiting => true
  | .fired => true
  | .saving closing => !closing
  | .snapped closing _ => !closing
  | .written closing => !closing
  | .checking => false
  | .closed => false

namespace StateSaver

variable {σ : Type}

inductive Disabled where
  | disabled

def afterSave (closing : Bool) : SaverPhase σ := if closing then .closed else .waiting

def step (s : StateSaver σ) : SaverEvent σ → Except Disabled (StateSaver σ)
  | .change provider =>
    if s.done then .error .disabled else .ok { s with provider := provider, due := s.due + 1 }
  | .compareAndSwap =>
    if s.due = 0 then .error .disabled
    else if s.dirty then .ok { s with due := s.due - 1 }
    else .ok { s with dirty := true, due := s.due - 1, sends := s.sends + 1 }
  | .send =>
    if s.sends = 0 then .error .disabled else .ok { s with signal := true, sends := s.sends - 1 }
  | .receive =>
    match s.phase with
    | .waiting => if s.signal then .ok { s with signal := false, armed := true } else .error .disabled
    | _ => .error .disabled
  | .timer =>
    match s.phase with
    | .waiting => if s.armed then .ok { s with armed := false, phase := .fired } else .error .disabled
    | _ => .error .disabled
  | .check =>
    match s.phase with
    | .fired => .ok { s with phase := if s.dirty then .saving false else .waiting }
    | _ => .error .disabled
  | .snapshot =>
    match s.phase with
    | .saving closing => .ok { s with phase := .snapped closing s.provider }
    | _ => .error .disabled
  | .write =>
    match s.phase with
    | .snapped closing snapshot => .ok { s with file := some snapshot, phase := .written closing }
    | _ => .error .disabled
  | .clear =>
    match s.phase with
    | .written closing => .ok { s with dirty := false, phase := afterSave closing }
    | _ => .error .disabled
  | .close =>
    if s.done ∨ s.due ≠ 0 ∨ s.sends ≠ 0 then .error .disabled else .ok { s with done := true }
  | .exit =>
    match s.phase with
    | .waiting => if s.done then .ok { s with phase := .checking } else .error .disabled
    | _ => .error .disabled
  | .finish =>
    match s.phase with
    | .checking => .ok { s with phase := if s.dirty then .saving true else .closed }
    | _ => .error .disabled

/-- `NewStateManager`, with whatever file there is. -/
def start (file : Option σ) (provider : σ) : StateSaver σ := { provider, file }

/-! ## What is claimed, and when it holds -/

/-- An event in which nobody changes the provider's state or marks it. -/
def Quiet : SaverEvent σ → Prop
  | .change _ => False
  | .compareAndSwap => False
  | _ => True

/-- However the run goes on, if no change comes any more then after `Close` the file has the provider's
state. -/
def LosesNothing (s : StateSaver σ) : Prop :=
  ∀ tail, (∀ event ∈ tail, Quiet event) → ∀ s', Runs.run step s tail = .ok s' → s'.phase = .closed →
    s'.file = some s'.provider

/-- The file is or will be what the save in progress has seen: that is the provider's state. -/
def UpToDate (s : StateSaver σ) : Prop :=
  match s.phase with
  | .snapped _ snapshot => snapshot = s.provider
  | .written _ => s.file = some s.provider
  | _ => True

/-- The last `MarkDirty` that is due does not come between a snapshot and the flag being taken down, unless
the snapshot has its change; and `Close` is not called before the first change, unless the file is the
provider's state from the start. -/
def Keeps (s : StateSaver σ) : SaverEvent σ → Prop
  | .compareAndSwap => s.due = 1 → s.UpToDate
  | .close => s.due = 0 → s.phase = .waiting → s.dirty = false → s.file = some s.provider
  | _ => True

/-! ## States from which nothing is lost -/

/-- A change is still to be marked; or it is saved, or will be since the flag is up. -/
def Covered (s : StateSaver σ) : Prop :=
  0 < s.due ∨
    match s.phase with
    | .saving _ => True
    | .snapped _ snapshot => snapshot = s.provider
    | .written _ => s.file = some s.provider
    | .closed => s.file = some s.provider
    | _ => s.dirty = true ∨ s.file = some s.provider

/-- After `Close` was called nobody marks changes; before, the loop is running. -/
structure WellPhased (s : StateSaver σ) : Prop where
  quiet : s.done = true → s.due = 0 ∧ s.sends = 0
  running : s.done = false → s.phase.ofLoop = true

structure Idle (s : StateSaver σ) : Prop where
  phase : s.phase = .waiting
  dirty : s.dirty = false
  signal : s.signal = false
  armed : s.armed = false
  due : s.due = 0
  sends : s.sends = 0
  done : s.done = false

variable {s s' : StateSaver σ} {event : SaverEvent σ}

lemma step_cases (h : s.step event = .ok s') : match event with
    | .change provider => s.done = false ∧ s' = { s with provider := provider, due := s.due + 1 }
    | .compareAndSwap => s.due ≠ 0 ∧ (s.dirty = true ∧ s' = { s with due := s.due - 1 } ∨
          s.dirty = false ∧ s' = { s with dirty := true, due := s.due - 1, sends := s.sends + 1 })
    | .send => s.sends ≠ 0 ∧ s' = { s with signal := true, sends := s.sends - 1 }
    | .receive => s.phase = .waiting ∧ s.signal = true ∧ s' = { s with signal := false, armed := true }
    | .timer => s.phase = .waiting ∧ s.armed = true ∧ s' = { s with armed := false, phase := .fired }
    | .check => s.phase = .fired ∧ s' = { s with phase := if s.dirty then .saving false else .waiting }
    | .snapshot => ∃ closing, s.phase = .saving closing ∧ s' = { s with phase := .snapped closing s.provider }
    | .write => ∃ closing snapshot, s.phase = .snapped closing snapshot ∧
        s' = { s with file := some snapshot, phase := .written closing }
    | .clear => ∃ closing, s.phase = .written closing ∧ s' = { s with dirty := false, phase := afterSave closing }
    | .close => s.done = false ∧ s.due = 0 ∧ s.sends = 0 ∧ s' = { s with done := true }
    | .exit => s.phase = .waiting ∧ s.done = true ∧ s' = { s with phase := .checking }
    | .finish => s.phase = .checking ∧ s' = { s with phase := if s.dirty then .saving true else .closed } := by
  cases event with simp only [step] at h
  | change provider =>
    split at h
    · cases h
    · next hdone =>
      cases h
      exact ⟨by simpa using hdone, rfl⟩
  | compareAndSwap =>
    split_ifs at h with hdue hdty
    · cases h
      exact ⟨hdue, .inl ⟨hdty, rfl⟩⟩
    · cases h
      exact ⟨hdue, .inr ⟨by simpa using hdty, rfl⟩⟩
  | send =>
    split_ifs at h with hsends
    cases h
    exact ⟨hsends, rfl⟩
  | receive =>
    split at h
    · next hph =>
      split_ifs at h with hsignal
      cases h
      exact ⟨hph, hsignal, rfl⟩
    · cases h
  | timer =>
    split at h
    · next hph =>
      split_ifs at h with harmed
      cases h
      exact ⟨hph, harmed, rfl⟩
    · cases h
  | check | finish =>
    split at h
    · next hph =>
      cases h
      exact ⟨hph, rfl⟩
    · cases h
  | snapshot | clear =>
    split at h
    · next closing hph =>
      cases h
      exact ⟨closing, hph, rfl⟩
    · cases h
  | write =>
    split at h
    · next closing snapshot hph =>
      cases h
      exact ⟨closing, snapshot, hph, rfl⟩
    · cases h
  | close =>
    split_ifs at h with hlate
    cases h
    rw [not_or, not_or, not_not, not_not] at hlate
    exact ⟨by simpa using hlate.1, hlate.2.1, hlate.2.2, rfl⟩
  | exit =>
    split at h
    · next hph =>
      split_ifs at h with hdone
      cases h
      exact ⟨hph, hdone, rfl⟩
    · cases h

lemma WellPhased.step (hw : s.WellPhased) (h : s.step event = .ok s') : s'.WellPhased := by
  have hcases := step_cases h
  cases event with
  | change provider =>
    obtain ⟨hdone, rfl⟩ := hcases
    exact ⟨(fun hc => nomatch hdone.symm.trans hc), hw.running⟩
  | compareAndSwap =>
    obtain ⟨hdue, ⟨-, rfl⟩ | ⟨-, rfl⟩⟩ := hcases
    · exact ⟨fun hdone => absurd (hw.quiet hdone).1 hdue, hw.running⟩
    · exact ⟨fun hdone => absurd (hw.quiet hdone).1 hdue, hw.running⟩
  | send =>
    obtain ⟨hsends, rfl⟩ := hcases
    exact ⟨fun hdone => absurd (hw.quiet hdone).2 hsends, hw.running⟩
  | receive =>
    obtain ⟨-, -, rfl⟩ := hcases
    exact ⟨hw.quiet, hw.running⟩
  | timer =>
    obtain ⟨-, -, rfl⟩ := hcases
    exact ⟨hw.quiet, fun _ => rfl⟩
  | check =>
    obtain ⟨-, rfl⟩ := hcases
    refine ⟨hw.quiet, fun _ => ?_⟩
    split <;> rfl
  | snapshot =>
    obtain ⟨closing, hph, rfl⟩ := hcases
    refine ⟨hw.quiet, fun hdone => ?_⟩
    have hrng := hw.running hdone
    rw [hph] at hrng
    exact hrng
  | write =>
    obtain ⟨closing, snapshot, hph, rfl⟩ := hcases
    refine ⟨hw.quiet, fun hdone => ?_⟩
    have hrng := hw.running hdone
    rw [hph] at hrng
    exact hrng
  | clear =>
    obtain ⟨closing, hph, rfl⟩ := hcases
    refine ⟨hw.quiet, fun hdone => ?_⟩
    have hrng := hw.running hdone
    rw [hph] at hrng
    cases closing with
    | false => rfl
    | true => cases hrng
  | close =>
    obtain ⟨-, hdue, hsends, rfl⟩ := hcases
    exact ⟨fun _ => ⟨hdue, hsends⟩, nofun⟩
  | exit =>
    obtain ⟨-, hdone, rfl⟩ := hcases
    exact ⟨hw.quiet, fun hc => nomatch hdone.symm.trans hc⟩
  | finish =>
    obtain ⟨hph, rfl⟩ := hcases
    refine ⟨hw.quiet, fun hdone => ?_⟩
    have hrng := hw.running hdone
    rw [hph] at hrng
    cases hrng

/-! ## One step -/

/-- **Covered states lead to covered states**, if the step meets its condition. -/
lemma Covered.step (hs : s.Covered) (hw : s.WellPhased) (h : s.step event = .ok s') (hkp : s.Keeps event) : s'.Covered := by
  have hcases := step_cases h
  cases event with
  | change provider =>
    obtain ⟨-, rfl⟩ := hcases
    exact .inl (Nat.succ_pos _)
  | compareAndSwap =>
    obtain ⟨hdue, hcases⟩ := hcases
    -- somebody else is due, or this was the last one
    by_cases hlast : s.due = 1
    · have hdone : s.done = false := by
        by_contra hdone
        exact hdue (hw.quiet (by simpa using hdone)).1
      have hrng := hw.running hdone
      have huptodate := hkp hlast
      have hdty : s'.phase = s.phase ∧ s'.file = s.file ∧ s'.provider = s.provider ∧ s'.dirty = true := by
        obtain ⟨hdty, rfl⟩ | ⟨-, rfl⟩ := hcases
        · exact ⟨rfl, rfl, rfl, hdty⟩
        · exact ⟨rfl, rfl, rfl, rfl⟩
      obtain ⟨hph, hfile, hprovider, hdty⟩ := hdty
      right
      unfold UpToDate at huptodate
      rw [hph, hfile, hprovider]
      cases hp : s.phase with
      | waiting | fired => exact .inl hdty
      | saving closing => trivial
      | snapped closing snapshot | written closing =>
        rw [hp] at huptodate
        exact huptodate
      | checking | closed =>
        rw [hp] at hrng
        cases hrng
    · left
      obtain ⟨-, rfl⟩ | ⟨-, rfl⟩ := hcases
      · dsimp only
        omega
      · dsimp only
        omega
  | send =>
    obtain ⟨-, rfl⟩ := hcases
    exact hs
  | receive =>
    obtain ⟨-, -, rfl⟩ := hcases
    exact hs
  | timer | exit =>
    obtain ⟨hph, -, rfl⟩ := hcases
    unfold Covered at hs
    rw [hph] at hs
    exact hs
  | check =>
    obtain ⟨hph, rfl⟩ := hcases
    refine hs.imp_right fun hs => ?_
    rw [hph] at hs
    cases hdty : s.dirty with
    | true => trivial
    | false => exact .inr (hs.resolve_left (by simp [hdty]))
  | snapshot =>
    obtain ⟨closing, -, rfl⟩ := hcases
    exact .inr rfl
  | write =>
    obtain ⟨closing, snapshot, hph, rfl⟩ := hcases
    refine hs.imp_right fun hs => ?_
    rw [hph] at hs
    exact congrArg some hs
  | clear =>
    obtain ⟨closing, hph, rfl⟩ := hcases
    refine hs.imp_right fun hs => ?_
    rw [hph] at hs
    cases closing with
    | true => exact hs
    | false => exact .inr hs
  | close =>
    obtain ⟨-, -, -, rfl⟩ := hcases
    exact hs
  | finish =>
    obtain ⟨hph, rfl⟩ := hcases
    refine hs.imp_right fun hs => ?_
    rw [hph] at hs
    cases hdty : s.dirty with
    | true => trivial
    | false => exact hs.resolve_left (by simp [hdty])

/-- The first thing that happens is a change, or `Close`. -/
lemma Idle.step (hs : s.Idle) (h : s.step event = .ok s') (hkp : s.Keeps event) : s'.Covered := by
  have hcases := step_cases h
  cases event with
  | change provider =>
    obtain ⟨-, rfl⟩ := hcases
    exact .inl (Nat.succ_pos _)
  | close =>
    obtain ⟨-, -, -, rfl⟩ := hcases
    have hfile := hkp hs.due hs.phase hs.dirty
    right
    rw [hs.phase]
    exact .inr hfile
  | compareAndSwap => exact absurd hs.due hcases.1
  | send => exact absurd hs.sends hcases.1
  | receive => exact nomatch hs.signal.symm.trans hcases.2.1
  | timer => exact nomatch hs.armed.symm.trans hcases.2.1
  | check | finish => exact nomatch hs.phase.symm.trans hcases.1
  | snapshot | clear =>
    obtain ⟨closing, hph, -⟩ := hcases
    exact nomatch hs.phase.symm.trans hph
  | write =>
    obtain ⟨closing, snapshot, hph, -⟩ := hcases
    exact nomatch hs.phase.symm.trans hph
  | exit => exact nomatch hs.done.symm.trans hcases.2.1

/-- Where nobody is due and the flag is down, `Close` may be called at any time. -/
lemma Covered.keeps_close (hs : s.Covered) : s.Keeps .close := by
  intro hdue hph hdty
  unfold Covered at hs
  rw [hph] at hs
  exact (hs.resolve_left (by omega)).resolve_left (by simp [hdty])

lemma Covered.keeps_of_quiet (hs : s.Covered) (hquiet : Quiet event) : s.Keeps event := by
  cases event with
  | compareAndSwap => exact hquiet.elim
  | close => exact hs.keeps_close
  | _ => trivial

lemma keeps_of_covered (h : s.step event = .ok s') (hs' : s'.Covered) : s.Keeps event := by
  have hcases := step_cases h
  cases event with
  | compareAndSwap =>
    intro hlast
    obtain ⟨-, hcases⟩ := hcases
    have hsame : s'.phase = s.phase ∧ s'.file = s.file ∧ s'.provider = s.provider ∧ s'.due = 0 := by
      obtain ⟨-, rfl⟩ | ⟨-, rfl⟩ := hcases
      · exact ⟨rfl, rfl, rfl, by dsimp only; omega⟩
      · exact ⟨rfl, rfl, rfl, by dsimp only; omega⟩
    obtain ⟨hph, hfile, hprovider, hdue⟩ := hsame
    unfold Covered at hs'
    rw [hph, hfile, hprovider] at hs'
    have hs' := hs'.resolve_left (by omega)
    unfold UpToDate
    cases hp : s.phase with
    | snapped closing snapshot | written closing =>
      rw [hp] at hs'
      exact hs'
    | _ => trivial
  | close =>
    obtain ⟨-, -, -, rfl⟩ := hcases
    exact hs'.keeps_close
  | _ => trivial

open StateSaver

lemma keeps_of_disabled {e : Disabled} (h : s.step event = .error e) (hs : s.Covered ∨ s.Idle) : s.Keeps event := by
  cases event with
  | compareAndSwap =>
    intro hlast
    rw [step, if_neg (by omega)] at h
    split at h <;> cases h
  | close =>
    rcases hs with hs | hs
    · exact hs.keeps_close
    · simp [step, hs.done, hs.due, hs.sends] at h
  | _ => trivial

/-! ## What can still be lost -/

lemma Covered.losesNothing (hs : s.Covered) (hw : s.WellPhased) : s.LosesNothing := by
  intro tail htail
  induction tail generalizing s with
  | nil =>
    intro s' hrun hcl
    cases hrun
    have hdone : s.done = true := by
      by_contra hdone
      have hrng := hw.running (by simpa using hdone)
      rw [hcl] at hrng
      cases hrng
    unfold Covered at hs
    rw [hcl, (hw.quiet hdone).1] at hs
    exact hs.resolve_left (Nat.lt_irrefl 0)
  | cons event tail ih =>
    obtain ⟨hquiet, htail⟩ := List.forall_mem_cons.1 htail
    intro s' hrun hcl
    obtain ⟨t, hstep, hrun⟩ := Runs.run_cons_eq_ok hrun
    exact ih (hs.step hw hstep (hs.keeps_of_quiet hquiet)) (hw.step hstep) htail s' hrun hcl

lemma LosesNothing.step (hs : s.LosesNothing) (h : s.step event = .ok s') (hquiet : Quiet event) : s'.LosesNothing := by
  intro tail htail s'' hrun hcl
  refine hs (event :: tail) (List.forall_mem_cons.2 ⟨hquiet, htail⟩) s'' ?_ hcl
  rw [Runs.run_cons_ok h]
  exact hrun

lemma LosesNothing.closed (hs : s.LosesNothing) (hcl : s.phase = .closed) : s.file = some s.provider := hs [] nofun s rfl hcl

/-- The loop waits with the flag down: `Close` would find nothing to save. -/
lemma LosesNothing.waiting (hs : s.LosesNothing) (hw : s.WellPhased) (hph : s.phase = .waiting)
    (hdty : s.dirty = false) (hdue : s.due = 0) : s.file = some s.provider := by
  -- the sends that are left come first
  induction hsends : s.sends generalizing s with
  | succ n ih =>
    have hsend : s.step .send = .ok { s with signal := true, sends := s.sends - 1 } :=
      if_neg (by omega)
    have hleft : s.sends - 1 = n := by omega
    have hsaved := ih (hs.step hsend trivial) (hw.step hsend) hph hdty hdue hleft
    exact hsaved
  | zero =>
    have hdone : ∃ t : StateSaver σ, t.LosesNothing ∧ t.phase = .waiting ∧ t.dirty = false ∧
        t.done = true ∧ t.file = s.file ∧ t.provider = s.provider := by
      cases hd : s.done with
      | true => exact ⟨s, hs, hph, hdty, hd, rfl, rfl⟩
      | false =>
        have hclose : s.step .close = .ok { s with done := true } := if_neg (by simp [hd, hdue, hsends])
        exact ⟨_, hs.step hclose trivial, hph, hdty, rfl, rfl, rfl⟩
    obtain ⟨t, ht, hph, hdty, hdone, hfile, hprovider⟩ := hdone
    have hexit : t.step .exit = .ok { t with phase := .checking } := by
      simp only [StateSaver.step, hph, hdone, if_true]
    have hfinish : ({ t with phase := .checking } : StateSaver σ).step .finish = .ok { t with phase := .closed } := by
      simp [StateSaver.step, hdty]
    rw [← hfile, ← hprovider]
    exact ((ht.step hexit trivial).step hfinish trivial).closed rfl

/-- The flag is taken down: then the loop waits, or `Close` is done. -/
lemma LosesNothing.written {closing : Bool} (hs : s.LosesNothing) (hw : s.WellPhased)
    (hph : s.phase = .written closing) (hdue : s.due = 0) : s.file = some s.provider := by
  have hclear : s.step .clear = .ok { s with dirty := false, phase := afterSave closing } := by
    simp only [StateSaver.step, hph]
  have hcleared := hs.step hclear trivial
  cases closing with
  | true => exact hcleared.closed rfl
  | false => exact hcleared.waiting (hw.step hclear) rfl rfl hdue

/-- **Nothing is lost exactly from the covered states.** -/
lemma losesNothing_iff_covered (hw : s.WellPhased) : s.LosesNothing ↔ s.Covered := by
  refine ⟨fun hs => ?_, fun hs => hs.losesNothing hw⟩
  by_cases hdue : 0 < s.due
  · exact .inl hdue
  have hdue : s.due = 0 := by omega
  right
  cases hph : s.phase with
  | waiting =>
    cases hdty : s.dirty with
    | true => exact .inl rfl
    | false => exact .inr (hs.waiting hw hph hdty hdue)
  | fired =>
    cases hdty : s.dirty with
    | true => exact .inl rfl
    | false =>
      have hcheck : s.step .check = .ok { s with phase := .waiting } := by
        simp [step, hph, hdty]
      exact .inr ((hs.step hcheck trivial).waiting (hw.step hcheck) rfl hdty hdue)
  | saving closing => trivial
  | snapped closing snapshot =>
    have hwr : s.step .write = .ok { s with file := some snapshot, phase := .written closing } := by
      simp only [step, hph]
    exact Option.some.inj ((hs.step hwr trivial).written (hw.step hwr) rfl hdue)
  | written closing => exact hs.written hw hph hdue
  | checking =>
    cases hdty : s.dirty with
    | true => exact .inl rfl
    | false =>
      have hfinish : s.step .finish = .ok { s with phase := .closed } := by
        simp [step, hph, hdty]
      exact .inr ((hs.step hfinish trivial).closed rfl)
  | closed => exact hs.closed hph

/-! ## Runs -/

/-- **No cluster state change is lost by the state saver**: at every point of the run, if no further change
comes then after `Close` the file has the provider's state. This holds exactly when every step of the run
meets its condition. -/
theorem losesNothing_along_iff (file : Option σ) (provider : σ) (events : List (SaverEvent σ)) :
    Runs.Along step (fun s event => ∀ s', s.step event = .ok s' → s'.LosesNothing) (start file provider)
        events ↔
      Runs.Along step Keeps (start file provider) events := by
  have hstart : (start file provider).WellPhased ∧
      ((start file provider).Covered ∨ (start file provider).Idle) :=
    ⟨⟨nofun, fun _ => rfl⟩, .inr ⟨rfl, rfl, rfl, rfl, rfl, rfl, rfl⟩⟩
  constructor
  · intro h
    refine h.imp (I := fun s => s.WellPhased ∧ (s.Covered ∨ s.Idle)) ?_ ?_ hstart
    · rintro s event s' ⟨hw, -⟩ hloses hstep
      have hw' := hw.step hstep
      exact ⟨hw', .inl ((losesNothing_iff_covered hw').1 (hloses s' hstep))⟩
    · rintro s event ⟨hw, hs⟩ hloses
      cases hstep : s.step event with
      | ok s' => exact keeps_of_covered hstep ((losesNothing_iff_covered (hw.step hstep)).1 (hloses s' hstep))
      | error e => exact keeps_of_disabled hstep hs
  · intro h
    refine h.imp (I := fun s => s.WellPhased ∧ (s.Covered ∨ s.Idle)) ?_ ?_ hstart
    · rintro s event s' ⟨hw, hs⟩ hkp hstep
      exact ⟨hw.step hstep, .inl (hs.elim (·.step hw hstep hkp) (·.step hstep hkp))⟩
    · rintro s event ⟨hw, hs⟩ hkp s' hstep
      rw [losesNothing_iff_covered (hw.step hstep)]
      exact hs.elim (·.step hw hstep hkp) (·.step hstep hkp)

/-- **A lost change.** The state becomes 1 and is marked; the loop wakes up and takes its snapshot. Then the
state becomes 2: the flag is still up, so nobody is woken. The flag goes down, and `Close` saves nothing. -/
theorem change_after_snapshot_lost :
    ∃ s, Runs.run step (start (some 0) 0) [.change 1, .compareAndSwap, .send, .receive, .timer, .check,
        .snapshot, .change 2, .compareAndSwap, .write, .clear, .close, .exit, .finish] = .ok s ∧
      s.phase = .closed ∧ s.file = some 1 ∧ s.provider = 2 :=
  ⟨_, rfl, rfl, rfl, rfl⟩

end StateSaver

end AutoCache.Cluster
