import Mathlib.Data.List.Basic

/-!
# Runs of a machine that can fail

A machine takes one input at a time and either goes on or fails. `run` is the state after a
list of inputs, and `Along cond` says that every step of a run is taken where `cond` allows it.
The rules below reduce a statement about runs to one about a single step.
-/

namespace AutoCache.Runs

variable {σ : Type*} {α ε : Type} (step : σ → α → Except ε σ)

/-- The state after the inputs, or the first failure. -/
def run : σ → List α → Except ε σ
  | s, [] => .ok s
  | s, a :: as =>
    match step s a with
    | .ok s' => run s' as
    | .error e => .error e

/-- Every step of the run is taken in a state and with an input that `cond` allows. -/
def Along (cond : σ → α → Prop) : σ → List α → Prop
  | _, [] => True
  | s, a :: as => cond s a ∧ ∀ s', step s a = .ok s' → Along cond s' as

variable {step} {s s' : σ} {a : α} {as bs : List α} {cond : σ → α → Prop} {I : σ → Prop}

lemma Along.and_forall {p : α → Prop} (h : Along step cond s as) (hp : ∀ a ∈ as, p a) :
    Along step (fun s a => p a ∧ cond s a) s as := by
  induction as generalizing s with
  | nil => trivial
  | cons a as ih =>
    exact ⟨⟨hp a List.mem_cons_self, h.1⟩, fun s' hs => ih (h.2 s' hs) fun b hb => hp b (List.mem_cons_of_mem _ hb)⟩

lemma Along.cons (hc : cond s a) (hs : step s a = .ok s') (h : Along step cond s' as) : Along step cond s (a :: as) := by
  refine ⟨hc, fun t ht => ?_⟩
  cases hs.symm.trans ht
  exact h

/-- Where an invariant holds that allowed steps keep, one condition can stand for another. -/
lemma Along.imp {cond' : σ → α → Prop} (hkeep : ∀ s a s', I s → cond s a → step s a = .ok s' → I s')
    (himp : ∀ s a, I s → cond s a → cond' s a) (h0 : I s) (h : Along step cond s as) :
    Along step cond' s as := by
  induction as generalizing s with
  | nil => trivial
  | cons a as ih =>
    exact ⟨himp s a h0 h.1, fun s' hs => ih (hkeep s a s' h0 h.1 hs) (h.2 s' hs)⟩

lemma run_cons_ok (h : step s a = .ok s') : run step s (a :: as) = run step s' as := by
  simp only [run, h]

lemma run_cons_error {e : ε} (h : step s a = .error e) : run step s (a :: as) = .error e := by
  simp only [run, h]

lemma run_cons_eq_ok (h : run step s (a :: as) = .ok s') : ∃ t, step s a = .ok t ∧ run step t as = .ok s' := by
  cases hs : step s a with
  | ok t =>
    rw [run_cons_ok hs] at h
    exact ⟨t, rfl, h⟩
  | error e =>
    rw [run_cons_error hs] at h
    cases h

/-- Where every step is a step of a view that cannot fail, so is a run. -/
lemma run_view {ν : Type*} {view : σ → ν} {look : ν → α → ν} (h : ∀ s a, ∃ s', step s a = .ok s' ∧ view s' = look (view s) a)
    (s : σ) (as : List α) : ∃ s', run step s as = .ok s' ∧ view s' = as.foldl look (view s) := by
  induction as generalizing s with
  | nil => exact ⟨s, rfl, rfl⟩
  | cons a as ih =>
    obtain ⟨t, ht, hview⟩ := h s a
    obtain ⟨s', hs', hview'⟩ := ih t
    rw [hview] at hview'
    exact ⟨s', by rw [run_cons_ok ht, hs'], hview'⟩

lemma run_append (h : run step s as = .ok s') : run step s (as ++ bs) = run step s' bs := by
  induction as generalizing s with
  | nil => cases h; rfl
  | cons a as ih =>
    obtain ⟨t, hs, h⟩ := run_cons_eq_ok h
    rw [List.cons_append, run_cons_ok hs, ih h]

lemma run_append_error {e : ε} (h : run step s as = .error e) : run step s (as ++ bs) = .error e := by
  induction as generalizing s with
  | nil => cases h
  | cons a as ih =>
    cases hs : step s a with
    | ok t =>
      rw [run_cons_ok hs] at h
      rw [List.cons_append, run_cons_ok hs, ih h]
    | error e' =>
      rw [run_cons_error hs] at h
      rw [List.cons_append, run_cons_error hs, h]

lemma run_snoc (h : run step s as = .ok s') : run step s (as ++ [a]) = step s' a := by
  rw [run_append h]
  cases hs : step s' a with
  | ok t => rw [run_cons_ok hs]; rfl
  | error e => rw [run_cons_error hs]

lemma run_left (h : run step s (as ++ bs) = .ok s') : ∃ t, run step s as = .ok t := by
  cases hs : run step s as with
  | ok t => exact ⟨t, rfl⟩
  | error e =>
    rw [run_append_error hs] at h
    cases h

lemma Along.left (h : Along step cond s (as ++ bs)) : Along step cond s as := by
  induction as generalizing s with
  | nil => trivial
  | cons a as ih => exact ⟨h.1, fun s' hs => ih (h.2 s' hs)⟩

lemma Along.right (h : Along step cond s (as ++ bs)) (hrun : run step s as = .ok s') : Along step cond s' bs := by
  induction as generalizing s with
  | nil => cases hrun; exact h
  | cons a as ih =>
    obtain ⟨t, hs, hrun⟩ := run_cons_eq_ok hrun
    exact ih (h.2 t hs) hrun

/-- **Guarded invariants.** What every allowed step keeps holds where a run of allowed steps
ends. -/
theorem Along.run_invariant (hstep : ∀ s a s', I s → cond s a → step s a = .ok s' → I s') (hc : Along step cond s as)
    (h0 : I s) (h : run step s as = .ok s') : I s' := by
  induction as generalizing s with
  | nil => cases h; exact h0
  | cons a as ih =>
    obtain ⟨t, hs, h⟩ := run_cons_eq_ok h
    exact ih (hc.2 t hs) (hstep s a t h0 hc.1 hs) h

/-- **Invariants.** What every step keeps holds in every state a run ends in. -/
theorem run_invariant (hstep : ∀ s a s', I s → step s a = .ok s' → I s') (h0 : I s) (h : run step s as = .ok s') : I s' := by
  induction as generalizing s with
  | nil => cases h; exact h0
  | cons a as ih =>
    obtain ⟨t, hs, h⟩ := run_cons_eq_ok h
    exact ih (hstep s a t h0 hs) h

/-- **Guarded runs.** When an allowed step goes on and keeps the invariant, or fails in a way that
is accepted, a run of allowed steps does the same. -/
theorem run_guarded {B : ε → Prop} (hstep : ∀ s a, I s → cond s a →
      (∃ s', step s a = .ok s' ∧ I s') ∨ ∃ e, step s a = .error e ∧ B e)
    (h0 : I s) (h : Along step cond s as) :
    (∃ s', run step s as = .ok s' ∧ I s') ∨ ∃ e, run step s as = .error e ∧ B e := by
  induction as generalizing s with
  | nil => exact .inl ⟨s, rfl, h0⟩
  | cons a as ih =>
    obtain ⟨hc, hnext⟩ := h
    rcases hstep s a h0 hc with ⟨t, ht, hi⟩ | ⟨e, he, hb⟩
    · rw [run_cons_ok ht]
      exact ih hi (hnext t ht)
    · exact .inr ⟨e, run_cons_error he, hb⟩

/-- **Guarded runs return**, when an allowed step never fails. -/
theorem run_total (hstep : ∀ s a, I s → cond s a → ∃ s', step s a = .ok s' ∧ I s')
    (h0 : I s) (h : Along step cond s as) : ∃ s', run step s as = .ok s' ∧ I s' := by
  rcases run_guarded (B := fun _ => False) (fun s a hi hc => .inl (hstep s a hi hc)) h0 h with
    h | ⟨_, _, hf⟩
  · exact h
  · exact hf.elim

/-- **Exactly the allowed runs are safe**, when a single step is safe exactly if it is allowed. -/
theorem run_safe_iff {B : ε → Prop} (hkeep : ∀ s a s', I s → step s a = .ok s' → I s')
    (hsafe : ∀ s a, I s → ((∀ e, step s a = .error e → ¬ B e) ↔ cond s a)) (h0 : I s) :
    (∀ e, run step s as = .error e → ¬ B e) ↔ Along step cond s as := by
  induction as generalizing s with
  | nil => simp [run, Along]
  | cons a as ih =>
    cases hs : step s a with
    | ok t =>
      have hc : cond s a := (hsafe s a h0).1 (by simp [hs])
      rw [run_cons_ok hs, ih (hkeep s a t h0 hs)]
      simp [Along, hc, hs]
    | error e =>
      rw [run_cons_error hs, Along, ← hsafe s a h0]
      simp [hs]

end AutoCache.Runs
