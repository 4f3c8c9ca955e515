import Mathlib.Init

/-!
# Programs seen through a view

`Simulates view π x f`: from every state the program `x` returns; the view of the state it leaves is the
one that the function `f` gives for the view of the state before, and so is the result, as far as `π`
tells it. So a program can be computed with on views, where two states that look the same are the
same.
-/

namespace AutoCache.Views

variable {σ ν ε α β γ δ : Type}

lemma run_bind {x : StateT σ (Except ε) α} {y : α → StateT σ (Except ε) γ} {a : α} {s s' : σ}
    (hx : x s = .ok (a, s')) : (x >>= y) s = y a s' := by
  change (x s >>= fun p => y p.1 p.2) = _
  rw [hx]
  rfl

lemma run_bind_error {x : StateT σ (Except ε) α} {y : α → StateT σ (Except ε) γ} {e : ε} {s : σ}
    (hx : x s = .error e) : (x >>= y) s = .error e := by
  change (x s >>= fun p => y p.1 p.2) = _
  rw [hx]
  rfl

/-- `x` always returns, and does on states what `f` does on views. -/
def Simulates (view : σ → ν) (π : α → β) (x : StateT σ (Except ε) α) (f : ν → β × ν) : Prop :=
  ∀ s, ∃ a s', x s = .ok (a, s') ∧ f (view s) = (π a, view s')

namespace Simulates

variable {view : σ → ν} {π : α → β} {ρ : γ → δ} {x : StateT σ (Except ε) α}
  {y : α → StateT σ (Except ε) γ} {f : ν → β × ν} {g : β → ν → δ × ν}

lemma pure (a : α) : Simulates view π (Pure.pure a : StateT σ (Except ε) α) fun v => (π a, v) :=
  fun s => ⟨a, s, rfl, rfl⟩

lemma bind (hx : Simulates view π x f) (hy : ∀ a, Simulates view ρ (y a) (g (π a))) :
    Simulates view ρ (x >>= y) fun v => g (f v).1 (f v).2 := by
  intro s
  obtain ⟨a, s', hs, hf⟩ := hx s
  obtain ⟨c, s'', hs', hg⟩ := hy a s'
  refine ⟨c, s'', ?_, ?_⟩
  · change (x s >>= fun p => y p.1 p.2) = _
    rw [hs]
    exact hs'
  · dsimp only
    rw [hf]
    exact hg

lemma andThen {f : ν → α × ν} (hx : Simulates view id x f) (h : α → γ) :
    Simulates view id (x >>= fun a => Pure.pure (h a)) fun v => (h (f v).1, (f v).2) :=
  hx.bind (g := fun a v => (h a, v)) fun a => pure (h a)

lemma congr {f' : ν → β × ν} (hx : Simulates view π x f) (h : ∀ v, f v = f' v) : Simulates view π x f' := by
  intro s
  obtain ⟨a, s', hs, hf⟩ := hx s
  exact ⟨a, s', hs, (h _).symm.trans hf⟩

/-- A program whose result does not matter, and then another one. -/
lemma seq {π : α → Unit} {e : ν → ν} {g : ν → δ × ν} (hx : Simulates view π x fun v => ((), e v))
    (hy : ∀ a, Simulates view ρ (y a) g) : Simulates view ρ (x >>= y) fun v => g (e v) :=
  hx.bind (g := fun _ => g) hy

lemma run {f : ν → α × ν} (hx : Simulates view id x f) (s : σ) :
    ∃ s', x s = .ok ((f (view s)).1, s') ∧ view s' = (f (view s)).2 := by
  obtain ⟨a, s', hs, hf⟩ := hx s
  rw [hf]
  exact ⟨s', hs, rfl⟩

end Simulates

end AutoCache.Views
