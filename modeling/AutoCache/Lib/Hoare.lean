import Mathlib.Init

/-!
# Pre- and postconditions for stateful programs that may fail

A program with state `σ` that may fail with `ε` is a `StateT σ (Except ε) α`. `Triple P x Q` is
partial correctness: from a state with `P`, if `x` returns `a`, then `Q a` holds of the state it
leaves. A program that fails satisfies every triple.
-/

namespace AutoCache.Hoare

variable {σ ε α β : Type}

/-- From a state with `P`, if `x` returns, its result and the state it leaves have `Q`. -/
def Triple (P : σ → Prop) (x : StateT σ (Except ε) α) (Q : α → σ → Prop) : Prop :=
  ∀ s a s', P s → x s = .ok (a, s') → Q a s'

namespace Triple

variable {P P' : σ → Prop} {Q Q' : α → σ → Prop} {R : β → σ → Prop}
  {x : StateT σ (Except ε) α} {f : α → StateT σ (Except ε) β}

lemma pure {a : α} (h : ∀ s, P s → Q a s) : Triple P (Pure.pure a : StateT σ (Except ε) α) Q := by
  intro s b s' hP hr
  cases hr
  exact h s hP

lemma bind (hx : Triple P x Q) (hf : ∀ a, Triple (Q a) (f a) R) : Triple P (x >>= f) R := by
  intro s b s'' hP hr
  change (x s >>= fun p => f p.1 p.2) = .ok (b, s'') at hr
  cases hx' : x s with rw [hx'] at hr
  | error e =>
    cases hr
  | ok p =>
    exact hf p.1 p.2 b s'' (hx s p.1 p.2 hP hx') hr

lemma conseq (hx : Triple P' x Q') (hP : ∀ s, P s → P' s) (hQ : ∀ a s, Q' a s → Q a s) : Triple P x Q :=
  fun s a s' h hr => hQ a s' (hx s a s' (hP s h) hr)

lemma pre (hx : Triple P' x Q) (hP : ∀ s, P s → P' s) : Triple P x Q := hx.conseq hP fun _ _ h => h

end Triple

/-- **`x` keeps `P`.** A class, so that what a composed program keeps is found from its parts. -/
class Keeps (P : σ → Prop) (x : StateT σ (Except ε) α) : Prop where
  triple : Triple P x fun _ => P

namespace Keeps

variable {P : σ → Prop} {x y : StateT σ (Except ε) α} {f : α → StateT σ (Except ε) β}

instance pure (a : α) : Keeps P (Pure.pure a : StateT σ (Except ε) α) := ⟨.pure fun _ h => h⟩

instance throw (e : ε) : Keeps P (MonadExcept.throw e : StateT σ (Except ε) α) :=
  ⟨nofun⟩

instance bind [Keeps P x] [∀ a, Keeps P (f a)] : Keeps P (x >>= f) :=
  ⟨.bind triple fun _ => triple⟩

lemma then_ [Keeps P x] (h : ∀ a, Keeps P (f a)) : Keeps P (x >>= f) := bind

/-- What is reached after `x` is kept from there on. -/
lemma after {P' : σ → Prop} (hx : Triple P' x fun _ => P) [∀ a, Keeps P (f a)] : Triple P' (x >>= f) fun _ => P :=
  hx.bind fun _ => triple

instance map (f : α → β) [Keeps P x] : Keeps P (f <$> x) := by
  rw [← bind_pure_comp]
  exact bind

instance ite {c : Prop} [Decidable c] [Keeps P x] [Keeps P y] : Keeps P (if c then x else y) := by
  split <;> infer_instance

end Keeps

end AutoCache.Hoare
