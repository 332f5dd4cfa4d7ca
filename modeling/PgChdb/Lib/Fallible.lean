import Mathlib.Data.List.Forall2
import Mathlib.Data.List.Induction

namespace Fallible

/-!
# Code that may raise

A fallible function is a function into `Except ε`.  What a successful run of one
establishes is read off by inversion: `bind_eq_ok` and `pure_eq_ok` for a sequence,
`raiseIf_eq_ok` and `raiseSome_eq_ok` for the two kinds of check, `mapM_eq_ok_iff` for a
pass over a list.  `foldlM_ok_induction` is the induction rule for a loop that carries a
state: what holds before the first element and is kept by every step that does not raise
holds after every run that does not raise.
-/

variable {ε μ : Type*}

/-! ### Checks -/

/-- Raise when the condition holds. -/
def raiseIf (c : Prop) [Decidable c] (e : ε) : Except ε Unit :=
  if c then .error e else .ok ()

/-- Raise when there is something to raise with. -/
def raiseSome (o : Option μ) (f : μ → ε) : Except ε Unit :=
  match o with
  | some m => .error (f m)
  | none => .ok ()

@[simp] theorem raiseIf_eq_ok {c : Prop} [Decidable c] {e : ε} {u : Unit} :
    raiseIf c e = .ok u ↔ ¬ c := by
  unfold raiseIf; split <;> simp_all

@[simp] theorem raiseSome_eq_ok {o : Option μ} {f : μ → ε} {u : Unit} :
    raiseSome o f = .ok u ↔ o = none := by
  cases o <;> simp [raiseSome]

/-! ### Inversion -/

universe u

@[simp] theorem bind_eq_ok {α β : Type u} {x : Except ε α} {f : α → Except ε β} {b : β} :
    (x >>= f) = .ok b ↔ ∃ a, x = .ok a ∧ f a = .ok b := by
  cases x <;> simp [bind, Except.bind]

@[simp] theorem pure_eq_ok {α : Type u} {a b : α} : (pure a : Except ε α) = .ok b ↔ a = b := by
  simp [pure, Except.pure]

/-- A pass over a list succeeds exactly when it succeeds at every element. -/
theorem mapM_eq_ok_iff {α β : Type u} {f : α → Except ε β} {l : List α} {r : List β} :
    l.mapM f = .ok r ↔ List.Forall₂ (fun a b => f a = .ok b) l r := by
  induction l generalizing r with
  | nil => cases r <;> simp [pure, Except.pure]
  | cons a l ih =>
    rw [List.mapM_cons]
    simp only [bind_eq_ok, pure_eq_ok, ih]
    cases r with
    | nil => simp
    | cons b r =>
      simp only [List.cons.injEq, List.forall₂_cons]
      constructor
      · rintro ⟨b', hb, r', hr, rfl, rfl⟩; exact ⟨hb, hr⟩
      · rintro ⟨hb, hr⟩; exact ⟨b, hb, r, hr, rfl, rfl⟩

/-- Each element of the list has a partner in what the pass gives. -/
theorem exists_of_forall₂ {α β : Type u} {R : α → β → Prop} {l : List α} {r : List β}
    (h : List.Forall₂ R l r) {a : α} (ha : a ∈ l) : ∃ b ∈ r, R a b := by
  induction h with
  | nil => exact absurd ha List.not_mem_nil
  | @cons x y l r hxy _ ih =>
    rcases List.mem_cons.mp ha with rfl | hmem
    · exact ⟨y, List.mem_cons_self, hxy⟩
    · obtain ⟨b, hb, hR⟩ := ih hmem
      exact ⟨b, List.mem_cons_of_mem y hb, hR⟩

/-- And at the same position. -/
theorem getElem?_of_forall₂ {α β : Type u} {R : α → β → Prop} {l : List α} {r : List β}
    (h : List.Forall₂ R l r) {i : ℕ} {a : α} (ha : l[i]? = some a) : ∃ b, r[i]? = some b ∧ R a b := by
  induction h generalizing i with
  | nil => simp at ha
  | @cons x y l r hxy _ ih =>
    cases i with
    | zero =>
      cases ha
      exact ⟨y, rfl, hxy⟩
    | succ i => exact ih ha

/-! ### Loops -/

/-- A loop over one more element is the loop, then the step. -/
theorem foldlM_concat_eq_ok {α σ : Type u} {f : σ → α → Except ε σ} {l : List α} {a : α}
    {s s' : σ} : (l ++ [a]).foldlM f s = .ok s' ↔ ∃ t, l.foldlM f s = .ok t ∧ f t a = .ok s' := by
  simp

/-- **Induction over a loop.**  A property of the elements done so far and the state that
    holds at the start and is kept by each step holds of every run that does not raise. -/
theorem foldlM_ok_induction {α σ : Type u} {f : σ → α → Except ε σ} {s₀ : σ}
    {P : List α → σ → Prop} (init : P [] s₀)
    (step : ∀ done a s s', P done s → f s a = .ok s' → P (done ++ [a]) s')
    {l : List α} {s : σ} (h : l.foldlM f s₀ = .ok s) : P l s := by
  induction l using List.reverseRecOn generalizing s with
  | nil =>
    simp only [List.foldlM_nil, pure_eq_ok] at h
    exact h ▸ init
  | append_singleton l a ih =>
    obtain ⟨t, ht, hs⟩ := foldlM_concat_eq_ok.mp h
    exact step l a t s (ih ht) hs

end Fallible
