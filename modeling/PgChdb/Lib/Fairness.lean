import Mathlib.Order.Filter.AtTopBot.Basic
import Mathlib.Data.List.Count

namespace Fairness

open Filter

/-!
# Runs that are counted, and runs without end

A transition system whose steps are labelled with their kinds.  What each step of some kinds
adds to a quantity bounds how many of them a run has; a run without end that keeps the quantity
bounded has, from some time on, none of them, and if it is fair to them they are not even
possible then.

* `Trace` — a run with the kinds of its steps; `Trace.count_le` — the rule for counting;
* `Behaviour` — a run without end, which may come to rest, and `Trace.behaviour`; `Endless` —
  one that does not;
* `Endless.settles`, `gives_up` — the two rules for what must happen.
-/

variable {σ κ : Type*} {step : κ → σ → σ → Prop} {I : σ → Prop}

/-! ### Counting -/

/-- A run, with the kinds of its steps in their order. -/
inductive Trace (step : κ → σ → σ → Prop) (s : σ) : List κ → σ → Prop
  | start : Trace step s [] s
  | next {ks : List κ} {k : κ} {t u : σ} (h : Trace step s ks t) (hstep : step k t u) :
      Trace step s (ks ++ [k]) u

section
variable {s t : σ} {ks : List κ}

theorem Trace.invariant (init : I s) (keep : ∀ k a b, I a → step k a b → I b)
    (h : Trace step s ks t) : I t := by
  induction h with
  | start => exact init
  | next _ hstep ih => exact keep _ _ _ ih hstep

/-- **The rule for counting.**  Each step of a counted kind adds at least 1 to a quantity from
    which no step takes anything away. -/
theorem Trace.count_le {counted : κ → Bool} (gained : σ → ℤ)
    (init : I s) (keep : ∀ k a b, I a → step k a b → I b)
    (gain : ∀ k a b, I a → step k a b → gained a + (counted k).toNat ≤ gained b)
    (h : Trace step s ks t) : gained s + ks.countP counted ≤ gained t := by
  induction h with
  | start => simp
  | @next ks k t u h hstep ih =>
    have hgain := gain k t u (h.invariant init keep) hstep
    have hcount : (ks ++ [k]).countP counted = ks.countP counted + (counted k).toNat := by
      rw [List.countP_append, List.countP_singleton]
      cases counted k <;> rfl
    rw [hcount]
    push_cast
    omega

end

/-! ### Runs without end -/

/-- A run without end: at each time a step, or, in a state of rest, none. -/
structure Behaviour (step : κ → σ → σ → Prop) (rest : σ → Prop) (s : ℕ → σ) (k : ℕ → κ) :
    Prop where
  next (i : ℕ) : step (k i) (s i) (s (i + 1)) ∨ (rest (s i) ∧ s (i + 1) = s i)

/-- A run that never rests. -/
def Endless (step : κ → σ → σ → Prop) (s : ℕ → σ) (k : ℕ → κ) : Prop :=
  ∀ i, step (k i) (s i) (s (i + 1))

section
variable {s : ℕ → σ} {k : ℕ → κ}

theorem Behaviour.endless {rest : σ → Prop} (h : Behaviour step rest s k)
    (hrest : ∀ i, ¬ rest (s i)) : Endless step s k :=
  fun i => (h.next i).resolve_right fun hr => hrest i hr.1

theorem Endless.invariant (h : Endless step s k) (init : I (s 0))
    (keep : ∀ k a b, I a → step k a b → I b) (i : ℕ) : I (s i) := by
  induction i with
  | zero => exact init
  | succ i ih => exact keep _ _ _ ih (h i)

/-- A run to a state of rest goes on there without end. -/
theorem Trace.behaviour {a t : σ} {ks : List κ} {rest : σ → Prop} (h : Trace step a ks t)
    (hrest : rest t) (pad : κ) : ∃ (f : ℕ → σ) (l : ℕ → κ), f 0 = a ∧ Behaviour step rest f l ∧
      (∀ i, ks.length ≤ i → f i = t) ∧ ∀ i, l i ∈ ks ∨ l i = pad := by
  have hruns : ∃ (f : ℕ → σ) (l : ℕ → κ), f 0 = a ∧
      (∀ i, i < ks.length → step (l i) (f i) (f (i + 1))) ∧ (∀ i, ks.length ≤ i → f i = t) ∧
      ∀ i, l i ∈ ks ∨ l i = pad := by
    clear hrest
    induction h with
    | start => exact ⟨fun _ => a, fun _ => pad, rfl, by simp, fun _ _ => rfl, fun _ => Or.inr rfl⟩
    | @next ks k t u h hstep ih =>
      obtain ⟨f, l, hzero, hsteps, hlast, hkinds⟩ := ih
      refine ⟨fun i => if i ≤ ks.length then f i else u, fun i => if i = ks.length then k else l i,
        by simpa using hzero, ?_, ?_, ?_⟩
      · intro i hi
        rw [List.length_append, List.length_singleton] at hi
        by_cases hlen : i = ks.length
        · subst hlen
          simpa [hlast ks.length (le_refl _), show ¬ ks.length + 1 ≤ ks.length by omega] using hstep
        · simpa [hlen, show i ≤ ks.length by omega, show i + 1 ≤ ks.length by omega]
            using hsteps i (by omega)
      · intro i hi
        rw [List.length_append, List.length_singleton] at hi
        exact if_neg (by omega)
      · intro i
        by_cases hlen : i = ks.length
        · exact Or.inl (by simp [hlen])
        · simpa [hlen] using (hkinds i).imp (fun hmem => Or.inl hmem) id
  obtain ⟨f, l, hzero, hsteps, hlast, hkinds⟩ := hruns
  refine ⟨f, l, hzero, ⟨fun i => ?_⟩, hlast, hkinds⟩
  by_cases hi : i < ks.length
  · exact Or.inl (hsteps i hi)
  · rw [hlast i (by omega), hlast (i + 1) (by omega)]
    exact Or.inr ⟨hrest, rfl⟩

/-- From some time on a bounded quantity has nothing more added to it. -/
theorem Endless.settles {counted : κ → Bool} (h : Endless step s k) (gained : σ → ℤ)
    (init : I (s 0)) (keep : ∀ k a b, I a → step k a b → I b)
    (gain : ∀ k a b, I a → step k a b → gained a + (counted k).toNat ≤ gained b)
    {b : ℤ} (hbound : ∀ i, gained (s i) ≤ b) : ∀ᶠ i in atTop, counted (k i) = false := by
  have hgain : ∀ i, gained (s i) + (counted (k i)).toNat ≤ gained (s (i + 1)) :=
    fun i => gain _ _ _ (h.invariant init keep i) (h i)
  have hmono : Monotone fun i => gained (s i) := by
    apply monotone_nat_of_le_succ
    intro i
    have hi := hgain i
    omega
  by_contra hnot
  have hoften : ∀ a, ∃ b, a ≤ b ∧ counted (k b) = true := by
    rw [not_eventually, frequently_atTop] at hnot
    simpa only [Bool.not_eq_false] using hnot
  -- each further one adds 1, which exceeds any bound
  have hexceeds : ∀ m : ℕ, ∃ i, gained (s 0) + m ≤ gained (s i) := by
    intro m
    induction m with
    | zero => exact ⟨0, by simp⟩
    | succ m ih =>
      obtain ⟨i, hi⟩ := ih
      obtain ⟨j, hij, hj⟩ := hoften i
      have hle : gained (s i) ≤ gained (s j) := hmono hij
      have hnext := hgain j
      rw [hj] at hnext
      refine ⟨j + 1, ?_⟩
      simp only [Bool.toNat_true] at hnext
      push_cast at hnext ⊢
      omega
  obtain ⟨i, hi⟩ := hexceeds (b + 1 - gained (s 0)).toNat
  have hle := hbound i
  have hfirst := hbound 0
  omega

/-- What is taken whenever it is possible often enough is, from some time on, not possible. -/
theorem gives_up {counted : κ → Bool} {can : σ → Prop}
    (hfair : (∃ᶠ i in atTop, can (s i)) → ∃ᶠ i in atTop, counted (k i) = true)
    (hsettles : ∀ᶠ i in atTop, counted (k i) = false) : ∀ᶠ i in atTop, ¬ can (s i) := by
  by_contra hnot
  rw [not_eventually] at hnot
  simp only [not_not] at hnot
  obtain ⟨i, htrue, hfalse⟩ := ((hfair hnot).and_eventually hsettles).exists
  rw [htrue] at hfalse
  cases hfalse

end

end Fairness
