import Mathlib.Data.Nat.Notation
import Mathlib.Logic.Basic

namespace Machine

/-!
# Programs over a state that may stop

A program changes a state and either returns or stops, for one of the reasons `ε`; the state
it stops in is kept, since something else may have to clean up after it.

* `Prog` — programs, and `loop` — a loop of at most so many turns;
* `Ends` — how a program ends from a state, with one postcondition for each way, and a lemma
  for each way a program is built; `Ends.loop` is the rule for a loop with an invariant;
* `Keeps` — what a program keeps true on either way out, closed under everything programs are
  built with.
-/

variable {ε σ α β : Type}

/-- A program over the state `σ` that returns an `α` or stops with an `ε`. -/
abbrev Prog (ε σ : Type) := EStateM ε σ

/-- The body is run until it gives a result, at most `n` times. -/
def loop (body : β → Prog ε σ (β ⊕ α)) (stuck : ε) : ℕ → β → Prog ε σ α
  | 0, _ => throw stuck
  | n + 1, b => do
    match ← body b with
    | .inl b => loop body stuck n b
    | .inr a => return a

/-! ### How a program ends -/

/-- From `s`, the program ends with `Q` when it returns and with `E` when it stops. -/
def Ends (m : Prog ε σ α) (s : σ) (Q : α → σ → Prop) (E : ε → σ → Prop) : Prop :=
  match m s with
  | .ok a t => Q a t
  | .error e t => E e t

section
variable {s : σ} {Q : β → σ → Prop} {E : ε → σ → Prop}

@[simp] theorem ends_pure {b : β} : Ends (pure b : Prog ε σ β) s Q E ↔ Q b s := Iff.rfl

@[simp] theorem ends_throw {e : ε} : Ends (throw e : Prog ε σ β) s Q E ↔ E e s := Iff.rfl

@[simp] theorem ends_get {Q : σ → σ → Prop} : Ends (get : Prog ε σ σ) s Q E ↔ Q s s := Iff.rfl

@[simp] theorem ends_modify {f : σ → σ} {Q : Unit → σ → Prop} :
    Ends (modify f : Prog ε σ Unit) s Q E ↔ Q () (f s) := Iff.rfl

@[simp] theorem ends_bind {m : Prog ε σ α} {f : α → Prog ε σ β} :
    Ends (m >>= f) s Q E ↔ Ends m s (fun a t => Ends (f a) t Q E) E := by
  show Ends (EStateM.bind m f) s Q E ↔ _
  unfold Ends EStateM.bind
  cases m s <;> rfl

@[simp] theorem ends_map {m : Prog ε σ α} {f : α → β} :
    Ends (f <$> m) s Q E ↔ Ends m s (fun a t => Q (f a) t) E := by
  show Ends (EStateM.map f m) s Q E ↔ _
  unfold Ends EStateM.map
  cases m s <;> rfl

theorem ends_ite {c : Prop} [Decidable c] {m m' : Prog ε σ β} (hm : c → Ends m s Q E)
    (hm' : ¬ c → Ends m' s Q E) : Ends (if c then m else m') s Q E := by
  by_cases hc : c
  · rw [if_pos hc]; exact hm hc
  · rw [if_neg hc]; exact hm' hc

theorem Ends.mono {m : Prog ε σ β} {Q' : β → σ → Prop} {E' : ε → σ → Prop} (hm : Ends m s Q E)
    (hQ : ∀ b t, Q b t → Q' b t) (hE : ∀ e t, E e t → E' e t) : Ends m s Q' E' := by
  unfold Ends at hm ⊢
  cases hr : m s with
  | ok b t => rw [hr] at hm; exact hQ b t hm
  | error e t => rw [hr] at hm; exact hE e t hm

theorem Ends.imp {m : Prog ε σ β} {Q' : β → σ → Prop} (hm : Ends m s Q E)
    (hQ : ∀ b t, Q b t → Q' b t) : Ends m s Q' E := hm.mono hQ fun _ _ he => he

/-- What one program returns with is what the next one starts from. -/
theorem Ends.seq_mono {m : Prog ε σ α} {f : α → Prog ε σ β} {P : α → σ → Prop}
    {E' : ε → σ → Prop} (hm : Ends m s P E') (hE : ∀ e t, E' e t → E e t)
    (hf : ∀ a t, P a t → Ends (f a) t Q E) : Ends (m >>= f) s Q E :=
  ends_bind.mpr (hm.mono hf hE)

theorem Ends.seq {m : Prog ε σ α} {f : α → Prog ε σ β} {P : α → σ → Prop} (hm : Ends m s P E)
    (hf : ∀ a t, P a t → Ends (f a) t Q E) : Ends (m >>= f) s Q E :=
  hm.seq_mono (fun _ _ he => he) hf

theorem Ends.and {m : Prog ε σ β} {Q' : β → σ → Prop} {E' : ε → σ → Prop} (hm : Ends m s Q E)
    (hm' : Ends m s Q' E') : Ends m s (fun b t => Q b t ∧ Q' b t) (fun e t => E e t ∧ E' e t) := by
  unfold Ends at hm hm' ⊢
  cases hr : m s with
  | ok b t => rw [hr] at hm hm'; exact ⟨hm, hm'⟩
  | error e t => rw [hr] at hm hm'; exact ⟨hm, hm'⟩

/-- What a program returns with satisfies its postcondition. -/
theorem Ends.ok {m : Prog ε σ β} {b : β} {t : σ} (hm : Ends m s Q E) (hr : m s = .ok b t) :
    Q b t := by
  unfold Ends at hm
  rwa [hr] at hm

/-- What it stops with satisfies the other. -/
theorem Ends.error {m : Prog ε σ β} {e : ε} {t : σ} (hm : Ends m s Q E) (hr : m s = .error e t) :
    E e t := by
  unfold Ends at hm
  rwa [hr] at hm

theorem ends_of_forall {m : Prog ε σ β} (hok : ∀ b t, m s = .ok b t → Q b t)
    (herror : ∀ e t, m s = .error e t → E e t) : Ends m s Q E := by
  unfold Ends
  cases hr : m s with
  | ok b t => exact hok b t hr
  | error e t => exact herror e t hr

/-- **The loop rule.**  An invariant that every turn keeps, until it gives a result, holds in
    whatever state the turns run out in. -/
theorem Ends.loop {body : β → Prog ε σ (β ⊕ α)} {stuck : ε} {Q : α → σ → Prop} (I : β → σ → Prop)
    (step : ∀ b s, I b s → Ends (body b) s
      (fun r t => match r with | .inl b => I b t | .inr a => Q a t) E)
    (out : ∀ b s, I b s → E stuck s) {n : ℕ} {b : β} {s : σ} (h : I b s) :
    Ends (loop body stuck n b) s Q E := by
  induction n generalizing b s with
  | zero => exact out b s h
  | succ n ih =>
    rw [Machine.loop]
    refine (step b s h).seq fun r t hr => ?_
    cases r with
    | inl b => exact ih hr
    | inr a => exact hr

/-- The loop does not run out of turns when every turn that goes on has used something up. -/
theorem Ends.loop_of_decreasing {body : β → Prog ε σ (β ⊕ α)} {stuck : ε} {Q : α → σ → Prop}
    (I : β → σ → Prop) (size : σ → ℕ)
    (step : ∀ b s, I b s → Ends (body b) s (fun r t =>
      match r with | .inl b => I b t ∧ size t < size s | .inr a => Q a t) E)
    {n : ℕ} {b : β} {s : σ} (hn : size s < n) (h : I b s) :
    Ends (Machine.loop body stuck n b) s Q E := by
  induction n generalizing b s with
  | zero => omega
  | succ n ih =>
    rw [Machine.loop]
    refine (step b s h).seq fun r t hr => ?_
    cases r with
    | inl b =>
      have hsize := hr.2
      exact ih (by omega) hr.1
    | inr a => exact hr

end

/-! ### What a program keeps -/

/-- Whether it returns or stops, the program keeps the invariant. -/
def Keeps (I : σ → Prop) (m : Prog ε σ α) : Prop :=
  ∀ s, I s → Ends m s (fun _ => I) (fun _ => I)

section
variable {I : σ → Prop}

theorem Keeps.pure (a : α) : Keeps I (Pure.pure a : Prog ε σ α) := fun _ hs => hs

theorem Keeps.stop (e : ε) : Keeps I (throw e : Prog ε σ α) := fun _ hs => hs

theorem Keeps.state : Keeps I (get : Prog ε σ σ) := fun _ hs => hs

theorem Keeps.update {f : σ → σ} (hf : ∀ s, I s → I (f s)) :
    Keeps I (modify f : Prog ε σ Unit) := hf

theorem Keeps.bind {m : Prog ε σ α} {f : α → Prog ε σ β} (hm : Keeps I m)
    (hf : ∀ a, Keeps I (f a)) : Keeps I (m >>= f) := by
  intro s hs
  exact (hm s hs).seq fun a t ht => hf a t ht

theorem Keeps.true (m : Prog ε σ α) : Keeps (fun _ => True) m := fun _ _ =>
  ends_of_forall (fun _ _ _ => trivial) fun _ _ _ => trivial

theorem Keeps.ite {c : Prop} [Decidable c] {m m' : Prog ε σ α} (hm : c → Keeps I m)
    (hm' : ¬ c → Keeps I m') : Keeps I (if c then m else m') := by
  by_cases hc : c
  · rw [if_pos hc]; exact hm hc
  · rw [if_neg hc]; exact hm' hc

theorem Keeps.loop {body : β → Prog ε σ (β ⊕ α)} {stuck : ε} (hbody : ∀ b, Keeps I (body b))
    (n : ℕ) (b : β) : Keeps I (loop body stuck n b) := by
  intro s hs
  refine Ends.loop (fun _ => I) (fun b t ht => ?_) (fun _ _ ht => ht) hs
  refine (hbody b t ht).imp fun r u hu => ?_
  cases r <;> exact hu

end

end Machine
