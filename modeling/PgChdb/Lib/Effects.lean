import Mathlib.Data.List.Induction

namespace Effects

/-!
# Code that calls out to an environment

A procedure makes calls one after the other.  What the environment answers may depend on
every call made so far, so the state a procedure runs over is the list of those calls; a
call that raises ends the procedure and leaves the list as it is.

* `Proc` — procedures, with `call`, `ask`, `note`, `lift` and `onlyIf` for their steps;
* `wp` — the weakest precondition of a procedure for a postcondition on returning and one
  on raising, with a lemma for every step, `wp_mono`, and `wp_foldlM_zipIdx`, the rule for
  a loop over a list;
* `Only` — the kinds of call a procedure makes, closed under everything procedures are
  built with; `Only.keeps`, and `Logs` — which calls of one kind it has made when it returns;
* `Permits` — every call was made after the calls it depends on;
* `World` — what the calls of a procedure, and others between them, make of a world;
* `within` — a procedure over some of the calls, as part of one over more, and `Tracks` — the
  same run with some of the calls left out;
* `returns` — what a procedure returns with, if it returns, and `Sim` — when a fallible
  function computes it, with a rule for every way of building a procedure.
-/

variable {ε τ α β γ : Type}

/-- A procedure over the calls `τ` that may raise an `ε`. -/
abbrev Proc (ε τ : Type) := EStateM ε (List τ)

/-- Make the call `e`; the call has been made also when it raises. -/
def call (answer : List τ → τ → Except ε Unit) (e : τ) : Proc ε τ Unit := fun h =>
  match answer h e with
  | .ok _ => .ok () (h ++ [e])
  | .error x => .error x (h ++ [e])

/-- Make a call whose answer is part of what is recorded of it. -/
def ask (answer : List τ → Except ε α) (e : α → τ) : Proc ε τ α := fun h =>
  match answer h with
  | .ok a => .ok a (h ++ [e a])
  | .error x => .error x h

/-- Record something without asking the environment. -/
def note (e : τ) : Proc ε τ Unit := fun h => .ok () (h ++ [e])

/-- A computation that makes no call. -/
def lift (x : Except ε α) : Proc ε τ α := fun h =>
  match x with
  | .ok a => .ok a h
  | .error e => .error e h

/-- What the calls so far determine. -/
def observe (f : List τ → α) : Proc ε τ α := fun h => .ok (f h) h

/-- `m`, only if the condition holds. -/
def onlyIf (c : Prop) [Decidable c] (m : Proc ε τ Unit) : Proc ε τ Unit :=
  if c then m else pure ()

/-- The calls of a whole run, whether it returns or raises. -/
def calls (m : Proc ε τ α) : List τ :=
  match m [] with
  | .ok _ t => t
  | .error _ t => t

/-! ### Weakest preconditions -/

/-- Run from `h`, the procedure ends with `Q` when it returns and with `E` when it raises. -/
def wp (m : Proc ε τ α) (Q : α → List τ → Prop) (E : List τ → Prop) (h : List τ) : Prop :=
  match m h with
  | .ok a t => Q a t
  | .error _ t => E t

section
variable {Q : β → List τ → Prop} {E : List τ → Prop} {h : List τ}

@[simp] theorem wp_pure {b : β} : wp (pure b : Proc ε τ β) Q E h ↔ Q b h := Iff.rfl

@[simp] theorem wp_bind {m : Proc ε τ α} {f : α → Proc ε τ β} :
    wp (m >>= f) Q E h ↔ wp m (fun a => wp (f a) Q E) E h := by
  show wp (EStateM.bind m f) Q E h ↔ _
  -- by cases on the first procedure, as a bind is run
  unfold wp EStateM.bind
  cases m h <;> rfl

@[simp] theorem wp_map {m : Proc ε τ α} {f : α → β} :
    wp (f <$> m) Q E h ↔ wp m (fun a => Q (f a)) E h := by
  show wp (EStateM.map f m) Q E h ↔ _
  unfold wp EStateM.map
  cases m h <;> rfl

@[simp] theorem wp_note {e : τ} {Q : Unit → List τ → Prop} :
    wp (note e : Proc ε τ Unit) Q E h ↔ Q () (h ++ [e]) := Iff.rfl

@[simp] theorem wp_observe {f : List τ → β} : wp (observe f : Proc ε τ β) Q E h ↔ Q (f h) h :=
  Iff.rfl

/-- Both ends of a call see it made. -/
theorem wp_call {answer : List τ → τ → Except ε Unit} {e : τ} {Q : Unit → List τ → Prop}
    (hQ : Q () (h ++ [e])) (hE : E (h ++ [e])) : wp (call answer e) Q E h := by
  unfold wp call
  cases answer h e with
  | ok u => exact hQ
  | error x => exact hE

/-- A procedure that goes on after a call was answered. -/
theorem wp_call_ok {answer : List τ → τ → Except ε Unit} {e : τ} {Q : Unit → List τ → Prop}
    (hQ : answer h e = .ok () → Q () (h ++ [e])) (hE : E (h ++ [e])) :
    wp (call answer e) Q E h := by
  unfold wp call
  cases ha : answer h e with
  | ok u => exact hQ ha
  | error x => exact hE

/-- An answer is known only to be one the environment gave. -/
theorem wp_ask {answer : List τ → Except ε β} {e : β → τ}
    (hQ : ∀ b, answer h = .ok b → Q b (h ++ [e b])) (hE : E h) : wp (ask answer e) Q E h := by
  unfold wp ask
  cases hb : answer h with
  | ok b => exact hQ b hb
  | error x => exact hE

theorem wp_onlyIf {c : Prop} [Decidable c] {m : Proc ε τ Unit} {Q : Unit → List τ → Prop}
    (hm : c → wp m Q E h) (hn : ¬ c → Q () h) : wp (onlyIf c m) Q E h := by
  unfold onlyIf
  by_cases hc : c
  · rw [if_pos hc]; exact hm hc
  · rw [if_neg hc]; exact hn hc

theorem wp_lift {x : Except ε β} (hQ : ∀ b, x = .ok b → Q b h) (hE : E h) :
    wp (lift x : Proc ε τ β) Q E h := by
  unfold wp lift
  cases x with
  | ok b => exact hQ b rfl
  | error e => exact hE

theorem lift_pure (a : α) : (lift (pure a) : Proc ε τ α) = pure a := rfl

theorem lift_bind (x : Except ε α) (f : α → Except ε β) :
    (lift (x >>= f) : Proc ε τ β) = lift x >>= fun a => lift (f a) := by
  funext h
  cases x <;> rfl

/-- Weaker postconditions need no more. -/
theorem wp_mono {m : Proc ε τ β} {Q' : β → List τ → Prop} {E' : List τ → Prop}
    (hm : wp m Q E h) (hQ : ∀ b t, Q b t → Q' b t) (hE : ∀ t, E t → E' t) : wp m Q' E' h := by
  unfold wp at hm ⊢
  cases hr : m h with
  | ok b t => rw [hr] at hm; exact hQ b t hm
  | error x t => rw [hr] at hm; exact hE t hm

/-- Two postconditions hold together. -/
theorem wp_and {m : Proc ε τ β} {Q' : β → List τ → Prop} {E' : List τ → Prop}
    (hm : wp m Q E h) (hm' : wp m Q' E' h) :
    wp m (fun b t => Q b t ∧ Q' b t) (fun t => E t ∧ E' t) h := by
  unfold wp at hm hm' ⊢
  cases hr : m h with
  | ok b t => rw [hr] at hm hm'; exact ⟨hm, hm'⟩
  | error x t => rw [hr] at hm hm'; exact ⟨hm, hm'⟩

/-- What a procedure returns with satisfies its postcondition. -/
theorem wp_ok {m : Proc ε τ β} {b : β} {t : List τ} (hm : wp m Q E h) (hr : m h = .ok b t) :
    Q b t := by
  unfold wp at hm
  rw [hr] at hm
  exact hm

end

/-- What holds at both ends holds of the calls of a whole run. -/
theorem wp_calls {m : Proc ε τ α} {P : List τ → Prop} (hm : wp m (fun _ => P) P []) :
    P (calls m) := by
  unfold wp at hm
  unfold calls
  cases hr : m [] with
  | ok a t => rw [hr] at hm; exact hm
  | error x t => rw [hr] at hm; exact hm

@[simp] theorem calls_call {answer : List τ → τ → Except ε Unit} {e : τ} :
    calls (call answer e) = [e] :=
  @wp_calls _ _ _ (call answer e) (fun t => t = [e]) (wp_call rfl rfl)

/-- What else a run satisfies aside, the two ends are one statement about its calls. -/
theorem wp_and_iff_calls {m : Proc ε τ α} {P E : List τ → Prop} {Q : α → List τ → Prop}
    (hm : wp m Q E []) :
    wp m (fun a t => P t ∧ Q a t) (fun t => P t ∧ E t) [] ↔ P (calls m) := by
  unfold wp at hm ⊢
  unfold calls
  cases hr : m [] with
  | ok a t =>
    rw [hr] at hm
    exact and_iff_left hm
  | error x t =>
    rw [hr] at hm
    exact and_iff_left hm

/-- **The loop rule.**  An invariant indexed by the number of elements done holds after the
    loop when it holds before it and each turn keeps it, every exit by raising included. -/
theorem wp_foldlM_zipIdx {f : β → α × ℕ → Proc ε τ β} {E : List τ → Prop}
    (I : ℕ → β → List τ → Prop) {l : List α} {n : ℕ}
    (step : ∀ k b h, I k b h → ∀ a ∈ l, wp (f b (a, k)) (I (k + 1)) E h)
    {b : β} {h : List τ} (init : I n b h) :
    wp ((l.zipIdx n).foldlM f b) (I (n + l.length)) E h := by
  induction l generalizing n b h with
  | nil => simpa using init
  | cons a l ih =>
    -- the turn just done is one more element, so the invariant is due at the next index
    rw [List.zipIdx_cons, List.foldlM_cons, wp_bind]
    refine wp_mono (step n b h init a List.mem_cons_self) (fun b' t hb => ?_) (fun _ he => he)
    have hrest := ih (fun k b h hI x hx => step k b h hI x (List.mem_cons_of_mem a hx)) hb
    rw [List.length_cons, Nat.add_comm l.length 1, ← Nat.add_assoc]
    exact hrest

/-- The loop rule with an invariant on the elements done. -/
theorem wp_foldlM {f : β → α → Proc ε τ β} {E : List τ → Prop} (I : List α → β → List τ → Prop)
    {l : List α} (step : ∀ done a rest b h, l = done ++ a :: rest → I done b h →
      wp (f b a) (I (done ++ [a])) E h)
    {b : β} {h : List τ} (init : I [] b h) : wp (l.foldlM f b) (I l) E h := by
  suffices hgen : ∀ rest done b h, l = done ++ rest → I done b h →
      wp (rest.foldlM f b) (I l) E h from hgen l [] b h rfl init
  intro rest
  induction rest with
  | nil =>
    intro done b h hl hI
    rw [List.append_nil] at hl
    exact hl ▸ hI
  | cons a rest ih =>
    intro done b h hl hI
    rw [List.foldlM_cons, wp_bind]
    refine wp_mono (step done a rest b h hl hI) (fun b t ht => ?_) (fun _ he => he)
    exact ih (done ++ [a]) b t (by rw [hl, List.append_assoc]; rfl) ht

/-- A pass of calls over a list ends, returning or raising, with some of the calls made. -/
theorem wp_forM {f : α → Proc ε τ PUnit} {E : List τ → Prop} (I : List α → List τ → Prop)
    {l : List α} (step : ∀ done a rest h, l = done ++ a :: rest → I done h →
      wp (f a) (fun _ => I (done ++ [a])) E h)
    {h : List τ} (init : I [] h) : wp (forM l f) (fun _ => I l) E h := by
  -- the invariant is about the elements done, a prefix of the list that grows
  suffices hgen : ∀ rest done h, l = done ++ rest → I done h →
      wp (forM rest f) (fun _ => I l) E h from hgen l [] h rfl init
  intro rest
  induction rest with
  | nil =>
    intro done h hl hI
    rw [List.append_nil] at hl
    exact hl ▸ hI
  | cons a rest ih =>
    intro done h hl hI
    rw [List.forM_cons, wp_bind]
    refine wp_mono (step done a rest h hl hI) (fun _ t ht => ?_) (fun _ he => he)
    exact ih (done ++ [a]) t (by rw [hl, List.append_assoc]; rfl) ht

/-! ### Which calls a procedure makes -/

/-- The list of calls has grown by calls that satisfy `p`. -/
def Grown (p : τ → Bool) (h t : List τ) : Prop := ∃ es, t = h ++ es ∧ ∀ e ∈ es, p e = true

/-- Whether it returns or raises, the procedure records only calls that satisfy `p`. -/
def Only (p : τ → Bool) (m : Proc ε τ α) : Prop := ∀ h, wp m (fun _ => Grown p h) (Grown p h) h

section
variable {p : τ → Bool}

theorem Grown.refl (h : List τ) : Grown p h h := ⟨[], (List.append_nil h).symm, by simp⟩

theorem Grown.single {e : τ} (he : p e = true) (h : List τ) : Grown p h (h ++ [e]) :=
  ⟨[e], rfl, by simp [he]⟩

theorem Grown.trans {h t u : List τ} (ht : Grown p h t) (hu : Grown p t u) : Grown p h u := by
  obtain ⟨es, rfl, hes⟩ := ht
  obtain ⟨fs, rfl, hfs⟩ := hu
  refine ⟨es ++ fs, List.append_assoc h es fs, fun e he => ?_⟩
  rcases List.mem_append.mp he with hl | hr
  · exact hes e hl
  · exact hfs e hr

/-- What one such call keeps, any number of them keeps. -/
theorem Grown.induction {I : List τ → Prop} (hI : ∀ h e, p e = true → I h → I (h ++ [e]))
    {h t : List τ} (ht : Grown p h t) (hh : I h) : I t := by
  obtain ⟨es, rfl, hes⟩ := ht
  induction es using List.reverseRecOn with
  | nil => simpa using hh
  | append_singleton es e ih =>
    rw [← List.append_assoc]
    refine hI _ e (hes e (by simp)) (ih fun e' he' => hes e' ?_)
    exact List.mem_append_left [e] he'

theorem Grown.weaken {q : τ → Bool} {h t : List τ} (ht : Grown p h t)
    (hpq : ∀ e, p e = true → q e = true) : Grown q h t := by
  obtain ⟨es, rfl, hes⟩ := ht
  exact ⟨es, rfl, fun e he => hpq e (hes e he)⟩

theorem Only.mono {q : τ → Bool} {m : Proc ε τ α} (hm : Only p m)
    (hpq : ∀ e, p e = true → q e = true) : Only q m :=
  fun h => wp_mono (hm h) (fun _ _ ht => ht.weaken hpq) fun _ ht => ht.weaken hpq

/-- **What every such call keeps, the procedure keeps.** -/
theorem Only.keeps {m : Proc ε τ α} (hm : Only p m) {I : List τ → Prop}
    (hI : ∀ h e, p e = true → I h → I (h ++ [e])) {h : List τ} (hh : I h) :
    wp m (fun _ => I) I h :=
  wp_mono (hm h) (fun _ _ ht => ht.induction hI hh) fun _ ht => ht.induction hI hh

theorem Only.pure (a : α) : Only p (Pure.pure a : Proc ε τ α) := fun h => Grown.refl h

theorem Only.bind {m : Proc ε τ α} {f : α → Proc ε τ β} (hm : Only p m)
    (hf : ∀ a, Only p (f a)) : Only p (m >>= f) := by
  intro h
  rw [wp_bind]
  refine wp_mono (hm h) (fun a t ht => ?_) (fun _ ht => ht)
  exact wp_mono (hf a t) (fun _ _ hu => ht.trans hu) (fun _ hu => ht.trans hu)

theorem Only.call {answer : List τ → τ → Except ε Unit} {e : τ} (he : p e = true) :
    Only p (Effects.call answer e) :=
  fun h => wp_call (Grown.single he h) (Grown.single he h)

theorem Only.ask {answer : List τ → Except ε β} {e : β → τ} (he : ∀ b, p (e b) = true) :
    Only p (Effects.ask answer e) :=
  fun h => wp_ask (fun b _ => Grown.single (he b) h) (Grown.refl h)

theorem Only.note {e : τ} (he : p e = true) : Only p (Effects.note e : Proc ε τ Unit) :=
  fun h => Grown.single he h

theorem Only.lift (x : Except ε β) : Only p (Effects.lift x : Proc ε τ β) :=
  fun h => wp_lift (fun _ _ => Grown.refl h) (Grown.refl h)

theorem Only.ite {c : Prop} [Decidable c] {m m' : Proc ε τ α} (hm : c → Only p m)
    (hm' : ¬ c → Only p m') : Only p (if c then m else m') := by
  by_cases hc : c
  · rw [if_pos hc]; exact hm hc
  · rw [if_neg hc]; exact hm' hc

theorem Only.onlyIf {c : Prop} [Decidable c] {m : Proc ε τ Unit} (hm : c → Only p m) :
    Only p (Effects.onlyIf c m) :=
  Only.ite hm fun _ => Only.pure ()

theorem Only.foldlM {f : β → α → Proc ε τ β} (hf : ∀ b a, Only p (f b a)) (l : List α)
    (b : β) : Only p (l.foldlM f b) := by
  induction l generalizing b with
  | nil => exact Only.pure b
  | cons a l ih => exact Only.bind (hf b a) ih

theorem Only.forM {f : α → Proc ε τ PUnit} (hf : ∀ a, Only p (f a)) (l : List α) :
    Only p (ForM.forM l f) := by
  induction l with
  | nil => exact Only.pure _
  | cons a l ih => exact Only.bind (hf a) fun _ => ih

/-! ### Calls a history allows -/

/-- Every call was made when the calls before it allowed it. -/
def Permits (R : List τ → τ → Prop) (t : List τ) : Prop :=
  ∀ pre e post, t = pre ++ e :: post → R pre e

theorem Permits.nil {R : List τ → τ → Prop} : Permits R [] := by
  intro pre e post hsplit
  simp at hsplit

/-- One more call, with the whole list before it. -/
theorem permits_concat {R : List τ → τ → Prop} {t : List τ} {e : τ} :
    Permits R (t ++ [e]) ↔ Permits R t ∧ R t e := by
  constructor
  · intro ht
    refine ⟨fun pre e' post hsplit => ht pre e' (post ++ [e]) ?_, ht t e [] rfl⟩
    rw [hsplit, List.append_assoc, List.cons_append]
  · rintro ⟨ht, he⟩ pre e' post hsplit
    induction post using List.reverseRecOn with
    | nil =>
      -- the split is at the last call
      obtain ⟨rfl, hlast⟩ := List.append_inj' hsplit rfl
      cases hlast
      exact he
    | append_singleton post last _ =>
      -- the split is before it, inside the list
      rw [← List.cons_append, ← List.append_assoc] at hsplit
      exact ht pre e' post (List.append_inj' hsplit rfl).1

/-- The call at a position, and the calls before it. -/
theorem Permits.at {R : List τ → τ → Prop} {t : List τ} (ht : Permits R t) {k : ℕ} {e : τ}
    (hk : t[k]? = some e) : R (t.take k) e := by
  obtain ⟨hlt, rfl⟩ := List.getElem?_eq_some_iff.mp hk
  apply ht (t.take k) t[k] (t.drop (k + 1))
  rw [List.getElem_cons_drop, List.take_append_drop]

/-- Calls that any history allows change nothing. -/
theorem permits_grown {R : List τ → τ → Prop} (hR : ∀ h e, p e = true → R h e) {h t : List τ}
    (ht : Grown p h t) : Permits R t ↔ Permits R h := by
  apply ht.induction (I := fun u => Permits R u ↔ Permits R h) _ Iff.rfl
  intro u e he hu
  rw [permits_concat, and_iff_left (hR u e he), hu]

/-! ### A world that others change too -/

/-- A world changed by the calls of a procedure, and by others before each of them. -/
structure World (τ ω : Type) where
  start : ω
  others : ℕ → ω → ω
  step : ω → τ → ω

section
variable {ω : Type} (w : World τ ω)

/-- The world after the calls. -/
def World.after (t : List τ) : ω :=
  t.zipIdx.foldl (fun s e => w.step (w.others e.2 s) e.1) w.start

/-- The world the next call meets. -/
def World.now (t : List τ) : ω := w.others t.length (w.after t)

@[simp] theorem World.after_concat (t : List τ) (e : τ) :
    w.after (t ++ [e]) = w.step (w.now t) e := by
  simp [World.after, World.now, List.zipIdx_append]

/-- What others keep, and the calls of a kind, holds after any number of those calls. -/
theorem World.after_of_grown {w : World τ ω} {I : ω → Prop}
    (hothers : ∀ n s, I s → I (w.others n s)) (hstep : ∀ s e, p e = true → I s → I (w.step s e))
    {h t : List τ} (ht : Grown p h t) (hh : I (w.after h)) : I (w.after t) := by
  apply ht.induction _ hh
  intro u e he hu
  rw [World.after_concat]
  exact hstep _ e he (hothers _ _ hu)

end

/-! ### Calls a procedure makes -/

/-- A run of the procedure that returns has recorded exactly `es` among the calls that
    satisfy `p`. -/
def Logs (p : τ → Bool) (m : Proc ε τ α) (es : List τ) : Prop :=
  ∀ h, wp m (fun _ t => t.filter p = h.filter p ++ es) (fun _ => True) h

/-- A procedure that makes only other calls records none of them. -/
theorem Only.logs {q : τ → Bool} {m : Proc ε τ α} (hm : Only q m)
    (hq : ∀ e, q e = true → p e = false) : Logs p m [] := by
  intro h
  refine wp_mono (hm h) (fun _ t ht => ?_) (fun _ _ => trivial)
  have hkeep : ∀ t e, q e = true → t.filter p = h.filter p → (t ++ [e]).filter p = h.filter p := by
    intro t e he ht
    rw [List.filter_append, ht]
    simp [hq e he]
  rw [List.append_nil]
  exact ht.induction hkeep rfl

theorem Logs.call {answer : List τ → τ → Except ε Unit} {e : τ} (he : p e = true) :
    Logs p (Effects.call answer e) [e] :=
  fun h => wp_call (by simp [he]) trivial

theorem Logs.bind {m : Proc ε τ α} {f : α → Proc ε τ β} {es fs : List τ} (hm : Logs p m es)
    (hf : ∀ a, Logs p (f a) fs) : Logs p (m >>= f) (es ++ fs) := by
  intro h
  rw [wp_bind]
  refine wp_mono (hm h) (fun a t ht => ?_) (fun _ _ => trivial)
  refine wp_mono (hf a t) (fun _ u hu => ?_) (fun _ _ => trivial)
  rw [hu, ht, List.append_assoc]

end

/-! ### Returning -/

/-- The value a procedure returns with and the calls it has then made, if it returns. -/
def returns (m : Proc ε τ α) (h : List τ) : Option (α × List τ) :=
  match m h with
  | .ok a t => some (a, t)
  | .error _ _ => none

@[simp] theorem returns_pure {a : α} {h : List τ} :
    returns (pure a : Proc ε τ α) h = some (a, h) := rfl

@[simp] theorem returns_bind {m : Proc ε τ α} {f : α → Proc ε τ β} {h : List τ} :
    returns (m >>= f) h = (returns m h).bind fun p => returns (f p.1) p.2 := by
  show returns (EStateM.bind m f) h = _
  unfold returns EStateM.bind
  cases m h <;> rfl

@[simp] theorem returns_note {e : τ} {h : List τ} :
    returns (note e : Proc ε τ Unit) h = some ((), h ++ [e]) := rfl

theorem returns_eq_some {m : Proc ε τ α} {a : α} {h t : List τ} :
    returns m h = some (a, t) ↔ m h = .ok a t := by
  unfold returns
  cases m h <;> simp

/-! ### A procedure within another -/

section
variable {ε' σ : Type} (vis : σ → Option τ) (emb : τ → σ) (err : ε → ε')

/-- A procedure over some of the calls, within procedures over all of them: it sees those of
    the calls so far that are its own, and its calls join the others. -/
def within (m : Proc ε τ α) : Proc ε' σ α := fun h =>
  match m (h.filterMap vis) with
  | .ok a t => .ok a (h ++ (t.drop (h.filterMap vis).length).map emb)
  | .error x t => .error (err x) (h ++ (t.drop (h.filterMap vis).length).map emb)

variable {vis emb err}

theorem wp_within {m : Proc ε τ β} {Q : β → List σ → Prop} {E : List σ → Prop} {h : List σ}
    (hm : wp m (fun b t => ∃ es, t = h.filterMap vis ++ es ∧ Q b (h ++ es.map emb))
      (fun t => ∃ es, t = h.filterMap vis ++ es ∧ E (h ++ es.map emb)) (h.filterMap vis)) :
    wp (within vis emb err m) Q E h := by
  unfold wp at hm
  unfold wp within
  cases hr : m (h.filterMap vis) with
  | ok b t =>
    rw [hr] at hm
    obtain ⟨es, rfl, hQ⟩ := hm
    simpa using hQ
  | error x t =>
    rw [hr] at hm
    obtain ⟨es, rfl, hE⟩ := hm
    simpa using hE

theorem wp_within_lift {x : Except ε β} {Q : β → List σ → Prop} {E : List σ → Prop} {h : List σ}
    (hQ : ∀ b, x = .ok b → Q b h) (hE : E h) : wp (within vis emb err (lift x)) Q E h :=
  wp_within (wp_lift (fun b hb => ⟨[], by simp, by simpa using hQ b hb⟩) ⟨[], by simp, by simpa⟩)

theorem Only.within {p : τ → Bool} {q : σ → Bool} {m : Proc ε τ α} (hm : Only p m)
    (hpq : ∀ e, p e = true → q (emb e) = true) : Only q (Effects.within vis emb err m) := by
  -- the calls of the inner procedure are carried over one by one
  have hgrown : ∀ (h : List σ) (t : List τ), Grown p (h.filterMap vis) t →
      ∃ es, t = h.filterMap vis ++ es ∧ Grown q h (h ++ es.map emb) := by
    rintro h t ⟨es, rfl, hes⟩
    refine ⟨es, rfl, es.map emb, rfl, fun e he => ?_⟩
    obtain ⟨e', he', rfl⟩ := List.mem_map.mp he
    exact hpq e' (hes e' he')
  exact fun h => wp_within (wp_mono (hm _) (fun _ t ht => hgrown h t ht) fun t ht => hgrown h t ht)

/-- Run from `h`, the procedure does what `m` does with the calls that are `m`'s: both return,
    with related values, or both raise, and the calls of one are those of the other. -/
def Tracks (vis : σ → Option τ) (m' : Proc ε' σ α) (h : List σ) (m : Proc ε τ β)
    (R : α → List σ → β → Prop) : Prop :=
  match m' h, m (h.filterMap vis) with
  | .ok a t, .ok b u => u = t.filterMap vis ∧ R a t b
  | .error _ t, .error _ u => u = t.filterMap vis
  | _, _ => False

variable {h : List σ} {R : α → List σ → β → Prop}

/-- The two ways two runs can be alike. -/
theorem tracks_iff {m' : Proc ε' σ α} {m : Proc ε τ β} :
    Tracks vis m' h m R ↔
      (∃ a t b, m' h = .ok a t ∧ m (h.filterMap vis) = .ok b (t.filterMap vis) ∧ R a t b) ∨
      ∃ x t y, m' h = .error x t ∧ m (h.filterMap vis) = .error y (t.filterMap vis) := by
  unfold Tracks
  constructor
  · intro hm
    cases hr' : m' h with
    | ok a t =>
      cases hr : m (h.filterMap vis) with
      | ok b u =>
        rw [hr', hr] at hm
        exact Or.inl ⟨a, t, b, rfl, by rw [hm.1], hm.2⟩
      | error y u => rw [hr', hr] at hm; exact hm.elim
    | error x t =>
      cases hr : m (h.filterMap vis) with
      | ok b u => rw [hr', hr] at hm; exact hm.elim
      | error y u =>
        rw [hr', hr] at hm
        exact Or.inr ⟨x, t, y, rfl, by rw [show u = t.filterMap vis from hm]⟩
  · rintro (⟨a, t, b, hr', hr, hR⟩ | ⟨x, t, y, hr', hr⟩)
    · rw [hr', hr]
      exact ⟨rfl, hR⟩
    · rw [hr', hr]

theorem Tracks.pure {a : α} {b : β} (hR : R a h b) :
    Tracks vis (Pure.pure a : Proc ε' σ α) h (Pure.pure b : Proc ε τ β) R := ⟨rfl, hR⟩

theorem Tracks.bind {α' β' : Type} {m' : Proc ε' σ α} {m : Proc ε τ β} {f' : α → Proc ε' σ α'}
    {f : β → Proc ε τ β'} {S : α' → List σ → β' → Prop} (hm : Tracks vis m' h m R)
    (hf : ∀ a t b, R a t b → Tracks vis (f' a) t (f b) S) :
    Tracks vis (m' >>= f') h (m >>= f) S := by
  show Tracks vis (EStateM.bind m' f') h (EStateM.bind m f) S
  rcases tracks_iff.mp hm with ⟨a, t, b, hr', hr, hR⟩ | ⟨x, t, y, hr', hr⟩
  · -- both go on, from calls that are again alike
    unfold Tracks EStateM.bind
    rw [hr', hr]
    exact hf a t b hR
  · unfold Tracks EStateM.bind
    rw [hr', hr]

theorem Tracks.mono {m' : Proc ε' σ α} {m : Proc ε τ β} {S : α → List σ → β → Prop}
    (hm : Tracks vis m' h m R) (hRS : ∀ a t b, R a t b → S a t b) : Tracks vis m' h m S := by
  rcases tracks_iff.mp hm with ⟨a, t, b, hr', hr, hR⟩ | hraised
  · exact tracks_iff.mpr (Or.inl ⟨a, t, b, hr', hr, hRS a t b hR⟩)
  · exact tracks_iff.mpr (Or.inr hraised)

/-- A step that the other does not take. -/
theorem Tracks.silent {α' : Type} {m' : Proc ε' σ α'} {f' : α' → Proc ε' σ α} {m : Proc ε τ β}
    {a : α'} {t : List σ} (hm : returns m' h = some (a, t)) (ht : t.filterMap vis = h.filterMap vis)
    (hf : Tracks vis (f' a) t m R) : Tracks vis (m' >>= f') h m R := by
  show Tracks vis (EStateM.bind m' f') h m R
  unfold Tracks at hf
  unfold Tracks EStateM.bind
  rw [ht] at hf
  rw [returns_eq_some.mp hm]
  exact hf

/-- A procedure within others does what it does alone. -/
theorem Tracks.within {m : Proc ε τ α} (hvis : ∀ e, vis (emb e) = some e)
    (hm : Only (fun _ => true) m) :
    Tracks vis (Effects.within vis emb err m) h m
      fun a t a' => a = a' ∧ ∃ es : List τ, t = h ++ es.map emb := by
  have hgrown := hm (h.filterMap vis)
  -- what was embedded is visible, so nothing of the inner run is lost
  have hback : ∀ es : List τ, (es.map emb).filterMap vis = es := by
    intro es
    have hid : vis ∘ emb = some := funext hvis
    rw [List.filterMap_map, hid, List.filterMap_some]
  unfold wp at hgrown
  unfold Tracks Effects.within
  cases hr : m (h.filterMap vis) with
  | ok a t =>
    rw [hr] at hgrown
    obtain ⟨es, rfl, _⟩ := hgrown
    exact ⟨by simp [hback], rfl, es, by simp⟩
  | error x t =>
    rw [hr] at hgrown
    obtain ⟨es, rfl, _⟩ := hgrown
    show _ = _
    simp [hback]

/-- So it does when what it returns is looked at through `f`. -/
theorem Tracks.within_map {m : Proc ε τ α} {f : α → β} (hvis : ∀ e, vis (emb e) = some e)
    (hm : Only (fun _ => true) m) :
    Tracks vis (Effects.within vis emb err m) h (f <$> m)
      fun a t b => f a = b ∧ ∃ es : List τ, t = h ++ es.map emb := by
  show Tracks vis _ h (EStateM.map f m) _
  have htracks : Tracks vis (Effects.within vis emb err m) h m _ := Tracks.within hvis hm
  rcases tracks_iff.mp htracks with
    ⟨a, t, b, hr', hr, rfl, hes⟩ | ⟨x, t, y, hr', hr⟩
  · refine tracks_iff.mpr (Or.inl ⟨a, t, f a, hr', ?_, rfl, hes⟩)
    unfold EStateM.map
    rw [hr]
  · refine tracks_iff.mpr (Or.inr ⟨x, t, y, hr', ?_⟩)
    unfold EStateM.map
    rw [hr]

/-- Loops whose turns are alike are alike. -/
theorem Tracks.foldlM {γ : Type} {f' : α → γ → Proc ε' σ α} {f : β → γ → Proc ε τ β} {l : List γ}
    (step : ∀ a t b, R a t b → ∀ x ∈ l, Tracks vis (f' a x) t (f b x) R) {a : α} {b : β}
    (init : R a h b) : Tracks vis (l.foldlM f' a) h (l.foldlM f b) R := by
  induction l generalizing a b h with
  | nil => exact Tracks.pure init
  | cons x l ih =>
    rw [List.foldlM_cons, List.foldlM_cons]
    refine Tracks.bind (step a h b init x List.mem_cons_self) fun a' t b' hR => ?_
    exact ih (fun a t b hR y hy => step a t b hR y (List.mem_cons_of_mem x hy)) hR

/-- The calls of one run are those of the other. -/
theorem Tracks.calls {m' : Proc ε' σ α} {m : Proc ε τ β} (hm : Tracks vis m' [] m R) :
    (Effects.calls m').filterMap vis = Effects.calls m := by
  unfold Effects.calls
  rcases tracks_iff.mp hm with ⟨a, t, b, hr', hr, _⟩ | ⟨x, t, y, hr', hr⟩
  · rw [List.filterMap_nil] at hr
    rw [hr', hr]
  · rw [List.filterMap_nil] at hr
    rw [hr', hr]

end

/-! ### Simulation by a fallible function -/

/-- The procedure returns exactly when `o` has a value, and what it returns with is related
    to it. -/
def Sim {σ : Type} (m : Proc ε τ α) (h : List τ) (o : Option σ) (R : α → List τ → σ → Prop) :
    Prop :=
  match returns m h, o with
  | none, none => True
  | some (a, t), some s => R a t s
  | _, _ => False

section
variable {σ σ' : Type} {h : List τ}

/-- Both have a value, or neither has. -/
theorem sim_iff {m : Proc ε τ α} {o : Option σ} {R : α → List τ → σ → Prop} :
    Sim m h o R ↔ (returns m h = none ∧ o = none) ∨
      ∃ a t s, returns m h = some (a, t) ∧ o = some s ∧ R a t s := by
  unfold Sim
  constructor
  · intro hm
    cases hr : returns m h with
    | none =>
      cases o with
      | none => exact Or.inl ⟨rfl, rfl⟩
      | some s => rw [hr] at hm; exact hm.elim
    | some p =>
      cases o with
      | none => rw [hr] at hm; exact hm.elim
      | some s =>
        rw [hr] at hm
        exact Or.inr ⟨p.1, p.2, s, rfl, rfl, hm⟩
  · rintro (⟨hr, rfl⟩ | ⟨a, t, s, hr, rfl, hR⟩)
    · rw [hr]
      trivial
    · rw [hr]
      exact hR

theorem Sim.pure {a : α} {s : σ} {R : α → List τ → σ → Prop} (hR : R a h s) :
    Sim (Pure.pure a : Proc ε τ α) h (some s) R := hR

theorem Sim.bind {m : Proc ε τ α} {f : α → Proc ε τ β} {o : Option σ} {g : σ → Option σ'}
    {R : α → List τ → σ → Prop} {S : β → List τ → σ' → Prop} (hm : Sim m h o R)
    (hf : ∀ a t s, R a t s → Sim (f a) t (g s) S) : Sim (m >>= f) h (o.bind g) S := by
  rcases sim_iff.mp hm with ⟨hr, rfl⟩ | ⟨a, t, s, hr, rfl, hR⟩
  · exact sim_iff.mpr (Or.inl ⟨by rw [returns_bind, hr]; rfl, rfl⟩)
  · have hrest := hf a t s hR
    unfold Sim at hrest ⊢
    rw [returns_bind, hr]
    exact hrest

/-- A step that the function does not take part in. -/
theorem Sim.silent {m : Proc ε τ α} {f : α → Proc ε τ β} {o : Option σ} {a : α} {t : List τ}
    {S : β → List τ → σ → Prop} (hm : returns m h = some (a, t)) (hf : Sim (f a) t o S) :
    Sim (m >>= f) h o S := by
  unfold Sim
  rw [returns_bind, hm]
  exact hf

theorem Sim.lift {x : Except ε α} :
    Sim (Effects.lift x : Proc ε τ α) h x.toOption fun a t a' => a = a' ∧ t = h := by
  cases x with
  | ok a => exact ⟨rfl, rfl⟩
  | error e => trivial

theorem Sim.ask {answer : List τ → Except ε α} {e : α → τ} :
    Sim (Effects.ask answer e) h (answer h).toOption fun a t a' => a = a' ∧ t = h ++ [e a] := by
  unfold Sim returns Effects.ask
  cases answer h with
  | ok a => exact ⟨rfl, rfl⟩
  | error x => trivial

theorem Sim.mono {m : Proc ε τ α} {o : Option σ} {R S : α → List τ → σ → Prop}
    (hm : Sim m h o R) (hRS : ∀ a t s, R a t s → S a t s) : Sim m h o S := by
  rcases sim_iff.mp hm with hnone | ⟨a, t, s, hr, ho, hR⟩
  · exact sim_iff.mpr (Or.inl hnone)
  · exact sim_iff.mpr (Or.inr ⟨a, t, s, hr, ho, hRS a t s hR⟩)

theorem Sim.map {m : Proc ε τ α} {o : Option σ} {f : σ → σ'} {R : α → List τ → σ → Prop}
    {S : α → List τ → σ' → Prop} (hm : Sim m h o R) (hRS : ∀ a t s, R a t s → S a t (f s)) :
    Sim m h (o.map f) S := by
  rcases sim_iff.mp hm with ⟨hr, rfl⟩ | ⟨a, t, s, hr, rfl, hR⟩
  · exact sim_iff.mpr (Or.inl ⟨hr, rfl⟩)
  · exact sim_iff.mpr (Or.inr ⟨a, t, f s, hr, rfl, hRS a t s hR⟩)

/-- The value a run is related to is the function's. -/
theorem Sim.value {m : Proc ε τ α} {o : Option σ} {R : α → List τ → σ → Prop}
    (hm : Sim m h o R) : Sim m h o fun a t s => R a t s ∧ o = some s := by
  rcases sim_iff.mp hm with hnone | ⟨a, t, s, hr, ho, hR⟩
  · exact sim_iff.mpr (Or.inl hnone)
  · exact sim_iff.mpr (Or.inr ⟨a, t, s, hr, ho, hR, ho⟩)

/-- A loop simulates the loop over the function. -/
theorem Sim.foldlM_zipIdx {f : β → α × ℕ → Proc ε τ β} {g : σ → α → Option σ}
    (R : ℕ → β → List τ → σ → Prop)
    (step : ∀ k b t s a, R k b t s → Sim (f b (a, k)) t (g s a) (R (k + 1)))
    {l : List α} {n : ℕ} {b : β} {s : σ} (init : R n b h s) :
    Sim ((l.zipIdx n).foldlM f b) h (l.foldlM g s) (R (n + l.length)) := by
  induction l generalizing n b h s with
  | nil => exact Sim.pure init
  | cons a l ih =>
    -- both loops take one turn, and the relation moves on by one
    rw [List.zipIdx_cons, List.foldlM_cons, List.foldlM_cons, List.length_cons,
      Nat.add_comm l.length 1, ← Nat.add_assoc]
    exact Sim.bind (step n b h s a init) fun b' t s' hR => ih hR

theorem Sim.foldlM {f : β → α → Proc ε τ β} {g : σ → α → Option σ}
    (R : β → List τ → σ → Prop) (step : ∀ b t s a, R b t s → Sim (f b a) t (g s a) R)
    {l : List α} {b : β} {s : σ} (init : R b h s) :
    Sim (l.foldlM f b) h (l.foldlM g s) R := by
  induction l generalizing b h s with
  | nil => exact Sim.pure init
  | cons a l ih =>
    rw [List.foldlM_cons, List.foldlM_cons]
    exact Sim.bind (step b h s a init) fun b' t s' hR => ih hR

theorem Sim.forM {f : α → Proc ε τ PUnit} {g : σ → α → Option σ} (R : List τ → σ → Prop)
    (step : ∀ t s a, R t s → Sim (f a) t (g s a) fun _ => R) {l : List α} {s : σ}
    (init : R h s) : Sim (ForM.forM l f) h (l.foldlM g s) fun _ => R := by
  induction l generalizing h s with
  | nil => exact Sim.pure init
  | cons a l ih =>
    rw [List.forM_cons, List.foldlM_cons]
    exact Sim.bind (step h s a init) fun _ t s' hR => ih hR

/-- Related ends agree on whatever the relation makes agree. -/
theorem Sim.map_eq {ν : Type} {m : Proc ε τ α} {o : Option σ} {R : α → List τ → σ → Prop}
    {f : α × List τ → ν} {g : σ → ν} (hm : Sim m h o R)
    (hR : ∀ a t s, R a t s → f (a, t) = g s) : (returns m h).map f = o.map g := by
  rcases sim_iff.mp hm with ⟨hr, rfl⟩ | ⟨a, t, s, hr, rfl, hrel⟩
  · rw [hr]
    rfl
  · rw [hr]
    exact congrArg some (hR a t s hrel)

end

end Effects
