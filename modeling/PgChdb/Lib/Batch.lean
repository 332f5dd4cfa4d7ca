import Mathlib.Data.List.Induction

namespace Batch

/-!
# A store with a batch in front of it

A store takes items one at a time.  Each becomes a record, which may depend on its number
and on the records the store holds by then, and the store may refuse it.  Put in front of
the store, a batch collects records and passes them on when it is full and at the end, so
that a record built in between is built from an earlier content.

* `Store.directRun`, `Store.batchRun` — a run of each kind, none when a record cannot be
  built or is refused;
* `Store.split` — how a content divides into what has been passed on and what has not;
* `Store.batchRun_eq_directRun_iff` — the two agree on all inputs exactly when no record
  that is built next depends on the part that has not been passed on.
-/

variable {ι ρ : Type}

/-- How records are built, from their number and the content; which the store accepts; and
    when the batch is full. -/
structure Store (ι ρ : Type) where
  build : ℕ → List ρ → ι → Option ρ
  accepts : List ρ → ρ → Bool
  full : List ρ → Bool

namespace Store

variable (s : Store ι ρ)

/-! ### The two runs -/

/-- The record, if the store accepts it. -/
def take (content : List ρ) (r : ρ) : Option ρ := if s.accepts content r then some r else none

/-- The next record over `content`, built as if the store held `seen`. -/
def place (seen content : List ρ) (x : ι) : Option ρ :=
  (s.build content.length seen x).bind (s.take content)

/-- One item straight into the store. -/
def directStep (content : List ρ) (x : ι) : Option (List ρ) :=
  (s.place content content x).map fun r => content ++ [r]

def directRun (xs : List ι) : Option (List ρ) := xs.foldlM s.directStep []

/-- Pass a batch on. -/
def flush (content : List ρ) (batch : List ρ) : Option (List ρ) :=
  batch.foldlM (fun content r => (s.take content r).map fun r => content ++ [r]) content

/-- A record into the batch, which is passed on when that fills it. -/
def store (p : List ρ × List ρ) (r : ρ) : Option (List ρ × List ρ) :=
  if s.full (p.2 ++ [r]) then (s.flush p.1 (p.2 ++ [r])).map fun content => (content, [])
  else some (p.1, p.2 ++ [r])

/-- One item into the batch. -/
def batchStep (p : List ρ × List ρ) (x : ι) : Option (List ρ × List ρ) :=
  (s.build (p.1.length + p.2.length) p.1 x).bind (s.store p)

def batchRun (xs : List ι) : Option (List ρ) :=
  (xs.foldlM s.batchStep ([], [])).bind fun p => s.flush p.1 p.2

/-- One more record, when all are accepted. -/
def splitStep (p : List ρ × List ρ) (r : ρ) : List ρ × List ρ :=
  if s.full (p.2 ++ [r]) then (p.1 ++ (p.2 ++ [r]), []) else (p.1, p.2 ++ [r])

/-- What of a content has been passed on, and what is still in the batch. -/
def split (content : List ρ) : List ρ × List ρ := content.foldl s.splitStep ([], [])

/-- No next record depends on what is still in the batch. -/
def Blind : Prop :=
  ∀ xs content x, s.directRun xs = some content →
    s.place content content x = s.place (s.split content).1 content x

/-! ### Passing a batch on -/

theorem flush_append (content batch : List ρ) (r : ρ) :
    s.flush content (batch ++ [r]) =
      (s.flush content batch).bind fun c => (s.take c r).map fun r => c ++ [r] := by
  simp [flush, List.foldlM_append]

theorem take_eq_some {content : List ρ} {r r' : ρ} (h : s.take content r = some r') :
    r' = r := by
  unfold take at h
  split at h
  · exact (Option.some.inj h).symm
  · cases h

/-- A batch that passes is put behind the content as it is. -/
theorem flush_eq_some {content batch content' : List ρ}
    (h : s.flush content batch = some content') : content' = content ++ batch := by
  induction batch using List.reverseRecOn generalizing content' with
  | nil => simpa [flush] using h.symm
  | append_singleton batch r ih =>
    rw [flush_append, Option.bind_eq_some_iff] at h
    obtain ⟨c, hc, hr⟩ := h
    obtain ⟨r', hr', rfl⟩ := Option.map_eq_some_iff.mp hr
    rw [ih hc, s.take_eq_some hr', List.append_assoc]

/-- A stored record is one more in the content and the batch together. -/
theorem store_length {p p' : List ρ × List ρ} {r : ρ} (h : s.store p r = some p') :
    p'.1.length + p'.2.length = p.1.length + p.2.length + 1 := by
  unfold store at h
  by_cases hfull : s.full (p.2 ++ [r]) = true
  · rw [if_pos hfull] at h
    obtain ⟨content, hc, rfl⟩ := Option.map_eq_some_iff.mp h
    rw [s.flush_eq_some hc]
    simp [Nat.add_assoc]
  · rw [if_neg hfull] at h
    cases h
    simp [Nat.add_assoc]

/-- Once some record of the batch is refused, the batch never passes. -/
theorem flush_append_none {content batch : List ρ} (h : s.flush content batch = none) (r : ρ) :
    s.flush content (batch ++ [r]) = none := by
  rw [flush_append, h]
  rfl

theorem split_append (content : List ρ) (r : ρ) :
    s.split (content ++ [r]) = s.splitStep (s.split content) r := by
  simp [split, List.foldl_append]

theorem split_parts (content : List ρ) :
    (s.split content).1 ++ (s.split content).2 = content := by
  induction content using List.reverseRecOn with
  | nil => rfl
  | append_singleton content r ih =>
    rw [split_append]
    unfold splitStep
    split
    · rw [List.append_nil, ← List.append_assoc, ih]
    · rw [← List.append_assoc, ih]

/-! ### One step of each -/

/-- After some items, the batched store holds what the direct one holds, divided. -/
def Agrees (p : Option (List ρ × List ρ)) (content : List ρ) : Prop :=
  p = some (s.split content) ∧ s.flush (s.split content).1 (s.split content).2 = some content

/-- After some items, the batch can no longer pass. -/
def Doomed (p : Option (List ρ × List ρ)) : Prop :=
  ∀ q, p = some q → s.flush q.1 q.2 = none

/-- A record put behind an agreeing batch: it passes exactly when the store accepts it. -/
theorem store_split {content : List ρ} {r : ρ}
    (h : s.flush (s.split content).1 (s.split content).2 = some content) :
    (∀ r', s.take content r = some r' →
      s.Agrees (s.store (s.split content) r) (content ++ [r])) ∧
    (s.take content r = none → s.Doomed (s.store (s.split content) r)) := by
  have hflush : s.flush (s.split content).1 ((s.split content).2 ++ [r]) =
      (s.take content r).map fun r => content ++ [r] := by
    rw [flush_append, h]
    rfl
  have hparts : (s.split content).1 ++ ((s.split content).2 ++ [r]) = content ++ [r] := by
    rw [← List.append_assoc, split_parts]
  constructor
  · intro r' hr'
    obtain rfl := s.take_eq_some hr'
    unfold Agrees store
    rw [split_append]
    unfold splitStep
    by_cases hfull : s.full ((s.split content).2 ++ [r']) = true
    · rw [if_pos hfull, if_pos hfull, hflush, hr', hparts]
      exact ⟨rfl, rfl⟩
    · rw [if_neg hfull, if_neg hfull]
      exact ⟨rfl, by rw [hflush, hr']; rfl⟩
  · intro hnone q hq
    rw [hnone, Option.map_none] at hflush
    unfold store at hq
    by_cases hfull : s.full ((s.split content).2 ++ [r]) = true
    · rw [if_pos hfull, hflush] at hq
      cases hq
    · rw [if_neg hfull] at hq
      cases hq
      exact hflush

/-- A doomed batch stays doomed. -/
theorem Doomed.step {p : Option (List ρ × List ρ)} (h : s.Doomed p) (x : ι) :
    s.Doomed (p.bind fun q => s.batchStep q x) := by
  intro q hq
  obtain ⟨q₀, hq₀, hstep⟩ := Option.bind_eq_some_iff.mp hq
  unfold batchStep at hstep
  obtain ⟨r, -, hstore⟩ := Option.bind_eq_some_iff.mp hstep
  have hnone := s.flush_append_none (h q₀ hq₀) r
  unfold store at hstore
  by_cases hfull : s.full (q₀.2 ++ [r]) = true
  · rw [if_pos hfull, hnone] at hstore
    cases hstore
  · rw [if_neg hfull] at hstore
    cases hstore
    exact hnone

/-- The item that follows, into an agreeing batch. -/
theorem batchStep_split {content : List ρ} {x : ι}
    (h : s.flush (s.split content).1 (s.split content).2 = some content) :
    (∀ r, s.place (s.split content).1 content x = some r →
      s.Agrees (s.batchStep (s.split content) x) (content ++ [r])) ∧
    (s.place (s.split content).1 content x = none →
      s.Doomed (s.batchStep (s.split content) x)) := by
  have hlen : (s.split content).1.length + (s.split content).2.length = content.length := by
    rw [← List.length_append, split_parts]
  unfold place batchStep
  rw [hlen]
  cases s.build content.length (s.split content).1 x with
  | none => exact ⟨nofun, fun _ => nofun⟩
  | some r =>
    obtain ⟨hpass, hrefused⟩ := s.store_split (r := r) h
    refine ⟨fun r' hr' => ?_, hrefused⟩
    rw [Option.bind_some] at hr'
    rw [s.take_eq_some hr']
    exact hpass r' hr'

/-- The batched run, stopped here, gives the agreed content. -/
theorem Agrees.passes {p : Option (List ρ × List ρ)} {content : List ρ}
    (h : s.Agrees p content) : (p.bind fun q => s.flush q.1 q.2) = some content := by
  rw [h.1]
  exact h.2

theorem Doomed.fails {p : Option (List ρ × List ρ)} (h : s.Doomed p) :
    (p.bind fun q => s.flush q.1 q.2) = none := by
  cases p with
  | none => rfl
  | some q => exact h q rfl

/-! ### Runs -/

theorem directRun_append (xs : List ι) (x : ι) :
    s.directRun (xs ++ [x]) = (s.directRun xs).bind fun c => s.directStep c x := by
  simp [directRun, List.foldlM_append]

theorem batchStep_append (xs : List ι) (x : ι) : (xs ++ [x]).foldlM s.batchStep ([], []) =
    (xs.foldlM s.batchStep ([], [])).bind fun p => s.batchStep p x := by
  simp [List.foldlM_append]

/-- A blind store is in step with the direct one after any number of items. -/
theorem Blind.run (hblind : s.Blind) (xs : List ι) :
    (∃ content, s.directRun xs = some content ∧
      s.Agrees (xs.foldlM s.batchStep ([], [])) content) ∨
    (s.directRun xs = none ∧ s.Doomed (xs.foldlM s.batchStep ([], []))) := by
  induction xs using List.reverseRecOn with
  | nil => exact Or.inl ⟨[], rfl, rfl, rfl⟩
  | append_singleton xs x ih =>
    rw [directRun_append, batchStep_append]
    rcases ih with ⟨content, hdirect, hagrees, hflush⟩ | ⟨hdirect, hdoomed⟩
    · rw [hdirect, hagrees, Option.bind_some, Option.bind_some]
      obtain ⟨hpass, hrefused⟩ := s.batchStep_split (x := x) hflush
      unfold directStep
      rw [hblind xs content x hdirect]
      cases hplace : s.place (s.split content).1 content x with
      | some r => exact Or.inl ⟨content ++ [r], rfl, hpass r hplace⟩
      | none => exact Or.inr ⟨rfl, hrefused hplace⟩
    · rw [hdirect]
      exact Or.inr ⟨rfl, Doomed.step s hdoomed x⟩

/-- The batch always divides the content the way `split` says. -/
theorem batchStep_run_split {xs : List ι} {p : List ρ × List ρ}
    (h : xs.foldlM s.batchStep ([], []) = some p) : p = s.split (p.1 ++ p.2) := by
  induction xs using List.reverseRecOn generalizing p with
  | nil => cases h; rfl
  | append_singleton xs x ih =>
    rw [batchStep_append, Option.bind_eq_some_iff] at h
    obtain ⟨q, hq, hstep⟩ := h
    unfold batchStep at hstep
    obtain ⟨r, -, hstore⟩ := Option.bind_eq_some_iff.mp hstep
    have hsplit : s.split ((q.1 ++ q.2) ++ [r]) = s.splitStep q r := by
      rw [split_append, ← ih hq]
    unfold store at hstore
    unfold splitStep at hsplit
    by_cases hfull : s.full (q.2 ++ [r]) = true
    · rw [if_pos hfull] at hstore hsplit
      obtain ⟨c, hc, rfl⟩ := Option.map_eq_some_iff.mp hstore
      rw [List.append_assoc] at hsplit
      rw [s.flush_eq_some hc, List.append_nil]
      exact hsplit.symm
    · rw [if_neg hfull] at hstore hsplit
      cases hstore
      rw [List.append_assoc] at hsplit
      exact hsplit.symm

/-- **When a batch is invisible.**  The batched run agrees with the direct one on every
    input exactly when the store is blind to its batch. -/
theorem batchRun_eq_directRun_iff :
    (∀ xs, s.batchRun xs = s.directRun xs) ↔ s.Blind := by
  constructor
  · intro hall xs content x hdirect
    -- before `x` the two runs agree, so the batch is the content, divided
    obtain ⟨p, hp, hflush⟩ := Option.bind_eq_some_iff.mp ((hall xs).trans hdirect)
    have hsplit := s.batchStep_run_split hp
    rw [← s.flush_eq_some hflush] at hsplit
    rw [hsplit] at hp hflush
    -- and after it they still do
    have hnext := hall (xs ++ [x])
    unfold batchRun at hnext
    rw [batchStep_append, directRun_append, hp, hdirect, Option.bind_some, Option.bind_some]
      at hnext
    unfold directStep at hnext
    obtain ⟨hpass, hrefused⟩ := s.batchStep_split (x := x) hflush
    cases hplace : s.place (s.split content).1 content x with
    | some r =>
      rw [(hpass r hplace).passes] at hnext
      obtain ⟨r', hr', heq⟩ := Option.map_eq_some_iff.mp hnext.symm
      rw [hr', List.append_cancel_left heq |> List.singleton_inj.mp]
    | none =>
      rw [(hrefused hplace).fails] at hnext
      exact Option.map_eq_none_iff.mp hnext.symm
  · intro hblind xs
    unfold batchRun
    rcases hblind.run s xs with ⟨content, hdirect, hagrees⟩ | ⟨hdirect, hdoomed⟩
    · rw [hdirect, hagrees.passes]
    · rw [hdirect, hdoomed.fails]

/-- Records that are built without looking at the content make a blind store. -/
theorem Blind.of_build (h : ∀ n seen seen' x, s.build n seen x = s.build n seen' x) :
    s.Blind := by
  intro xs content x _
  unfold place
  rw [h content.length content (s.split content).1 x]

end Store

end Batch
