import PgChdb.Lib.Text

namespace CText

/-!
# Texts with slots, and lists in texts

A query text with slots, each between an opening and a closing brace, and with a list whose
entries a separator divides.

* `slots` — what stands between the braces of a text, if every brace that opens is closed;
  texts with slots are joined slot by slot (`slots_append`);
* `entries` — the pieces between separators; `entries_append` takes one piece off.
-/

variable {α : Type} [DecidableEq α]

/-! ### Slots -/

/-- Reads one character: the slot that is open, if one is, and the slots closed so far. -/
def slotStep (op cl : α) (st : Option (List α) × List (List α)) (c : α) :
    Option (List α) × List (List α) :=
  match st.1 with
  | none => if c = op then (some [], st.2) else st
  | some body => if c = cl then (none, st.2 ++ [body]) else (some (body ++ [c]), st.2)

/-- The slots of a text, in order; none when the last one is still open. -/
def slots (op cl : α) (s : List α) : Option (List (List α)) :=
  match s.foldl (slotStep op cl) (none, []) with
  | (none, found) => some found
  | (some _, _) => none

section
variable {op cl : α}

/-- The slots found before are kept in front. -/
theorem foldl_slotStep_front (s : List α) (o : Option (List α)) (done found : List (List α)) :
    s.foldl (slotStep op cl) (o, done ++ found)
      = ((s.foldl (slotStep op cl) (o, found)).1,
          done ++ (s.foldl (slotStep op cl) (o, found)).2) := by
  induction s generalizing o found with
  | nil => rfl
  | cons c s ih =>
    have hstep : slotStep op cl (o, done ++ found) c
        = ((slotStep op cl (o, found) c).1, done ++ (slotStep op cl (o, found) c).2) := by
      unfold slotStep
      cases o with
      | none => dsimp only; split <;> rfl
      | some body =>
        dsimp only
        split
        · rw [List.append_assoc]
        · rfl
    rw [List.foldl_cons, List.foldl_cons, hstep, ih]

/-- Two texts whose slots are closed, one behind the other. -/
theorem slots_append {a b : List α} {found found' : List (List α)}
    (ha : slots op cl a = some found) (hb : slots op cl b = some found') :
    slots op cl (a ++ b) = some (found ++ found') := by
  unfold slots at ha hb ⊢
  rw [List.foldl_append]
  cases hra : a.foldl (slotStep op cl) (none, []) with
  | mk o done =>
    rw [hra] at ha
    cases o with
    | some body => cases ha
    | none =>
      cases ha
      have hpre := @foldl_slotStep_front _ _ op cl b none found []
      rw [List.append_nil] at hpre
      rw [hpre]
      cases hrb : b.foldl (slotStep op cl) (none, []) with
      | mk o' done' =>
        rw [hrb] at hb
        cases o' with
        | some body => cases hb
        | none =>
          cases hb
          rfl

/-- A text without an opening brace has no slot. -/
theorem slots_of_not_mem {s : List α} (h : op ∉ s) : slots op cl s = some [] := by
  have hloop : s.foldl (slotStep op cl) (none, []) = (none, []) := by
    induction s with
    | nil => rfl
    | cons c s ih =>
      simp only [List.mem_cons, not_or] at h
      have hc : ¬ c = op := Ne.symm h.1
      rw [List.foldl_cons]
      show s.foldl (slotStep op cl) (if c = op then _ else _) = _
      rw [if_neg hc, ih h.2]
  rw [slots, hloop]

end

/-! ### Entries -/

/-- The pieces of a text between separators. -/
def entries (sep : α) : List α → List (List α)
  | [] => [[]]
  | c :: s =>
    if c = sep then [] :: entries sep s
    else match entries sep s with
      | [] => [[c]]
      | e :: es => (c :: e) :: es

section
variable {sep : α}

/-- The piece in front of a separator. -/
theorem entries_append {a : List α} (ha : sep ∉ a) (s : List α) :
    entries sep (a ++ sep :: s) = a :: entries sep s := by
  induction a with
  | nil => rw [List.nil_append, entries, if_pos rfl]
  | cons c a ih =>
    simp only [List.mem_cons, not_or] at ha
    rw [List.cons_append, entries, if_neg (Ne.symm ha.1), ih ha.2]

/-- A text without a separator is one piece. -/
theorem entries_of_not_mem {a : List α} (ha : sep ∉ a) : entries sep a = [a] := by
  induction a with
  | nil => rfl
  | cons c a ih =>
    simp only [List.mem_cons, not_or] at ha
    rw [entries, if_neg (Ne.symm ha.1), ih ha.2]

end

end CText
