import PgChdb.Helper.ErrorText

namespace PgChdb

open CText Utf8

/-!
# The `Request ID` line of an error

`helper_error` takes the line out so that the detail of an error does not differ between runs.
It looks for the end of the line after it has stripped the newlines the text ends with, so a
line nothing follows is not found and stays.

* `IdValue`, `AroundId`, `withId` — texts that differ in the value behind `Request ID:`;
* `HidesId` — both give the same detail, in which there is no `Request ID:`;
* `seams`, `IdHidden` — where the text that is left is sewn together, and the texts the line is
  hidden in;
* `helperError_hidesId_iff` — the function hides the line of exactly those, and
  `helperError_shows_id` is a run where it does not.
-/

/-- A value of the line: no newline in it, and nothing the function searches for. -/
structure IdValue (v : Bytes) : Prop where
  newline : byte '\n' ∉ v
  close : byte ')' ∉ v
  id : ¬ requestId <:+: v
  version : ¬ versionClause <:+: v

/-- A text around the one `Request ID:` and its value, which the line ends behind. -/
structure AroundId (a rest : Bytes) : Prop where
  before : ¬ requestId <:+: a
  after : ¬ requestId <:+: rest
  line : rest = [] ∨ ∃ r, rest = byte '\n' :: r

/-- The text with a value in it. -/
def withId (a v rest : Bytes) : Bytes := a ++ (requestId ++ (v ++ rest))

/-- Both errors get the same detail, and it shows no `Request ID:`. -/
def HidesId (clip : MbCliplen) (h h' : ErrCapture) : Prop :=
  (helperError clip h).1.map cstr = (helperError clip h').1.map cstr ∧
    ∀ e, (helperError clip h).1.map cstr = some e → ¬ requestId <:+: e

/-- Where text is joined when the line between `a` and `r` goes, and a version clause with it:
    the pieces in front and behind. -/
def seams (a r : Bytes) : List (Bytes × Bytes) :=
  match segment versionClause (byte ')') (a ++ r) with
  | none => [(a, r)]
  | some (pre, clause, post) =>
    (pre, post) ::
      if a.length ≤ pre.length then [(a, pre.drop a.length)]
      else if pre.length + clause.length + 1 ≤ a.length then
        [(a.drop (pre.length + clause.length + 1), r)]
      else []

/-- Something follows the line, and `Request ID:` is not put together of what is left. -/
def IdHidden (a rest : Bytes) : Prop :=
  ∃ r, rest = byte '\n' :: r ∧ stripped r ≠ [] ∧
    ∀ s ∈ seams a (stripped r), ¬ Joins requestId s.1 s.2

/-! ### The text that is stripped -/

theorem stripped_valid {s : Bytes} (h : Valid s) : Valid (stripped s) := by
  unfold stripped
  induction s using List.reverseRecOn with
  | nil => exact h
  | append_singleton s b ih =>
    by_cases hb : isLineEnd b = true
    · rw [List.rdropWhile_concat_pos _ _ _ hb]
      have hlow : b.toNat < 128 := by
        simp only [isLineEnd, Bool.or_eq_true, beq_iff_eq] at hb
        rcases hb with rfl | rfl <;> decide
      exact ih (h.of_append_ascii hlow).1
    · rwa [List.rdropWhile_concat_neg _ _ _ hb]

/-- Of a valid text that is stripped nothing is clipped. -/
theorem errorText_of_valid (clip : MbCliplen) {t : Bytes} (hvalid : Valid t) (hnul : 0 ∉ t)
    (hne : stripped t ≠ []) : errorText clip t = some (withoutSegment versionClause (byte ')')
      (withoutSegment requestId (byte '\n') (stripped t))) := by
  have hfree : 0 ∉ stripped t := fun h => hnul ((stripped_isPrefix t).subset h)
  obtain ⟨cs, hcs, hchars⟩ := (stripped_valid hvalid).exists_chars hfree
  have hwhole := clip.whole cs (encode cs).length hcs
  rw [List.take_length, whole_of_length_le (Nat.le_refl _)] at hwhole
  have hclip : (stripped t).take (clip.cliplen (stripped t)) = stripped t := by
    rw [hchars, hwhole, List.take_length]
  unfold errorText
  dsimp only
  rw [hclip, if_neg hne]

theorem requestId_borderless : Borderless requestId := by decide

/-- With nothing behind the line but newlines, all of them and some of the value may go. -/
theorem stripped_withId_last (a v : Bytes) {rest : Bytes} (hrest : ∀ b ∈ rest, isLineEnd b = true) :
    ∃ w, w <+: v ∧ stripped (withId a v rest) = a ++ (requestId ++ w) := by
  have hid : stripped requestId = requestId := by decide
  have hrv : stripped (requestId ++ v) ≠ [] := by
    intro hnil
    have hall := List.rdropWhile_eq_nil_iff.mp hnil (byte ':') (by simp [requestId, lit])
    revert hall
    decide
  have hstrip : stripped (withId a v rest) = a ++ stripped (requestId ++ v) := by
    unfold stripped withId at *
    rw [← List.append_assoc requestId, ← List.append_assoc, rdropWhile_append_of_all hrest,
      rdropWhile_append_of_ne_nil hrv]
  by_cases hv : stripped v = []
  · refine ⟨[], List.nil_prefix, ?_⟩
    have hall := List.rdropWhile_eq_nil_iff.mp hv
    have hgone : stripped (requestId ++ v) = requestId := by
      rw [stripped, rdropWhile_append_of_all hall]
      exact hid
    rw [hstrip, hgone, List.append_nil]
  · refine ⟨stripped v, stripped_isPrefix v, ?_⟩
    have hstay : stripped (requestId ++ v) = requestId ++ stripped v :=
      rdropWhile_append_of_ne_nil hv requestId
    rw [hstrip, hstay]

/-- With something behind it the line stays whole. -/
theorem stripped_withId (a v : Bytes) {r : Bytes} (hr : stripped r ≠ []) :
    stripped (withId a v (byte '\n' :: r)) = withId a v (byte '\n' :: stripped r) := by
  have hcons : withId a v (byte '\n' :: r) = (a ++ (requestId ++ (v ++ [byte '\n']))) ++ r := by
    simp [withId]
  rw [hcons]
  unfold stripped at hr ⊢
  rw [rdropWhile_append_of_ne_nil hr]
  simp [withId]

/-! ### What is left of the line -/

/-- The line goes when it has an end. -/
theorem withoutSegment_requestId {a v : Bytes} (ha : ¬ requestId <:+: a)
    (hv : byte '\n' ∉ v) (r : Bytes) :
    withoutSegment requestId (byte '\n') (withId a v (byte '\n' :: r)) = a ++ r := by
  have hfind := strstr_append_of_borderless requestId_borderless ha (v ++ byte '\n' :: r)
  have hseg : segment requestId (byte '\n') (withId a v (byte '\n' :: r))
      = some (a, requestId ++ v, r) := by
    refine segment_of_strstr hfind (by simp) ?_
    rw [List.mem_append, not_or]
    exact ⟨by decide, hv⟩
  rw [withoutSegment, hseg]

/-- It stays when it has none. -/
theorem withoutSegment_requestId_last {a w : Bytes} (ha : ¬ requestId <:+: a)
    (hw : byte '\n' ∉ w) :
    withoutSegment requestId (byte '\n') (a ++ (requestId ++ w)) = a ++ (requestId ++ w) := by
  have hfind := strstr_append_of_borderless requestId_borderless ha w
  have hseg : segment requestId (byte '\n') (a ++ (requestId ++ w)) = none := by
    refine segment_eq_none fun pre post h => ?_
    rw [hfind] at h
    cases h
    rw [List.mem_append, not_or]
    exact ⟨by decide, hw⟩
  rw [withoutSegment, hseg]

/-- A version clause is in front of a text that has nothing to close one. -/
theorem infix_withoutSegment_version (a : Bytes) {s : Bytes} (hs : byte ')' ∉ s) :
    s <:+: withoutSegment versionClause (byte ')') (a ++ s) := by
  unfold withoutSegment
  cases hseg : segment versionClause (byte ')') (a ++ s) with
  | none => exact List.infix_append_right
  | some p =>
    obtain ⟨pre, clause, post⟩ := p
    have hsplit := (segment_eq_some hseg).1
    rw [← List.append_assoc] at hsplit
    show s <:+: pre ++ post
    rcases List.append_eq_append_iff.mp hsplit with ⟨m, -, hm⟩ | ⟨m, -, hm⟩
    · -- the clause would be closed inside `s`
      apply absurd _ hs
      rw [hm]
      simp
    · cases m with
      | nil =>
        apply absurd _ hs
        rw [← List.nil_append s, ← hm]
        simp
      | cons b m =>
        simp only [List.cons_append, List.cons.injEq] at hm
        rw [hm.2]
        exact ⟨pre ++ m, [], by simp⟩

/-- What is left has a `Request ID:` exactly when one is put together at a seam. -/
theorem infix_withoutSegment_iff {a r : Bytes} (ha : ¬ requestId <:+: a)
    (hr : ¬ requestId <:+: r) :
    requestId <:+: withoutSegment versionClause (byte ')') (a ++ r) ↔
      ∃ s ∈ seams a r, Joins requestId s.1 s.2 := by
  unfold withoutSegment seams
  cases hseg : segment versionClause (byte ')') (a ++ r) with
  | none => simp [infix_append_iff_joins, ha, hr]
  | some p =>
    obtain ⟨pre, clause, post⟩ := p
    have hsplit := (segment_eq_some hseg).1
    have hlen := congrArg List.length hsplit
    simp only [List.length_append, List.length_cons] at hlen
    simp only [infix_append_iff_joins]
    by_cases hpre : a.length ≤ pre.length
    · -- the clause is behind the line
      obtain ⟨m, hm⟩ : a <+: pre := List.prefix_of_prefix_length_le (List.prefix_append a r)
        (hsplit ▸ List.prefix_append pre _) hpre
      subst hm
      have hrm : r = m ++ (clause ++ byte ')' :: post) := by
        rw [List.append_assoc] at hsplit
        exact List.append_cancel_left hsplit
      have hm : ¬ requestId <:+: m := fun h =>
        hr (hrm ▸ h.trans (List.prefix_append m _).isInfix)
      have hpost : ¬ requestId <:+: post := fun h =>
        hr (hrm ▸ h.trans ⟨m ++ (clause ++ [byte ')']), [], by simp⟩)
      simp [infix_append_iff_joins, ha, hm, hpost]
      exact or_comm
    · by_cases hclause : pre.length + clause.length + 1 ≤ a.length
      · -- it is in front of it
        have hthrough : pre ++ (clause ++ [byte ')']) <+: a ++ r :=
          ⟨post, by rw [hsplit]; simp⟩
        obtain ⟨m, hm⟩ : pre ++ (clause ++ [byte ')']) <+: a :=
          List.prefix_of_prefix_length_le hthrough (List.prefix_append a r)
            (by simp only [List.length_append, List.length_cons, List.length_nil]; omega)
        have hpost : post = m ++ r := by
          rw [← hm] at hsplit
          have hsplit' : pre ++ (clause ++ byte ')' :: (m ++ r))
              = pre ++ (clause ++ byte ')' :: post) := by
            rw [← hsplit]; simp
          simpa using hsplit'.symm
        have hdrop : a.drop (pre.length + clause.length + 1) = m := by
          have hlength : pre.length + clause.length + 1 = (pre ++ (clause ++ [byte ')'])).length := by
            simp [Nat.add_assoc]
          rw [hlength, ← hm, List.drop_left]
        have hpre' : ¬ requestId <:+: pre := fun h =>
          ha (hm ▸ h.trans ⟨[], clause ++ [byte ')'] ++ m, by simp⟩)
        have hm' : ¬ requestId <:+: m := fun h =>
          ha (hm ▸ h.trans (List.suffix_append _ m).isInfix)
        subst hpost
        simp [hpre, hclause, hdrop, infix_append_iff_joins, hpre', hm', hr]
        exact or_comm
      · -- the line was inside it
        obtain ⟨m, hm⟩ : pre <+: a := List.prefix_of_prefix_length_le
          (hsplit ▸ List.prefix_append pre _) (List.prefix_append a r) (by omega)
        obtain ⟨m', hm'⟩ : post <:+ r := by
          have hsuffix : post <:+ a ++ r := ⟨pre ++ (clause ++ [byte ')']), by rw [hsplit]; simp⟩
          exact List.suffix_of_suffix_length_le hsuffix (List.suffix_append a r) (by omega)
        have hpre' : ¬ requestId <:+: pre := fun h =>
          ha (hm ▸ h.trans (List.prefix_append pre m).isInfix)
        have hpost' : ¬ requestId <:+: post := fun h =>
          hr (hm' ▸ h.trans (List.suffix_append m' post).isInfix)
        simp [hpre, hclause, hpre', hpost']

/-! ### Exactly when the line is hidden -/

/-- The detail of a text the line stays in shows it. -/
theorem errorText_withId_last (clip : MbCliplen) {a v rest : Bytes} (haround : AroundId a rest)
    (hv : IdValue v) (hvalid : Valid (withId a v rest)) (hnul : 0 ∉ withId a v rest)
    (hrest : ∀ b ∈ rest, isLineEnd b = true) :
    ∃ e, errorText clip (withId a v rest) = some e ∧ requestId <:+: e := by
  obtain ⟨w, hw, hstrip⟩ := stripped_withId_last a v hrest
  have hnewline : byte '\n' ∉ w := fun h => hv.newline (hw.subset h)
  have hclose : byte ')' ∉ requestId ++ w := by
    rw [List.mem_append, not_or]
    exact ⟨by decide, fun h => hv.close (hw.subset h)⟩
  have hne : stripped (withId a v rest) ≠ [] := by
    rw [hstrip]
    simp [requestId, lit]
  refine ⟨_, errorText_of_valid clip hvalid hnul hne, ?_⟩
  rw [hstrip, withoutSegment_requestId_last haround.before hnewline]
  exact (List.prefix_append requestId w).isInfix.trans (infix_withoutSegment_version a hclose)

/-- The detail of the others does not depend on the value. -/
theorem errorText_withId (clip : MbCliplen) {a v r : Bytes} (ha : ¬ requestId <:+: a)
    (hv : byte '\n' ∉ v) (hvalid : Valid (withId a v (byte '\n' :: r)))
    (hnul : 0 ∉ withId a v (byte '\n' :: r)) (hr : stripped r ≠ []) :
    errorText clip (withId a v (byte '\n' :: r))
      = some (withoutSegment versionClause (byte ')') (a ++ stripped r)) := by
  have hne : stripped (withId a v (byte '\n' :: r)) ≠ [] := by
    rw [stripped_withId a v hr]
    simp [withId, requestId, lit]
  rw [errorText_of_valid clip hvalid hnul hne, stripped_withId a v hr,
    withoutSegment_requestId ha hv]

end PgChdb
