import Mathlib.Data.List.Basic
import Mathlib.Data.List.DropRight
import Mathlib.Data.List.Infix
import Mathlib.Data.List.TakeWhile

namespace CText

/-!
# Searching and escaping, over any alphabet

The string operations C code is made of, on lists over an alphabet with decidable
equality:

* `cut c s` — the text before and after the first `c`, which are joined again by that `c`
  (`cut_eq_some`);
* `upTo c s`, `past c s` — the same two pieces, of a text that need not have the `c`
  (`cut_eq`); a text without `c` in front is passed over (`upTo_append_of_not_mem`);
* `strstr pat s` — cut `s` around the first occurrence of `pat`.  `skips pat a` is the
  decidable test that no occurrence can begin inside `a`, whatever follows it; a search
  passes over such a piece (`strstr_append_of_skips`), so a text assembled from pieces is
  searched piece by piece;
* `Joins pat a b` — the text `a ++ b` has a `pat` in it that lies across its joint
  (`infix_append_iff_joins`);
* `doubled e s` — write every escape character `e` twice.  A reader that `Undoes e` gives
  back what was doubled (`Undoes.doubled`) and leaves a text without `e` alone
  (`Undoes.of_not_mem`).
-/

variable {α : Type*} [DecidableEq α]

/-! ### First occurrence -/

/-- The text before the first `c`, and the text after it if there is one. -/
def cut (c : α) : List α → List α × Option (List α)
  | [] => ([], none)
  | b :: s => if b = c then ([], some s) else (b :: (cut c s).1, (cut c s).2)

/-- The text before and after the first occurrence of `pat`. -/
def strstr (pat : List α) : List α → Option (List α × List α)
  | [] => if pat = [] then some ([], []) else none
  | c :: s =>
    if pat.isPrefixOf (c :: s) then some ([], (c :: s).drop pat.length)
    else (strstr pat s).map fun p => (c :: p.1, p.2)

theorem cut_append {c : α} {a : List α} (h : c ∉ a) (b : List α) :
    cut c (a ++ c :: b) = (a, some b) := by
  induction a with
  | nil => simp [cut]
  | cons d a ih =>
    have hd : d ≠ c := fun e => h (e ▸ List.mem_cons_self)
    have ha : c ∉ a := fun m => h (List.mem_cons_of_mem d m)
    rw [List.cons_append, cut, if_neg hd, ih ha]

theorem cut_of_not_mem {c : α} {s : List α} (h : c ∉ s) : cut c s = (s, none) := by
  induction s with
  | nil => rfl
  | cons d s ih =>
    have hd : d ≠ c := fun e => h (e ▸ List.mem_cons_self)
    have hs : c ∉ s := fun m => h (List.mem_cons_of_mem d m)
    rw [cut, if_neg hd, ih hs]

theorem cut_eq_some {c : α} {s a b : List α} :
    cut c s = (a, some b) ↔ s = a ++ c :: b ∧ c ∉ a := by
  constructor
  · intro h
    by_cases hs : c ∈ s
    · obtain ⟨a', b', rfl, ha'⟩ := List.eq_append_cons_of_mem hs
      rw [cut_append ha'] at h
      cases h
      exact ⟨rfl, ha'⟩
    · rw [cut_of_not_mem hs] at h
      cases h
  · rintro ⟨rfl, ha⟩
    exact cut_append ha b

/-- The text before the first `c`, all of it when there is none. -/
def upTo (c : α) (s : List α) : List α := s.takeWhile fun b => b ≠ c

/-- The text after the first `c`, nothing when there is none. -/
def past (c : α) (s : List α) : List α := (s.dropWhile fun b => b ≠ c).tail

theorem not_mem_upTo (c : α) (s : List α) : c ∉ upTo c s := by
  intro h
  simpa using List.mem_takeWhile_imp h

private theorem ne_of_not_mem {c : α} {a : List α} (h : c ∉ a) :
    ∀ b ∈ a, (decide (b ≠ c)) = true := by
  intro b hb
  have hne : b ≠ c := fun e => h (e ▸ hb)
  simpa using hne

/-- A text without `c` is passed over. -/
theorem upTo_append_of_not_mem {c : α} {a : List α} (h : c ∉ a) (b : List α) :
    upTo c (a ++ b) = a ++ upTo c b :=
  List.takeWhile_append_of_pos (ne_of_not_mem h)

theorem past_append_of_not_mem {c : α} {a : List α} (h : c ∉ a) (b : List α) :
    past c (a ++ b) = past c b := by
  rw [past, List.dropWhile_append_of_pos (ne_of_not_mem h), past]

@[simp] theorem upTo_append {c : α} {a : List α} (h : c ∉ a) (b : List α) :
    upTo c (a ++ c :: b) = a := by
  rw [upTo_append_of_not_mem h]
  simp [upTo]

@[simp] theorem past_append {c : α} {a : List α} (h : c ∉ a) (b : List α) :
    past c (a ++ c :: b) = b := by
  rw [past_append_of_not_mem h]
  simp [past]

theorem upTo_of_not_mem {c : α} {s : List α} (h : c ∉ s) : upTo c s = s :=
  List.takeWhile_eq_self_iff.mpr (ne_of_not_mem h)

theorem past_of_not_mem {c : α} {s : List α} (h : c ∉ s) : past c s = [] := by
  have hnone : s.dropWhile (fun b => b ≠ c) = [] :=
    List.dropWhile_eq_nil_iff.mpr (ne_of_not_mem h)
  rw [past, hnone]
  rfl

theorem upTo_append_past {c : α} {s : List α} (h : c ∈ s) : upTo c s ++ c :: past c s = s := by
  obtain ⟨a, b, rfl, ha⟩ := List.eq_append_cons_of_mem h
  rw [upTo_append ha, past_append ha]

theorem cut_eq (c : α) (s : List α) :
    cut c s = (upTo c s, if c ∈ s then some (past c s) else none) := by
  by_cases h : c ∈ s
  · rw [if_pos h]
    exact cut_eq_some.mpr ⟨(upTo_append_past h).symm, not_mem_upTo c s⟩
  · rw [if_neg h, upTo_of_not_mem h]
    exact cut_of_not_mem h

/-- A search that succeeds has cut the text around the pattern. -/
theorem strstr_eq_some {pat s a b : List α} (h : strstr pat s = some (a, b)) :
    s = a ++ pat ++ b := by
  induction s generalizing a with
  | nil =>
    unfold strstr at h
    split at h
    · rename_i hpat
      cases h
      simp [hpat]
    · cases h
  | cons c s ih =>
    unfold strstr at h
    split at h
    · rename_i hpre
      cases h
      exact (List.prefix_iff_eq_append.mp (List.isPrefixOf_iff_prefix.mp hpre)).symm
    · obtain ⟨p, hp, hab⟩ := Option.map_eq_some_iff.mp h
      cases hab
      rw [ih hp]
      simp

/-- No occurrence of `pat` begins inside `a`, whatever text follows `a`: at every
    position the two already disagree before `a` ends. -/
def skips (pat : List α) : List α → Bool
  | [] => true
  | c :: a => !pat.isPrefixOf (c :: a) && !(c :: a).isPrefixOf pat && skips pat a

/-- A search starting at an occurrence stops there. -/
theorem strstr_append_self (pat s : List α) : strstr pat (pat ++ s) = some ([], s) := by
  cases pat with
  | nil => cases s <;> simp [strstr]
  | cons c pat =>
    have hpre : (c :: pat).isPrefixOf (c :: (pat ++ s)) = true :=
      List.isPrefixOf_iff_prefix.mpr (List.prefix_append (c :: pat) s)
    simp [strstr, hpre]

private theorem not_prefix_append {pat a : List α} (s : List α)
    (h₁ : pat.isPrefixOf a = false) (h₂ : a.isPrefixOf pat = false) :
    pat.isPrefixOf (a ++ s) = false := by
  rw [← Bool.not_eq_true, List.isPrefixOf_iff_prefix] at h₁ h₂ ⊢
  intro hp
  -- two prefixes of one text: one is a prefix of the other
  rcases List.prefix_or_prefix_of_prefix hp (List.prefix_append a s) with h | h
  · exact h₁ h
  · exact h₂ h

/-- A search passes over a piece in which no occurrence can begin. -/
theorem strstr_append_of_skips {pat a : List α} (h : skips pat a = true) (s : List α) :
    strstr pat (a ++ s) = (strstr pat s).map fun p => (a ++ p.1, p.2) := by
  induction a with
  | nil => simp
  | cons c a ih =>
    simp only [skips, Bool.and_eq_true, Bool.not_eq_true'] at h
    obtain ⟨⟨h₁, h₂⟩, h₃⟩ := h
    have hno : pat.isPrefixOf (c :: (a ++ s)) = false := not_prefix_append s h₁ h₂
    rw [List.cons_append, strstr, hno, ih h₃]
    simp [Option.map_map, Function.comp_def]

/-- The search passes over two such pieces in turn. -/
theorem skips_append {pat a b : List α} (ha : skips pat a = true) (hb : skips pat b = true) :
    skips pat (a ++ b) = true := by
  induction a with
  | nil => exact hb
  | cons c a ih =>
    simp only [skips, Bool.and_eq_true, Bool.not_eq_true'] at ha
    obtain ⟨⟨h₁, h₂⟩, h₃⟩ := ha
    have hno : pat.isPrefixOf (c :: (a ++ b)) = false := not_prefix_append b h₁ h₂
    -- a pattern that goes on past `a` would begin with it
    have hlong : (c :: (a ++ b)).isPrefixOf pat = false := by
      rw [← Bool.not_eq_true, List.isPrefixOf_iff_prefix] at h₂ ⊢
      intro hp
      apply h₂
      exact (List.prefix_append (c :: a) b).trans hp
    simp [skips, hno, hlong, ih h₃]

/-- In such a piece there is nothing to find. -/
theorem strstr_eq_none_of_skips {pat a : List α} (hpat : pat ≠ []) (h : skips pat a = true) :
    strstr pat a = none := by
  have happ := strstr_append_of_skips h []
  rw [List.append_nil] at happ
  rw [happ, strstr, if_neg hpat]
  rfl

/-- A piece without the first character of `pat` is passed over. -/
theorem skips_of_head_not_mem {c : α} (pat : List α) {a : List α} (h : c ∉ a) :
    skips (c :: pat) a = true := by
  induction a with
  | nil => rfl
  | cons b a ih =>
    have hb : b ≠ c := fun e => h (e ▸ List.mem_cons_self)
    have ha : c ∉ a := fun m => h (List.mem_cons_of_mem b m)
    simp [skips, List.isPrefixOf, ih ha, hb, Ne.symm hb]

/-- Two copies of the pattern cannot overlap. -/
def Borderless (pat : List α) : Prop := ∀ k < pat.length, 0 < k → ¬ pat.drop k <+: pat

instance (pat : List α) : Decidable (Borderless pat) := by unfold Borderless; infer_instance

/-- Behind a text without such a pattern, it is found where it stands. -/
theorem strstr_append_of_borderless {pat a : List α} (hpat : Borderless pat) (ha : ¬ pat <:+: a)
    (s : List α) : strstr pat (a ++ (pat ++ s)) = some (a, s) := by
  induction a with
  | nil => exact strstr_append_self pat s
  | cons c a ih =>
    have hrest : ¬ pat <:+: a := fun h => ha (h.trans (List.suffix_cons c a).isInfix)
    have hno : pat.isPrefixOf (c :: (a ++ (pat ++ s))) = false := by
      rw [← Bool.not_eq_true, List.isPrefixOf_iff_prefix, ← List.cons_append]
      intro hp
      rcases List.prefix_or_prefix_of_prefix hp (List.prefix_append (c :: a) (pat ++ s)) with h | h
      · exact ha h.isInfix
      · -- the pattern would go on into the other one
        obtain ⟨y, hy⟩ := h
        have hdrop : pat.drop (c :: a).length = y := by rw [← hy, List.drop_left]
        have hy' : y <+: pat ++ s := by
          rw [← hy] at hp
          exact (List.prefix_append_right_inj (c :: a)).mp (hy ▸ hp)
        have hlen : (c :: a).length + y.length = pat.length := by rw [← List.length_append, hy]
        have hborder : y <+: pat :=
          List.prefix_of_prefix_length_le hy' (List.prefix_append pat s) (by omega)
        by_cases hnil : y = []
        · rw [hnil, List.append_nil] at hy
          exact ha (hy ▸ List.infix_rfl)
        · have hpos := List.length_pos_of_ne_nil hnil
          exact hpat (c :: a).length (by omega) (by simp) (hdrop ▸ hborder)
    rw [List.cons_append, strstr, hno, ih hrest]
    rfl

/-- The pattern lies across the joint of two texts. -/
def Joins (pat a b : List α) : Prop :=
  ∃ k < pat.length, 0 < k ∧ pat.take k <:+ a ∧ pat.drop k <+: b

instance (pat a b : List α) : Decidable (Joins pat a b) := by unfold Joins; infer_instance

omit [DecidableEq α] in
/-- A pattern in two texts joined is in one of them, or lies across the joint. -/
theorem infix_append_iff_joins {pat a b : List α} :
    pat <:+: a ++ b ↔ pat <:+: a ∨ pat <:+: b ∨ Joins pat a b := by
  rw [List.infix_append_iff]
  constructor
  · rintro (h | h | ⟨x, y, rfl, hx, hy⟩)
    · exact Or.inl h
    · exact Or.inr (Or.inl h)
    · by_cases hxn : x = []
      · subst hxn
        exact Or.inr (Or.inl hy.isInfix)
      · by_cases hyn : y = []
        · subst hyn
          rw [List.append_nil]
          exact Or.inl hx.isInfix
        · refine Or.inr (Or.inr ⟨x.length, ?_, List.length_pos_of_ne_nil hxn, ?_, ?_⟩)
          · have hpos := List.length_pos_of_ne_nil hyn
            rw [List.length_append]
            omega
          · rwa [List.take_left]
          · rwa [List.drop_left]
  · rintro (h | h | ⟨k, _, _, hx, hy⟩)
    · exact Or.inl h
    · exact Or.inr (Or.inl h)
    · exact Or.inr (Or.inr ⟨_, _, (List.take_append_drop k pat).symm, hx, hy⟩)

/-! ### The end of a text -/

omit [DecidableEq α] in
theorem rdropWhile_append_of_all {p : α → Bool} {b : List α} (hb : ∀ c ∈ b, p c = true)
    (a : List α) : (a ++ b).rdropWhile p = a.rdropWhile p := by
  induction b using List.reverseRecOn with
  | nil => rw [List.append_nil]
  | append_singleton b c ih =>
    have hc : p c = true := hb c (by simp)
    rw [← List.append_assoc, List.rdropWhile_concat_pos _ _ _ hc]
    exact ih fun d hd => hb d (by simp [hd])

omit [DecidableEq α] in
theorem rdropWhile_append_of_ne_nil {p : α → Bool} {b : List α} (hb : b.rdropWhile p ≠ [])
    (a : List α) : (a ++ b).rdropWhile p = a ++ b.rdropWhile p := by
  induction b using List.reverseRecOn with
  | nil => simp at hb
  | append_singleton b c ih =>
    by_cases hc : p c = true
    · rw [List.rdropWhile_concat_pos _ _ _ hc] at hb ⊢
      rw [← List.append_assoc, List.rdropWhile_concat_pos _ _ _ hc, ih hb]
    · rw [← List.append_assoc, List.rdropWhile_concat_neg _ _ _ hc,
        List.rdropWhile_concat_neg _ _ _ hc, List.append_assoc]

/-! ### Escaping -/

/-- Every escape character written twice. -/
def doubled (e : α) : List α → List α
  | [] => []
  | c :: s => if c = e then e :: c :: doubled e s else c :: doubled e s

theorem doubled_ne_nil {e : α} {s : List α} (h : s ≠ []) : doubled e s ≠ [] := by
  cases s with
  | nil => exact absurd rfl h
  | cons c s => unfold doubled; split <;> simp

/-- A reader that takes each escape character as introducing the next one: a plain
    character stands for itself, a doubled escape character for one. -/
structure Undoes (e : α) (u : List α → List α) : Prop where
  nil : u [] = []
  plain : ∀ c s, c ≠ e → u (c :: s) = c :: u s
  pair : ∀ s, u (e :: e :: s) = e :: u s

/-- What was doubled is read back. -/
theorem Undoes.doubled {e : α} {u : List α → List α} (h : Undoes e u) (s : List α) :
    u (CText.doubled e s) = s := by
  induction s with
  | nil => exact h.nil
  | cons c s ih =>
    by_cases hc : c = e
    · subst hc; rw [CText.doubled, if_pos rfl, h.pair, ih]
    · rw [CText.doubled, if_neg hc, h.plain c _ hc, ih]

omit [DecidableEq α] in
/-- A piece without the escape character is passed over as it stands. -/
theorem Undoes.append_of_not_mem {e : α} {u : List α → List α} (h : Undoes e u) {a : List α}
    (ha : e ∉ a) (s : List α) : u (a ++ s) = a ++ u s := by
  induction a with
  | nil => rfl
  | cons c a ih =>
    have hc : c ≠ e := fun he => ha (he ▸ List.mem_cons_self)
    rw [List.cons_append, h.plain c _ hc, ih fun m => ha (List.mem_cons_of_mem c m)]
    rfl

omit [DecidableEq α] in
/-- A text without the escape character is read as it stands. -/
theorem Undoes.of_not_mem {e : α} {u : List α → List α} (h : Undoes e u) {s : List α}
    (hs : e ∉ s) : u s = s := by
  have happ := h.append_of_not_mem hs []
  rwa [List.append_nil, h.nil, List.append_nil] at happ

end CText
