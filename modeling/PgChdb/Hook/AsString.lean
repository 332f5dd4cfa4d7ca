import PgChdb.Hook.Types

namespace PgChdb

open CText

/-!
# The scan for a type

`structure_as_string` finds the type it replaces by its text: the character before, the
character after, and whether a quoted name is being read.  What it leaves of a clause is compared
here with the text of the replaced tokens.

* `Taken`, `scan` — where the scan takes what it reads for the bare type, and the scan with what
  it has read behind it;
* `scan_append_iff` — a text is copied exactly when nothing in it is taken;
* `Replaceable` — every occurrence of the type stands behind an even number of quotes, and in no
  name the scan takes something for it;
* `scan_pieces_iff` — the types of a clause are replaced exactly then.
-/

/-! ### Where the scan finds the type -/

/-- Whether the text ends within quotes, as the scan counts them. -/
def oddQuotes (s : Bytes) : Bool := decide (s.count quote % 2 = 1)

/-- The text ends with what the scan wants before a type. -/
def OpenAt (s : Bytes) : Prop :=
  s.getLast? = some (byte ' ') ∨ s.getLast? = some (byte '(')

instance (s : Bytes) : Decidable (OpenAt s) := by unfold OpenAt; infer_instance

/-- Between the two texts the scan takes what it reads for the bare type. -/
def Taken (T : ReplacedType) (before after : Bytes) : Prop :=
  oddQuotes before = false ∧ OpenAt before ∧ bareTypeLength T.word.val after ≠ none

instance (T : ReplacedType) (before after : Bytes) : Decidable (Taken T before after) := by
  unfold Taken; infer_instance

/-- Nowhere in the text between the two it does. -/
def Untaken (T : ReplacedType) : Bytes → Bytes → Bytes → Prop
  | _, [], _ => True
  | before, c :: t, after =>
    ¬ Taken T before (c :: t ++ after) ∧ Untaken T (before ++ [c]) t after

instance Untaken.decide (T : ReplacedType) :
    ∀ before t after, Decidable (Untaken T before t after)
  | _, [], _ => .isTrue trivial
  | before, c :: t, after =>
    have := Untaken.decide T (before ++ [c]) t after
    inferInstanceAs (Decidable (_ ∧ _))

/-- What a token between two texts needs: the type that is replaced an even number of quotes
    behind it, and a name that the scan takes nothing in it. -/
def Piece.Fits (T : ReplacedType) (quoteIdent : Bytes → Bytes) (before after : Bytes) :
    Piece → Prop
  | .base w _ => w = T.word → oddQuotes before = false
  | .name n => Untaken T before (quoteIdent n) after
  | _ => True

instance Piece.Fits.decide (T : ReplacedType) (quoteIdent : Bytes → Bytes)
    (before after : Bytes) : ∀ p : Piece, Decidable (p.Fits T quoteIdent before after)
  | .base w _ => inferInstanceAs (Decidable (w = T.word → oddQuotes before = false))
  | .name n => inferInstanceAs (Decidable (Untaken T before (quoteIdent n) after))
  | .wrap _ | .close | .comma | .space => .isTrue trivial

/-- **The replaceable clauses**: every occurrence of `T` stands behind an even number of quotes,
    and in no name the scan takes something for it. -/
def Replaceable (T : ReplacedType) (quoteIdent : Bytes → Bytes) : Bytes → List Piece → Prop
  | _, [] => True
  | before, p :: ps =>
    p.Fits T quoteIdent before (textOf quoteIdent ps) ∧
      Replaceable T quoteIdent (before ++ p.text quoteIdent) ps

instance Replaceable.decide (T : ReplacedType) (quoteIdent : Bytes → Bytes) :
    ∀ before ps, Decidable (Replaceable T quoteIdent before ps)
  | _, [] => .isTrue trivial
  | before, p :: ps =>
    have := Replaceable.decide T quoteIdent (before ++ p.text quoteIdent) ps
    inferInstanceAs (Decidable (_ ∧ _))

/-- The scan of `structure_as_string` with `before` behind it. -/
def scan (T : ReplacedType) (before s : Bytes) : Bytes :=
  asStringFrom T.word.val 0 (oddQuotes before) before.getLast? s

theorem structureAsString_eq (T : ReplacedType) (clause : Bytes) :
    structureAsString clause T.word.val = scan T [] clause := rfl

section
variable {T : ReplacedType}

theorem oddQuotes_append {t : Bytes} (h : quote ∉ t) (s : Bytes) :
    oddQuotes (s ++ t) = oddQuotes s := by
  unfold oddQuotes
  rw [List.count_append, List.count_eq_zero.mpr h, Nat.add_zero]

theorem oddQuotes_concat (s : Bytes) (c : UInt8) :
    oddQuotes (s ++ [c]) = if c = quote then !oddQuotes s else oddQuotes s := by
  by_cases hc : c = quote
  · subst hc
    unfold oddQuotes
    rw [List.count_append, List.count_singleton_self, if_pos rfl]
    grind
  · rw [if_neg hc]
    exact oddQuotes_append (by simpa using Ne.symm hc) s

theorem prefix_of_bareTypeLength {type s : Bytes} {len : ℕ}
    (h : bareTypeLength type s = some len) : type <+: s := by
  unfold bareTypeLength at h
  split at h
  · rename_i hp
    exact List.isPrefixOf_iff_prefix.mp hp
  · cases h

/-- Both types begin with a letter of their own. -/
private theorem word_head {c : UInt8} {s : Bytes} (h : T.word.val <+: c :: s) :
    c = byte 'U' ∨ c = byte 'T' := by
  cases T with
  | uuid =>
    have huuid : ReplacedType.uuid.word.val = byte 'U' :: lit "UID" := rfl
    rw [huuid, List.cons_prefix_cons] at h
    exact Or.inl h.1.symm
  | time64 =>
    have htime : ReplacedType.time64.word.val = byte 'T' :: lit "ime64" := rfl
    rw [htime, List.cons_prefix_cons] at h
    exact Or.inr h.1.symm

theorem Taken.head {before s : Bytes} {c : UInt8} (h : Taken T before (c :: s)) :
    c = byte 'U' ∨ c = byte 'T' := by
  obtain ⟨len, hlen⟩ := Option.ne_none_iff_exists'.mp h.2.2
  exact word_head (prefix_of_bareTypeLength hlen)

/-- What the scan does not take it copies. -/
theorem scan_cons {before s : Bytes} {c : UInt8} (h : ¬ Taken T before (c :: s)) :
    scan T before (c :: s) = c :: scan T (before ++ [c]) s := by
  unfold scan
  rw [oddQuotes_concat, List.getLast?_concat, asStringFrom]
  cases hlen : bareTypeLength T.word.val (c :: s) with
  | none => simp
  | some len =>
    -- the type begins with no quote, so the flag was the same before it
    have hc : c ≠ quote := by
      rcases word_head (prefix_of_bareTypeLength hlen) with rfl | rfl <;> decide
    have hclosed : ¬ (oddQuotes before = false ∧ OpenAt before) :=
      fun hopen => h ⟨hopen.1, hopen.2, by simp [hlen]⟩
    unfold OpenAt at hclosed
    rw [if_neg hc, if_neg (by simpa using hclosed)]

private theorem asStringFrom_skip (type : Bytes) (quoted : Bool) (c : UInt8) (t s : Bytes) :
    asStringFrom type t.length quoted (some c) (t ++ s)
      = asStringFrom type 0 quoted (c :: t).getLast? s := by
  induction t generalizing c with
  | nil => rfl
  | cons d t ih =>
    rw [List.length_cons, List.cons_append, asStringFrom, ih, List.getLast?_cons_cons]

/-- What it takes it replaces, and goes on behind it. -/
theorem scan_taken {before t s : Bytes} (h : Taken T before (t ++ s)) (hq : quote ∉ t)
    (hlen : bareTypeLength T.word.val (t ++ s) = some t.length) (hne : t ≠ []) :
    scan T before (t ++ s) = lit "String" ++ scan T (before ++ t) s := by
  obtain ⟨c, t, rfl⟩ := List.exists_cons_of_ne_nil hne
  have hc : c ≠ quote := fun e => hq (e ▸ List.mem_cons_self)
  have hopen : before.getLast? = some (byte ' ') ∨ before.getLast? = some (byte '(') := h.2.1
  unfold scan
  rw [oddQuotes_append hq, List.getLast?_append_of_ne_nil _ hne]
  rw [List.cons_append] at hlen ⊢
  rw [asStringFrom]
  simp only [if_neg hc, h.1, Bool.not_false, Bool.true_and, Bool.or_eq_true, decide_eq_true_eq,
    hopen, if_true, hlen, List.length_cons, Nat.add_sub_cancel]
  rw [asStringFrom_skip]

/-- What it takes it does not copy. -/
theorem scan_ne_of_taken {before s : Bytes} {c : UInt8} (h : Taken T before (c :: s))
    (X : Bytes) : scan T before (c :: s) ≠ c :: X := by
  have hopen : before.getLast? = some (byte ' ') ∨ before.getLast? = some (byte '(') := h.2.1
  have hc : c ≠ quote := by rcases h.head with rfl | rfl <;> decide
  have hS : c ≠ byte 'S' := by rcases h.head with rfl | rfl <;> decide
  obtain ⟨len, hlen⟩ := Option.ne_none_iff_exists'.mp h.2.2
  unfold scan
  rw [asStringFrom]
  simp only [if_neg hc, h.1, Bool.not_false, Bool.true_and, Bool.or_eq_true, decide_eq_true_eq,
    hopen, if_true, hlen]
  intro heq
  exact hS (List.cons.inj heq).1.symm

/-- **A text is copied exactly when nothing in it is taken.** -/
theorem scan_append_iff (before t s X : Bytes) :
    scan T before (t ++ s) = t ++ X ↔ Untaken T before t s ∧ scan T (before ++ t) s = X := by
  induction t generalizing before with
  | nil => simp [Untaken]
  | cons c t ih =>
    by_cases htaken : Taken T before (c :: t ++ s)
    · have hne := scan_ne_of_taken htaken (t ++ X)
      simp only [Untaken, not_true_eq_false, htaken, false_and, iff_false]
      exact hne
    · rw [List.cons_append] at htaken ⊢
      rw [scan_cons htaken, List.cons_append, List.cons.injEq, ih]
      simp [Untaken, htaken]

/-! ### What the scan does not take -/

theorem untaken_append (before t u s : Bytes) :
    Untaken T before (t ++ u) s
      ↔ Untaken T before t (u ++ s) ∧ Untaken T (before ++ t) u s := by
  induction t generalizing before with
  | nil => simp [Untaken]
  | cons c t ih => simp [Untaken, ih, and_assoc]

/-- Nothing without the first letter of a type is taken. -/
theorem Untaken.of_head {t : Bytes} (hU : byte 'U' ∉ t) (hT : byte 'T' ∉ t) (before s : Bytes) :
    Untaken T before t s := by
  induction t generalizing before with
  | nil => trivial
  | cons c t ih =>
    simp only [List.mem_cons, not_or] at hU hT
    refine ⟨fun htaken => ?_, ih hU.2 hT.2 _⟩
    exact htaken.head.elim (Ne.symm hU.1) (Ne.symm hT.1)

theorem openAt_concat (s : Bytes) (c : UInt8) :
    OpenAt (s ++ [c]) ↔ c = byte ' ' ∨ c = byte '(' := by
  simp [OpenAt]

private theorem Untaken.of_closed {before t : Bytes} (hb : ¬ OpenAt before)
    (h : ∀ c ∈ t, c ≠ byte ' ' ∧ c ≠ byte '(') (s : Bytes) : Untaken T before t s := by
  induction t generalizing before with
  | nil => trivial
  | cons c t ih =>
    obtain ⟨hsp, hpar⟩ := h c List.mem_cons_self
    have hnext : ¬ OpenAt (before ++ [c]) := by simp [openAt_concat, hsp, hpar]
    exact ⟨fun htaken => hb htaken.2.1, ih hnext fun d hd => h d (List.mem_cons_of_mem c hd)⟩

/-- Of one word only the whole may be taken. -/
theorem Untaken.word {before t s : Bytes} (h : ¬ Taken T before (t ++ s))
    (ht : ∀ c ∈ t, c ≠ byte ' ' ∧ c ≠ byte '(') : Untaken T before t s := by
  cases t with
  | nil => trivial
  | cons c t =>
    obtain ⟨hsp, hpar⟩ := ht c List.mem_cons_self
    have hnext : ¬ OpenAt (before ++ [c]) := by simp [openAt_concat, hsp, hpar]
    exact ⟨h, .of_closed hnext (fun d hd => ht d (List.mem_cons_of_mem c hd)) s⟩

/-- In a parameter nothing is taken. -/
theorem Untaken.literal (l : Literal) (before s : Bytes) : Untaken T before l.val s := by
  refine .word (fun htaken => ?_) fun c hc => ?_
  · obtain ⟨l, hl⟩ := l
    cases l with
    | nil => cases hl
    | cons c l =>
      simp only [isLiteral, List.head?_cons, Option.any_some, Bool.and_eq_true] at hl
      -- no literal begins with the letter of a type
      rcases htaken.head with rfl | rfl
      · exact absurd hl.1 (by decide)
      · exact absurd hl.1 (by decide)
  · have hmem := isLiteral_mem l.property hc
    exact ⟨hmem.1, hmem.2.1⟩

theorem Untaken.params (params : List Literal) (before s : Bytes) :
    Untaken T before (paramsText params) s := by
  have hopen : ∀ before s, Untaken T before [byte '('] s := .of_head (by decide) (by decide)
  have hclose : ∀ before s, Untaken T before [byte ')'] s := .of_head (by decide) (by decide)
  have hsep : ∀ before s, Untaken T before (lit ", ") s := .of_head (by decide) (by decide)
  have hrest : ∀ (ls : List Literal) (before s : Bytes),
      Untaken T before (ls.flatMap fun l => lit ", " ++ l.val) s := by
    intro ls
    induction ls with
    | nil => intro before s; trivial
    | cons l ls ih =>
      intro before s
      rw [List.flatMap_cons, untaken_append, untaken_append]
      exact ⟨⟨hsep _ _, .literal l _ _⟩, ih _ _⟩
  cases params with
  | nil => trivial
  | cons l ls =>
    show Untaken T before ([byte '('] ++ (l.val ++ (ls.flatMap fun l => lit ", " ++ l.val)
      ++ [byte ')'])) s
    rw [untaken_append, untaken_append, untaken_append]
    exact ⟨hopen _ _, ⟨.literal l _ _, hrest ls _ _⟩, hclose _ _⟩

/-! ### The text of a type -/

/-- What may stand behind a type: nothing, a comma or a closing parenthesis. -/
def endsType (s : Bytes) : Bool := s.head?.all fun c => c == byte ',' || c == byte ')'

private theorem match_head? (s : Bytes) (n : ℕ) :
    (match s.head? with
      | none => some n
      | some c => if c = byte ',' ∨ c = byte ')' then some n else none)
      = if endsType s then some n else none := by
  cases s with
  | nil => rfl
  | cons c s => simp [endsType]

private theorem isPrefixOf_append (type r : Bytes) : type.isPrefixOf (type ++ r) = true :=
  List.isPrefixOf_iff_prefix.mpr (List.prefix_append _ _)

/-- A type without parameters. -/
theorem bareTypeLength_plain (type : Bytes) {r : Bytes} (h : r.head? ≠ some (byte '(')) :
    bareTypeLength type (type ++ r) = if endsType r then some type.length else none := by
  unfold bareTypeLength
  rw [if_pos (isPrefixOf_append type r), List.drop_left]
  simp only [if_neg h, List.drop_zero, Nat.add_zero]
  exact match_head? r type.length

/-- One with parameters. -/
theorem bareTypeLength_params (type : Bytes) {body : Bytes} (h : byte ')' ∉ body) (s : Bytes) :
    bareTypeLength type (type ++ byte '(' :: (body ++ byte ')' :: s))
      = if endsType s then some (type.length + (body.length + 2)) else none := by
  have hpar : byte ')' ∉ byte '(' :: body := by
    simp only [List.mem_cons, not_or]
    exact ⟨by decide, h⟩
  have hcut := cut_append hpar s
  rw [List.cons_append] at hcut
  have hdrop : (byte '(' :: (body ++ byte ')' :: s)).drop (body.length + 2) = s := by simp
  unfold bareTypeLength
  rw [if_pos (isPrefixOf_append type _), List.drop_left]
  simp only [List.head?_cons, if_true, hcut, List.length_cons, hdrop]
  exact match_head? s (type.length + (body.length + 2))

/-- One whose parameters do not end. -/
theorem bareTypeLength_unclosed (type : Bytes) {body : Bytes} (h : byte ')' ∉ body) :
    bareTypeLength type (type ++ byte '(' :: body) = none := by
  have hpar : byte ')' ∉ byte '(' :: body := by
    simp only [List.mem_cons, not_or]
    exact ⟨by decide, h⟩
  unfold bareTypeLength
  rw [if_pos (isPrefixOf_append type _), List.drop_left]
  simp only [List.head?_cons, if_true, cut_of_not_mem hpar, List.drop_zero, Nat.add_zero]
  exact match_head? (byte '(' :: body) type.length

/-- What begins with the type does so before a byte that is not in it. -/
theorem prefix_of_append {type b s : Bytes} (h : type <+: b ++ s)
    (hs : ∀ c ∈ s.head?, c ∉ type) : type <+: b := by
  obtain ⟨r, hr⟩ := h
  rcases List.append_eq_append_iff.mp hr with ⟨a, hb, _⟩ | ⟨a, htype, hsa⟩
  · exact ⟨a, hb.symm⟩
  · cases a with
    | nil => exact ⟨[], by simpa using htype⟩
    | cons c a => exact absurd (by simp [htype]) (hs c (by simp [hsa]))

/-- A word that is taken is the type, and no space follows it. -/
theorem bareTypeLength_word {w : Word} {s : Bytes} (hs : ∀ c ∈ s.head?, isWordByte c = false)
    (h : bareTypeLength T.word.val (w.val ++ s) ≠ none) :
    w = T.word ∧ s.head? ≠ some (byte ' ') := by
  obtain ⟨len, hlen⟩ := Option.ne_none_iff_exists'.mp h
  -- the type is no longer than the word, which ends before a byte of no word
  obtain ⟨a, hw⟩ : T.word.val <+: w.val :=
    prefix_of_append (prefix_of_bareTypeLength hlen) fun c hc =>
      not_mem_of_isBareword T.word.property (hs c hc)
  cases a with
  | nil =>
    rw [List.append_nil] at hw
    refine ⟨Subtype.ext hw.symm, fun hsp => h ?_⟩
    have hpar : s.head? ≠ some (byte '(') := by rw [hsp]; decide
    rw [← hw, bareTypeLength_plain _ hpar, endsType, hsp]
    rfl
  | cons c a =>
    exfalso
    apply h
    have hc : ∀ d, isWordByte d = false → c ≠ d := by
      rintro d hd rfl
      exact not_mem_of_isBareword w.property hd (by simp [← hw])
    have hpar : (c :: (a ++ s)).head? ≠ some (byte '(') := by
      simpa using hc (byte '(') (by decide)
    rw [← hw, List.append_assoc, List.cons_append, bareTypeLength_plain _ hpar, endsType]
    simp [hc (byte ',') (by decide), hc (byte ')') (by decide)]

/-- The bare type is as long as it is written, before what may stand behind it. -/
theorem bareTypeLength_base (type : Bytes) (params : List Literal) {s : Bytes}
    (hs : endsType s = true) :
    bareTypeLength type (type ++ paramsText params ++ s)
      = some (type ++ paramsText params).length := by
  rcases paramsText_eq params with hparams | ⟨body, hparams, hbody, _⟩
  · have hpar : s.head? ≠ some (byte '(') := by
      intro hhead
      rw [endsType, hhead] at hs
      cases hs
    rw [hparams, List.append_nil, bareTypeLength_plain _ hpar, if_pos hs]
  · have htext : type ++ paramsText params ++ s = type ++ byte '(' :: (body ++ byte ')' :: s) := by
      simp [hparams]
    rw [htext, bareTypeLength_params _ hbody, if_pos hs, hparams]
    simp

/-! ### What becomes of the tokens -/

variable {quoteIdent : Bytes → Bytes}

theorem Ends.text {ps : List Piece} (h : Ends ps) : endsType (textOf quoteIdent ps) = true := by
  cases ps with
  | nil => rfl
  | cons p ps => rcases h p rfl with rfl | rfl <;> rfl

/-- A token that is not replaced is copied exactly when nothing in it is taken. -/
private theorem scan_copied {p : Piece} (hp : p.replace T = p) (before : Bytes)
    (ps : List Piece) :
    scan T before (textOf quoteIdent (p :: ps))
        = textOf quoteIdent ((p :: ps).map (Piece.replace T)) ↔
      Untaken T before (p.text quoteIdent) (textOf quoteIdent ps) ∧
        scan T (before ++ p.text quoteIdent) (textOf quoteIdent ps)
          = textOf quoteIdent (ps.map (Piece.replace T)) := by
  rw [textOf_cons, List.map_cons, textOf_cons, hp, scan_append_iff]

/-- In a word that is not the type nothing is taken. -/
theorem Untaken.other {w : Word} (hw : w ≠ T.word) {s : Bytes}
    (hs : ∀ c ∈ s.head?, isWordByte c = false) (before : Bytes) : Untaken T before w.val s :=
  .word (fun htaken => hw (bareTypeLength_word hs htaken.2.2).1) fun _ hc => word_mem hc

private theorem head?_params_append (params : List Literal) {s : Bytes}
    (hs : endsType s = true) : ∀ c ∈ (paramsText params ++ s).head?, isWordByte c = false := by
  intro c hc
  rcases paramsText_eq params with hparams | ⟨body, hparams, _⟩
  · rw [hparams, List.nil_append] at hc
    rw [endsType, Option.mem_def.mp hc] at hs
    simp only [Option.all_some, Bool.or_eq_true, beq_iff_eq] at hs
    rcases hs with rfl | rfl <;> decide
  · rw [hparams] at hc
    cases hc
    decide

/-- Outside the quotes the type is replaced, with its parameters. -/
private theorem scan_base (params : List Literal) {before s : Bytes} (hopen : OpenAt before)
    (hodd : oddQuotes before = false) (hs : endsType s = true) :
    scan T before (T.word.val ++ paramsText params ++ s)
      = lit "String" ++ scan T (before ++ (T.word.val ++ paramsText params)) s := by
  have hlen := bareTypeLength_base T.word.val params hs
  have htaken : Taken T before (T.word.val ++ paramsText params ++ s) :=
    ⟨hodd, hopen, by rw [hlen]; simp⟩
  have hne : T.word.val ++ paramsText params ≠ [] := by
    cases T <;> simp [ReplacedType.word, lit]
  exact scan_taken htaken (quote_not_mem_base T.word params) hlen hne

/-- Within the quotes it is not. -/
private theorem scan_base_ne {before : Bytes} (hodd : oddQuotes before ≠ false) (t X : Bytes) :
    scan T before (T.word.val ++ t) ≠ lit "String" ++ X := by
  have hno : ∀ s, ¬ Taken T before s := fun s htaken => hodd htaken.1
  have hS : lit "String" ++ X = byte 'S' :: (lit "tring" ++ X) := rfl
  cases T with
  | uuid =>
    show scan .uuid before (byte 'U' :: (lit "UID" ++ t)) ≠ lit "String" ++ X
    rw [scan_cons (hno _), hS]
    exact fun heq => absurd (List.cons.inj heq).1 (by decide)
  | time64 =>
    show scan .time64 before (byte 'T' :: (lit "ime64" ++ t)) ≠ lit "String" ++ X
    rw [scan_cons (hno _), hS]
    exact fun heq => absurd (List.cons.inj heq).1 (by decide)

/-- **The scan leaves the text of the replaced tokens exactly when they are replaceable.** -/
theorem scan_pieces_iff {o : Bool} {ps : List Piece} (h : Joined o ps) {before : Bytes}
    (ho : o = true → OpenAt before) :
    scan T before (textOf quoteIdent ps) = textOf quoteIdent (ps.map (Piece.replace T))
      ↔ Replaceable T quoteIdent before ps := by
  induction h generalizing before with
  | nil => simp [Replaceable, scan, asStringFrom]
  | @wrap o w ps hps ih =>
    have hopen : OpenAt (before ++ (w.val.val ++ [byte '('])) := by simp [OpenAt]
    have huntaken : Untaken T before (w.val.val ++ [byte '(']) (textOf quoteIdent ps) := by
      rw [untaken_append]
      refine ⟨.other (w.property T) ?_ _, .of_head (by decide) (by decide) _ _⟩
      intro c hc
      cases hc
      decide
    rw [scan_copied rfl, Replaceable]
    simp only [Piece.text, Piece.Fits, huntaken, true_and]
    exact ih fun _ => hopen
  | @close o ps hends hps ih =>
    have huntaken : Untaken T before [byte ')'] (textOf quoteIdent ps) :=
      .of_head (by decide) (by decide) _ _
    rw [scan_copied rfl, Replaceable]
    simp only [Piece.text, Piece.Fits, huntaken, true_and]
    exact ih (by simp)
  | @comma o ps hps ih =>
    have hopen : OpenAt (before ++ lit ", ") := Or.inl (by simp [lit])
    have huntaken : Untaken T before (lit ", ") (textOf quoteIdent ps) :=
      .of_head (by decide) (by decide) _ _
    rw [scan_copied rfl, Replaceable]
    simp only [Piece.text, Piece.Fits, huntaken, true_and]
    exact ih fun _ => hopen
  | @name o n ps hps ih =>
    have hopen : OpenAt (before ++ quoteIdent n ++ [byte ' ']) := by simp [OpenAt]
    have huntaken : Untaken T (before ++ quoteIdent n) [byte ' '] (textOf quoteIdent ps) :=
      .of_head (by decide) (by decide) _ _
    rw [scan_copied rfl, scan_copied rfl, Replaceable, Replaceable]
    simp only [Piece.text, Piece.Fits, huntaken, true_and]
    exact and_congr_right fun _ => ih fun _ => hopen
  | @base w params ps hends hps ih =>
    have hends : endsType (textOf quoteIdent ps) = true := hends.text
    have hstep : scan T (before ++ (w.val ++ paramsText params)) (textOf quoteIdent ps)
        = textOf quoteIdent (ps.map (Piece.replace T))
          ↔ Replaceable T quoteIdent (before ++ (w.val ++ paramsText params)) ps := ih (by simp)
    rw [textOf_cons, List.map_cons, textOf_cons, Replaceable]
    simp only [Piece.text, Piece.Fits, Piece.replace]
    by_cases hw : w = T.word
    · subst hw
      have hstring : paramsText [] = [] := rfl
      simp only [if_true, true_implies, hstring, List.append_nil, stringWord]
      by_cases hodd : oddQuotes before = false
      · rw [scan_base params (ho rfl) hodd hends, List.append_cancel_left_eq, hstep]
        simp only [hodd, true_and]
      · rw [List.append_assoc]
        exact iff_of_false (scan_base_ne hodd _ _) fun hfits => hodd hfits.1
    · rw [if_neg hw]
      have huntaken : Untaken T before (w.val ++ paramsText params) (textOf quoteIdent ps) := by
        rw [untaken_append]
        exact ⟨.other hw (head?_params_append params hends) _, .params params _ _⟩
      simp only [hw, false_implies, true_and]
      rw [scan_append_iff, hstep]
      simp only [huntaken, true_and]

end

end PgChdb
