import PgChdb.Hook.Structure

namespace PgChdb

open CText

/-!
# The types of the structure clause

The types of a structure clause as trees, and the clause as the tokens it is written in.

* `ChType`, `ChType.replace` — the type trees, and what replacing a type means for them;
* `Piece`, `columnPieces` — the tokens of a clause, and `Joined`, how they follow one another;
* `clauseText_eq`, `columnPieces_replace` — a clause of such types is the text of its tokens, and
  those of the replaced types are the replaced tokens.
-/

/-! ### Type trees -/

/-- The bare words, of which the names of types are. -/
abbrev Word := { w : Bytes // isBareword w = true }

/-- What a parameter of a type may be: a number or a text between single quotes, of one
    word. -/
def isLiteral (l : Bytes) : Bool :=
  (l.head?.any fun c => c == byte '\'' || c == byte '-' || isDigit c) &&
    l.all fun d => d != byte ' ' && d != byte '(' && d != byte ')' && d != quote

/-- The literals. -/
abbrev Literal := { l : Bytes // isLiteral l = true }

/-- The types a clause has `String` in the place of. -/
inductive ReplacedType
  | uuid
  | time64
deriving DecidableEq

/-- Their names. -/
def ReplacedType.word : ReplacedType → Word
  | .uuid => ⟨lit "UUID", by decide⟩
  | .time64 => ⟨lit "Time64", by decide⟩

/-- The names of the types made of types. -/
abbrev Wrapper := { w : Word // ∀ T : ReplacedType, w ≠ T.word }

/-- A type is a name with literals or one with types, which have names of their own in a
    `Tuple`. -/
inductive ChType
  | base (name : Word) (params : List Literal)
  | app (name : Wrapper) (args : List (Option Bytes × ChType))

/-- `String`. -/
def stringWord : Word := ⟨lit "String", by decide⟩

mutual

/-- The type with `String` for every occurrence of `T`. -/
def ChType.replace (T : ReplacedType) : ChType → ChType
  | .base w params => if w = T.word then .base stringWord [] else .base w params
  | .app w args => .app w (replaceArgs T args)

/-- The types of a list, with `String` for every occurrence of `T`. -/
def replaceArgs (T : ReplacedType) : List (Option Bytes × ChType) → List (Option Bytes × ChType)
  | [] => []
  | (n, t) :: args => (n, t.replace T) :: replaceArgs T args

end

/-! ### What a clause is written in -/

/-- A token of a clause. -/
inductive Piece
  | wrap (name : Wrapper)
  | close
  | comma
  | space
  | name (n : Bytes)
  | base (name : Word) (params : List Literal)

mutual

/-- The tokens of a type. -/
def ChType.pieces : ChType → List Piece
  | .base w params => [.base w params]
  | .app w args => .wrap w :: (argPieces args ++ [.close])

/-- Those of a list of types. -/
def argPieces : List (Option Bytes × ChType) → List Piece
  | [] => []
  | (n, t) :: args =>
    ((n.elim [] fun n => [.name n, .space]) ++ t.pieces) ++
      (if args.isEmpty then [] else .comma :: argPieces args)

end

/-- Those of a clause. -/
def columnPieces (columns : List (Bytes × ChType)) : List Piece :=
  argPieces (columns.map fun c => (some c.1, c.2))

/-- The token with `String` for `T`. -/
def Piece.replace (T : ReplacedType) : Piece → Piece
  | .base w params => if w = T.word then .base stringWord [] else .base w params
  | p => p

/-- The parameters as they are written. -/
def paramsText : List Literal → Bytes
  | [] => []
  | l :: ls => byte '(' :: (l.val ++ (ls.flatMap fun l => lit ", " ++ l.val) ++ [byte ')'])

/-- A token as it is written, by what writes the names. -/
def Piece.text (quoteIdent : Bytes → Bytes) : Piece → Bytes
  | .wrap w => w.val.val ++ [byte '(']
  | .close => [byte ')']
  | .comma => lit ", "
  | .space => [byte ' ']
  | .name n => quoteIdent n
  | .base w params => w.val ++ paramsText params

/-- The text of tokens. -/
def textOf (quoteIdent : Bytes → Bytes) (ps : List Piece) : Bytes :=
  ps.flatMap (Piece.text quoteIdent)

/-- The text of a type. -/
def ChType.text (quoteIdent : Bytes → Bytes) (t : ChType) : Bytes := textOf quoteIdent t.pieces

/-- What is written goes on, if at all, as it does behind a type. -/
def Ends (ps : List Piece) : Prop := ∀ p ∈ ps.head?, p = .comma ∨ p = .close

/-- How the tokens of a clause follow one another, the argument telling whether a type may come
    first. -/
inductive Joined : Bool → List Piece → Prop
  | nil {o} : Joined o []
  | wrap {o w ps} : Joined true ps → Joined o (.wrap w :: ps)
  | close {o ps} : Ends ps → Joined false ps → Joined o (.close :: ps)
  | comma {o ps} : Joined true ps → Joined o (.comma :: ps)
  | name {o n ps} : Joined true ps → Joined o (.name n :: .space :: ps)
  | base {w params ps} : Ends ps → Joined false ps → Joined true (.base w params :: ps)

section
variable {T : ReplacedType} {quoteIdent : Bytes → Bytes}

/-! ### What is written -/

theorem isLiteral_mem {l : Bytes} (h : isLiteral l = true) {c : UInt8} (hc : c ∈ l) :
    c ≠ byte ' ' ∧ c ≠ byte '(' ∧ c ≠ byte ')' ∧ c ≠ quote := by
  simp only [isLiteral, Bool.and_eq_true, List.all_eq_true] at h
  simpa [and_assoc] using h.2 c hc

theorem word_mem {w : Word} {c : UInt8} (hc : c ∈ w.val) :
    c ≠ byte ' ' ∧ c ≠ byte '(' := by
  constructor
  · rintro rfl
    exact not_mem_of_isBareword w.property (by decide) hc
  · rintro rfl
    exact not_mem_of_isBareword w.property (by decide) hc

theorem not_mem_wrap {c : UInt8} (hc : isWordByte c = false) (hpar : c ≠ byte '(')
    (w : Wrapper) : c ∉ (Piece.wrap w).text quoteIdent := by
  simp only [Piece.text, List.mem_append, List.mem_singleton, not_or]
  exact ⟨not_mem_of_isBareword w.val.property hc, hpar⟩

/-- The parameters, if there are any, run to the first closing parenthesis. -/
theorem paramsText_eq (params : List Literal) : paramsText params = [] ∨
    ∃ body, paramsText params = byte '(' :: (body ++ [byte ')']) ∧ byte ')' ∉ body ∧
      quote ∉ body := by
  cases params with
  | nil => exact Or.inl rfl
  | cons l ls =>
    refine Or.inr ⟨_, rfl, ?_, ?_⟩
    · simp only [List.mem_append, List.mem_flatMap, not_or, not_exists, not_and]
      have hsep : byte ')' ∉ lit ", " := by decide
      exact ⟨fun hmem => (isLiteral_mem l.property hmem).2.2.1 rfl, fun k _ =>
        ⟨hsep, fun hmem => (isLiteral_mem k.property hmem).2.2.1 rfl⟩⟩
    · simp only [List.mem_append, List.mem_flatMap, not_or, not_exists, not_and]
      have hsep : quote ∉ lit ", " := by decide
      exact ⟨fun hmem => (isLiteral_mem l.property hmem).2.2.2 rfl, fun k _ =>
        ⟨hsep, fun hmem => (isLiteral_mem k.property hmem).2.2.2 rfl⟩⟩

theorem quote_not_mem_base (w : Word) (params : List Literal) :
    quote ∉ w.val ++ paramsText params := by
  rw [List.mem_append, not_or]
  refine ⟨not_mem_of_isBareword w.property (by decide), ?_⟩
  rcases paramsText_eq params with hparams | ⟨body, hparams, _, hbody⟩
  · simp [hparams]
  · rw [hparams]
    simp only [List.mem_cons, List.mem_append, List.not_mem_nil, or_false, not_or]
    exact ⟨by decide, hbody, by decide⟩

@[simp] theorem textOf_nil : textOf quoteIdent [] = [] := rfl

@[simp] theorem textOf_cons (p : Piece) (ps : List Piece) :
    textOf quoteIdent (p :: ps) = p.text quoteIdent ++ textOf quoteIdent ps := rfl

@[simp] theorem textOf_append (ps qs : List Piece) :
    textOf quoteIdent (ps ++ qs) = textOf quoteIdent ps ++ textOf quoteIdent qs := by
  simp [textOf]

/-! ### The tokens of a type -/

mutual

theorem ChType.pieces_replace (t : ChType) :
    (t.replace T).pieces = t.pieces.map (Piece.replace T) := by
  cases t with
  | base w params =>
    by_cases hw : w = T.word
    · simp [ChType.replace, ChType.pieces, Piece.replace, hw]
    · simp [ChType.replace, ChType.pieces, Piece.replace, hw]
  | app w args =>
    simp [ChType.replace, ChType.pieces, Piece.replace, argPieces_replace args]

theorem argPieces_replace (args : List (Option Bytes × ChType)) :
    argPieces (replaceArgs T args) = (argPieces args).map (Piece.replace T) := by
  cases args with
  | nil => rfl
  | cons a args =>
    obtain ⟨n, t⟩ := a
    have hname : (n.elim [] fun n => [Piece.name n, .space]).map (Piece.replace T)
        = n.elim [] fun n => [.name n, .space] := by
      cases n <;> rfl
    have hrest : (if (replaceArgs T args).isEmpty then []
          else Piece.comma :: argPieces (replaceArgs T args))
        = (if args.isEmpty then [] else .comma :: argPieces args).map (Piece.replace T) := by
      rw [argPieces_replace args]
      cases args <;> simp [replaceArgs, Piece.replace]
    rw [replaceArgs, argPieces, argPieces, hrest, List.map_append, List.map_append, hname,
      t.pieces_replace]

end

mutual

/-- The tokens of a type follow one another as they should, with what may stand behind it. -/
theorem ChType.joined (t : ChType) {ps : List Piece} (hends : Ends ps) (hps : Joined false ps) :
    Joined true (t.pieces ++ ps) := by
  cases t with
  | base w params => exact .base hends hps
  | app w args =>
    rw [ChType.pieces, List.cons_append, List.append_assoc]
    exact .wrap (argPieces_joined args (by simp [Ends]) fun o => .close hends hps)

theorem argPieces_joined (args : List (Option Bytes × ChType)) {ps : List Piece}
    (hends : Ends ps) (hps : ∀ o, Joined o ps) : Joined true (argPieces args ++ ps) := by
  cases args with
  | nil => exact hps true
  | cons a args =>
    obtain ⟨n, t⟩ := a
    have hrest : Ends ((if args.isEmpty then [] else .comma :: argPieces args) ++ ps) ∧
        Joined false ((if args.isEmpty then [] else .comma :: argPieces args) ++ ps) := by
      have hjoined := argPieces_joined args hends hps
      cases args with
      | nil => exact ⟨hends, hps false⟩
      | cons b args => exact ⟨by simp [Ends], .comma hjoined⟩
    have htype := t.joined hrest.1 hrest.2
    rw [argPieces, List.append_assoc, List.append_assoc]
    cases n with
    | none => exact htype
    | some n => exact .name htype

end

/-! ### The clause of a copy -/

/-- The columns with `String` for every occurrence of `T` in their types. -/
def replaceColumns (T : ReplacedType) (columns : List (Bytes × ChType)) : List (Bytes × ChType) :=
  columns.map fun c => (c.1, c.2.replace T)

/-- The clause of such columns. -/
def clauseText (quoteIdent : Bytes → Bytes) (columns : List (Bytes × ChType)) : Bytes :=
  clauseOf (columns.map fun c => (quoteIdent c.1, c.2.text quoteIdent))

/-- It is made of their tokens. -/
theorem clauseText_eq (quoteIdent : Bytes → Bytes) (columns : List (Bytes × ChType)) :
    clauseText quoteIdent columns = textOf quoteIdent (columnPieces columns) := by
  unfold clauseText columnPieces
  induction columns with
  | nil => rfl
  | cons c columns ih =>
    cases columns with
    | nil => simp [clauseOf, columnText, argPieces, ChType.text, Piece.text]
    | cons d columns =>
      rw [List.map_cons] at ih
      rw [List.map_cons, List.map_cons, clauseOf, ih]
      simp [columnText, argPieces, ChType.text, Piece.text]

theorem columnPieces_replace (T : ReplacedType) (columns : List (Bytes × ChType)) :
    columnPieces (replaceColumns T columns) = (columnPieces columns).map (Piece.replace T) := by
  have hargs : ((replaceColumns T columns).map fun c => (some c.1, c.2))
      = replaceArgs T (columns.map fun c => (some c.1, c.2)) := by
    induction columns with
    | nil => rfl
    | cons c columns ih =>
      rw [List.map_cons, replaceArgs, ← ih]
      rfl
  rw [columnPieces, hargs, argPieces_replace, columnPieces]

theorem columnPieces_joined (columns : List (Bytes × ChType)) :
    Joined false (columnPieces columns) := by
  have hends : Ends [] := by simp [Ends]
  have hjoined := argPieces_joined (columns.map fun c => (some c.1, c.2)) hends fun _ => .nil
  rw [List.append_nil] at hjoined
  cases columns with
  | nil => exact .nil
  | cons c columns =>
    -- a clause begins with a name, where no type may stand
    cases hjoined with
    | name hps => exact .name hps

theorem Joined.replace {o : Bool} {ps : List Piece} (h : Joined o ps) (T : ReplacedType) :
    Joined o (ps.map (Piece.replace T)) := by
  have hends : ∀ {ps}, Ends ps → Ends (ps.map (Piece.replace T)) := by
    intro ps hps p hp
    cases ps with
    | nil => cases hp
    | cons q ps =>
      cases hp
      rcases hps q rfl with rfl | rfl
      · exact Or.inl rfl
      · exact Or.inr rfl
  induction h with
  | nil => exact .nil
  | wrap _ ih => exact .wrap ih
  | close h _ ih => exact .close (hends h) ih
  | comma _ ih => exact .comma ih
  | name _ ih => exact .name ih
  | @base w params ps h _ ih =>
    rw [List.map_cons, Piece.replace]
    split
    · exact .base (hends h) ih
    · exact .base (hends h) ih

theorem Piece.replace_comm (T U : ReplacedType) (p : Piece) :
    (p.replace T).replace U = (p.replace U).replace T := by
  cases p with
  | base w params =>
    have hstring : ∀ V, (Piece.base stringWord []).replace V = .base stringWord [] := by
      intro V
      cases V <;> rfl
    have hcases : ∀ V, (Piece.base w params).replace V = .base stringWord [] ∨
        (Piece.base w params).replace V = .base w params := by
      intro V
      by_cases hw : w = V.word
      · exact Or.inl (if_pos hw)
      · exact Or.inr (if_neg hw)
    rcases hcases T with hT | hT <;> rcases hcases U with hU | hU <;>
      simp only [hT, hU, hstring]
  | _ => rfl

end

end PgChdb
