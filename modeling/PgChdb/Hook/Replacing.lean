import PgChdb.Hook.AsString

namespace PgChdb

open CText

/-!
# Replacing the types of a copy

`chdb_copy` replaces `UUID` and then `Time64` in the clause it derives.

* `Replaceable.replace` — a clause in which one type was replaced is as replaceable for the other
  as it was;
* `Replaceable.of_not_mem` — one without quotes in its names is replaceable;
* `structureAsString_replaces` — the types of a derived clause are replaced, and in either order,
  exactly when it is replaceable.
-/

section
variable {T : ReplacedType} {quoteIdent : Bytes → Bytes}

/-! ### Replacing one type and then the other -/

/-- The next closing parenthesis is one a type may end with. -/
def closes (s : Bytes) : Bool := (cut (byte ')') s).2.any endsType

private theorem closes_close {a : Bytes} (h : byte ')' ∉ a) (s : Bytes) :
    closes (a ++ byte ')' :: s) = endsType s := by
  unfold closes
  rw [cut_append h, Option.any_some]

private theorem closes_append {a : Bytes} (h : byte ')' ∉ a) (s : Bytes) :
    closes (a ++ s) = closes s := by
  induction a with
  | nil => rfl
  | cons c a ih =>
    simp only [List.mem_cons, not_or] at h
    rw [← ih h.2]
    unfold closes
    rw [List.cons_append, cut, if_neg (Ne.symm h.1)]

private theorem endsType_quote (b s s' : Bytes) :
    endsType (b ++ quote :: s) = endsType (b ++ quote :: s') := by
  cases b <;> rfl

/-- Behind an opening parenthesis the type is taken if the next one that closes may end it. -/
private theorem bareTypeLength_closes (type s : Bytes) :
    bareTypeLength type (type ++ byte '(' :: s) ≠ none ↔ closes s = true := by
  by_cases hmem : byte ')' ∈ s
  · obtain ⟨p, u, rfl, hp⟩ := List.eq_append_cons_of_mem hmem
    rw [bareTypeLength_params _ hp, closes_close hp]
    simp
  · rw [bareTypeLength_unclosed _ hmem, closes, cut_of_not_mem hmem]
    simp

/-- Of what follows a name, what is taken in it depends only on how the next parenthesis
    closes. -/
theorem bareTypeLength_quote {s s' : Bytes} (hs : closes s' = true → closes s = true)
    {b : Bytes} (h : bareTypeLength T.word.val (b ++ quote :: s') ≠ none) :
    bareTypeLength T.word.val (b ++ quote :: s) ≠ none := by
  obtain ⟨len, hlen⟩ := Option.ne_none_iff_exists'.mp h
  have hquote : quote ∉ T.word.val := not_mem_of_isBareword T.word.property (by decide)
  obtain ⟨a, rfl⟩ : T.word.val <+: b :=
    prefix_of_append (prefix_of_bareTypeLength hlen) (by simpa using hquote)
  rw [List.append_assoc] at h ⊢
  by_cases hpar : a.head? = some (byte '(')
  · obtain ⟨a, rfl⟩ : ∃ a', a = byte '(' :: a' := List.head?_eq_some_iff.mp hpar
    rw [List.cons_append, bareTypeLength_closes] at h ⊢
    by_cases hmem : byte ')' ∈ a
    · -- the parameters end within the name
      obtain ⟨p, a, rfl, hp⟩ := List.eq_append_cons_of_mem hmem
      rw [List.append_assoc, List.cons_append, closes_close hp] at h ⊢
      rwa [endsType_quote a s s']
    · have hbody : byte ')' ∉ a ++ [quote] := by
        simp only [List.mem_append, List.mem_singleton, not_or]
        exact ⟨hmem, by decide⟩
      rw [List.append_cons, closes_append hbody] at h ⊢
      exact hs h
  · have hhead : ∀ u, (a ++ quote :: u).head? ≠ some (byte '(') := by
      intro u
      cases a with
      | nil => simp; decide
      | cons c a => simpa using hpar
    rw [bareTypeLength_plain _ (hhead _)] at h ⊢
    rwa [endsType_quote a s s']

private theorem body_of_close {tok n : Bytes} (h : WritesName tok n)
    (hclose : byte ')' ∈ tok) : ∃ body, tok = body ++ [quote] ∧ byte ')' ∈ body := by
  rcases h with ⟨hbare, rfl⟩ | rfl
  · exact absurd hclose (not_mem_of_isBareword hbare (by decide))
  · refine ⟨quote :: escaped n, rfl, ?_⟩
    rw [← List.cons_append, List.mem_append, List.mem_singleton] at hclose
    exact hclose.resolve_right (by decide)

/-- Replacing a type leaves the parentheses that close, but for those that end a type. -/
theorem closes_replace (hident : ∀ n, WritesName (quoteIdent n) n) {o : Bool} {ps : List Piece}
    (h : Joined o ps)
    (hcloses : closes (textOf quoteIdent (ps.map (Piece.replace T))) = true) :
    closes (textOf quoteIdent ps) = true := by
  have hword : ∀ w : Word, byte ')' ∉ w.val := fun w =>
    not_mem_of_isBareword w.property (by decide)
  induction h with
  | nil => exact hcloses
  | @wrap o w ps hps ih =>
    have hw : byte ')' ∉ (Piece.wrap w).text quoteIdent :=
      not_mem_wrap (by decide) (by decide) w
    simp only [List.map_cons, Piece.replace, textOf_cons, closes_append hw] at hcloses ⊢
    exact ih hcloses
  | @close o ps hends hps ih =>
    have hnil : byte ')' ∉ ([] : Bytes) := by simp
    have hclose := closes_close hnil (textOf quoteIdent ps)
    rw [hends.text] at hclose
    exact hclose
  | @comma o ps hps ih =>
    have hcomma : byte ')' ∉ Piece.comma.text quoteIdent := by
      show byte ')' ∉ lit ", "
      decide
    simp only [List.map_cons, Piece.replace, textOf_cons, closes_append hcomma] at hcloses ⊢
    exact ih hcloses
  | @name o n ps hps ih =>
    have hspace : byte ')' ∉ Piece.space.text quoteIdent := by
      show byte ')' ∉ [byte ' ']
      decide
    simp only [List.map_cons, Piece.replace, textOf_cons] at hcloses ⊢
    by_cases hname : byte ')' ∈ (Piece.name n).text quoteIdent
    · -- a name does not end with the parenthesis
      obtain ⟨body, htok, hmem⟩ := body_of_close (hident n) hname
      obtain ⟨a, b, rfl, ha⟩ := List.eq_append_cons_of_mem hmem
      have htext : (Piece.name n).text quoteIdent = a ++ byte ')' :: b ++ [quote] := htok
      rw [htext] at hcloses ⊢
      simp only [List.append_assoc, List.cons_append, List.nil_append, closes_close ha]
        at hcloses ⊢
      rwa [endsType_quote b _ []] at hcloses ⊢
    · rw [closes_append hname, closes_append hspace] at hcloses ⊢
      exact ih hcloses
  | @base w params ps hends hps ih =>
    rcases paramsText_eq params with hparams | ⟨body, hparams, hbody, _⟩
    · have htext : ∀ v : Word, closes (v.val ++ textOf quoteIdent (ps.map (Piece.replace T)))
          = closes (textOf quoteIdent (ps.map (Piece.replace T))) :=
        fun v => closes_append (hword v) _
      rw [textOf_cons, Piece.text, hparams, List.append_nil, closes_append (hword w)]
      apply ih
      by_cases hw : w = T.word
      · simp only [List.map_cons, Piece.replace, if_pos hw, textOf_cons, Piece.text] at hcloses
        rw [paramsText, List.append_nil, htext] at hcloses
        exact hcloses
      · simp only [List.map_cons, Piece.replace, if_neg hw, textOf_cons, Piece.text] at hcloses
        rw [hparams, List.append_nil, htext] at hcloses
        exact hcloses
    · have hpar : byte ')' ∉ w.val ++ byte '(' :: body := by
        simp only [List.mem_append, List.mem_cons, not_or]
        exact ⟨hword w, by decide, hbody⟩
      have hclose := closes_close hpar (textOf quoteIdent ps)
      rw [hends.text] at hclose
      rw [textOf_cons, Piece.text, hparams]
      simpa using hclose

/-- The scan goes on alike behind the two texts. -/
structure SameEnd (s s' : Bytes) : Prop where
  quotes : oddQuotes s = oddQuotes s'
  opens : OpenAt s ↔ OpenAt s'

private theorem SameEnd.append {s s' : Bytes} (h : SameEnd s s') (t : Bytes) :
    SameEnd (s ++ t) (s' ++ t) := by
  induction t generalizing s s' with
  | nil => simpa using h
  | cons c t ih =>
    rw [List.append_cons, List.append_cons s']
    refine ih ⟨?_, ?_⟩
    · rw [oddQuotes_concat, oddQuotes_concat, h.quotes]
    · rw [openAt_concat, openAt_concat]

private theorem not_openAt_base (s : Bytes) (w : Word) (params : List Literal) :
    ¬ OpenAt (s ++ (w.val ++ paramsText params)) := by
  have hne : w.val ≠ [] := by
    intro hnil
    have hw := w.property
    rw [hnil] at hw
    cases hw
  rcases paramsText_eq params with hparams | ⟨body, hparams, _⟩
  · obtain ⟨l, c, hl⟩ := (List.eq_nil_or_concat w.val).resolve_left hne
    have hc := word_mem (w := w) (c := c) (by simp [hl])
    rw [hparams, List.append_nil, hl, List.concat_eq_append, ← List.append_assoc, openAt_concat,
      not_or]
    exact hc
  · have htext : s ++ (w.val ++ paramsText params)
        = (s ++ w.val ++ byte '(' :: body) ++ [byte ')'] := by
      simp [hparams]
    rw [htext, openAt_concat]
    decide

/-- In a name the scan takes the same after another type was replaced. -/
private theorem Untaken.name {before before' : Bytes} (hsame : SameEnd before before')
    {s s' : Bytes} (hs : closes s' = true → closes s = true) {t : Bytes}
    (h : Untaken T before (t ++ [quote]) s) : Untaken T before' (t ++ [quote]) s' := by
  induction t generalizing before before' with
  | nil => exact .of_head (by decide) (by decide) _ _
  | cons c t ih =>
    refine ⟨fun htaken => h.1 ⟨?_, ?_, ?_⟩, ih (hsame.append [c]) h.2⟩
    · rw [hsame.quotes]
      exact htaken.1
    · exact hsame.opens.mpr htaken.2.1
    · have htext : ∀ u : Bytes, (c :: t) ++ quote :: u = c :: (t ++ [quote]) ++ u := by simp
      have hlen : bareTypeLength T.word.val ((c :: t) ++ quote :: s') ≠ none := by
        rw [htext]
        exact htaken.2.2
      have hquote := bareTypeLength_quote hs hlen
      rw [htext] at hquote
      exact hquote

/-- A bare name is never taken: a space follows it. -/
private theorem Untaken.bare {n : Bytes} (hn : isBareword n = true) (before s : Bytes) :
    Untaken T before n (byte ' ' :: s) := by
  refine .word (fun htaken => ?_) fun c hc => word_mem (w := ⟨n, hn⟩) hc
  have hspace : ∀ c ∈ (byte ' ' :: s).head?, isWordByte c = false := by
    intro c hc
    cases hc
    decide
  exact (bareTypeLength_word (w := ⟨n, hn⟩) hspace htaken.2.2).2 rfl

/-- **Replacing one type leaves the other replaceable.** -/
theorem Replaceable.replace (hident : ∀ n, WritesName (quoteIdent n) n) {U : ReplacedType}
    {o : Bool} {ps : List Piece} (h : Joined o ps) {before before' : Bytes}
    (hsame : SameEnd before before') (hr : Replaceable T quoteIdent before ps) :
    Replaceable T quoteIdent before' (ps.map (Piece.replace U)) := by
  induction h generalizing before before' with
  | nil => trivial
  | wrap hps ih => exact ⟨trivial, ih (hsame.append _) hr.2⟩
  | close hends hps ih => exact ⟨trivial, ih (hsame.append _) hr.2⟩
  | comma hps ih => exact ⟨trivial, ih (hsame.append _) hr.2⟩
  | @name o n ps hps ih =>
    obtain ⟨hname, _, hr⟩ := hr
    refine ⟨?_, trivial, ih ((hsame.append _).append _) hr⟩
    rcases hident n with ⟨hbare, htok⟩ | htok
    · show Untaken T before' (quoteIdent n) _
      rw [htok]
      exact .bare hbare _ _
    · have hspace : byte ')' ∉ [byte ' '] := by decide
      have hcloses : closes ([byte ' '] ++ textOf quoteIdent (ps.map (Piece.replace U))) = true →
          closes ([byte ' '] ++ textOf quoteIdent ps) = true := by
        rw [closes_append hspace, closes_append hspace]
        exact closes_replace hident hps
      show Untaken T before' (quoteIdent n) _
      have hname : Untaken T before (quoteIdent n) _ := hname
      rw [htok, ← List.cons_append] at hname ⊢
      exact .name hsame hcloses hname
  | @base w params ps hends hps ih =>
    obtain ⟨hfits, hr⟩ := hr
    have hquote := quote_not_mem_base w params
    by_cases hw : w = U.word
    · have hstring := quote_not_mem_base stringWord []
      have hafter : SameEnd (before ++ (w.val ++ paramsText params))
          (before' ++ (stringWord.val ++ paramsText [])) := by
        constructor
        · rw [oddQuotes_append hquote, oddQuotes_append hstring, hsame.quotes]
        · exact iff_of_false (not_openAt_base _ _ _) (not_openAt_base _ _ _)
      have hne : stringWord ≠ T.word := by cases T <;> decide
      simp only [List.map_cons, Piece.replace, if_pos hw]
      exact ⟨fun heq => absurd heq hne, ih hafter hr⟩
    · simp only [List.map_cons, Piece.replace, if_neg hw]
      exact ⟨fun heq => hsame.quotes ▸ hfits heq, ih (hsame.append _) hr⟩

/-! ### Names without quotes -/

private theorem quote_not_mem_escaped {n : Bytes} (h : quote ∉ n) : quote ∉ escaped n := by
  induction n with
  | nil => exact h
  | cons c n ih =>
    simp only [List.mem_cons, not_or] at h
    have hback : quote ≠ backslash := by decide
    unfold escaped
    split <;> simp [h.1, ih h.2, hback]

private theorem Untaken.of_odd {before t : Bytes} (hodd : oddQuotes before = true)
    (ht : quote ∉ t) (s : Bytes) : Untaken T before t s := by
  induction t generalizing before with
  | nil => trivial
  | cons c t ih =>
    simp only [List.mem_cons, not_or] at ht
    have hc : quote ∉ [c] := by simpa using ht.1
    refine ⟨fun htaken => ?_, ih ?_ ht.2⟩
    · rw [htaken.1] at hodd
      cases hodd
    · rw [oddQuotes_append hc, hodd]

private theorem oddQuotes_keep {before t : Bytes} (hodd : oddQuotes before = false)
    (ht : quote ∉ t) : oddQuotes (before ++ t) = false :=
  (oddQuotes_append ht before).trans hodd

/-- Nothing is taken in a name without quotes, and the quotes around it are even. -/
private theorem name_untaken {tok n : Bytes} (h : WritesName tok n) (hn : quote ∉ n)
    {before : Bytes} (hodd : oddQuotes before = false) (s : Bytes) :
    Untaken T before tok (byte ' ' :: s) ∧ oddQuotes (before ++ tok) = false := by
  rcases h with ⟨hbare, rfl⟩ | rfl
  · exact ⟨.bare hbare _ _, oddQuotes_keep hodd hn⟩
  · have hescaped := quote_not_mem_escaped hn
    have hopened : oddQuotes (before ++ [quote]) = true := by
      rw [oddQuotes_concat, if_pos rfl, hodd]
      rfl
    have hwithin : oddQuotes (before ++ [quote] ++ escaped n) = true :=
      (oddQuotes_append hescaped _).trans hopened
    rw [← List.singleton_append, untaken_append, untaken_append, ← List.append_assoc,
      ← List.append_assoc, oddQuotes_concat, if_pos rfl, hwithin]
    have hquote : ∀ before s, Untaken T before [quote] s := .of_head (by decide) (by decide)
    exact ⟨⟨hquote _ _, .of_odd hopened hescaped _, hquote _ _⟩, rfl⟩

/-- The names among the tokens. -/
def namesOf (ps : List Piece) : List Bytes :=
  ps.filterMap fun p =>
    match p with
    | .name n => some n
    | _ => none

/-- A clause none of whose names has a quote is replaceable. -/
theorem Replaceable.of_not_mem (hident : ∀ n, WritesName (quoteIdent n) n) {o : Bool}
    {ps : List Piece} (h : Joined o ps) {before : Bytes} (hodd : oddQuotes before = false)
    (hnames : ∀ n ∈ namesOf ps, quote ∉ n) : Replaceable T quoteIdent before ps := by
  induction h generalizing before with
  | nil => trivial
  | @wrap o w ps hps ih =>
    have hw : quote ∉ (Piece.wrap w).text quoteIdent :=
      not_mem_wrap (by decide) (by decide) w
    exact ⟨trivial, ih (oddQuotes_keep hodd hw) hnames⟩
  | @close o ps hends hps ih =>
    have hclose : quote ∉ Piece.close.text quoteIdent := by
      show quote ∉ [byte ')']
      decide
    exact ⟨trivial, ih (oddQuotes_keep hodd hclose) hnames⟩
  | @comma o ps hps ih =>
    have hcomma : quote ∉ Piece.comma.text quoteIdent := by
      show quote ∉ lit ", "
      decide
    exact ⟨trivial, ih (oddQuotes_keep hodd hcomma) hnames⟩
  | @name o n ps hps ih =>
    have hspace : quote ∉ Piece.space.text quoteIdent := by
      show quote ∉ [byte ' ']
      decide
    have hn : quote ∉ n := hnames n (by simp [namesOf])
    have hrest : ∀ m ∈ namesOf ps, quote ∉ m :=
      fun m hm => hnames m (List.mem_cons_of_mem n hm)
    obtain ⟨htok, hkeep⟩ := name_untaken (T := T) (hident n) hn hodd (textOf quoteIdent ps)
    exact ⟨htok, trivial, ih (oddQuotes_keep hkeep hspace) hrest⟩
  | @base w params ps hends hps ih =>
    exact ⟨fun _ => hodd, ih (oddQuotes_keep hodd (quote_not_mem_base w params)) hnames⟩

end

/-! ### The clause of a copy -/

/-- **The types of a clause are replaced, and in either order, exactly when it is
    replaceable.** -/
theorem structureAsString_replaces {lib : PgchNames}
    (hident : ∀ n, WritesName (lib.quoteChIdent n) n) (ctx : ChdbCopyContext)
    (tree : FormPgAttribute → ChType)
    (htypes : ∀ attr ∈ ctx.listed, lib.typeText attr = (tree attr).text lib.quoteChIdent) :
    let clause := structureForAttnums lib ctx.rel ctx.attnums
    let columns := ctx.listed.map fun attr => (attr.attname, tree attr)
    ((∀ T : ReplacedType, structureAsString clause T.word.val
        = clauseText lib.quoteChIdent (replaceColumns T columns)) ∧
      ∀ T U : ReplacedType, structureAsString (structureAsString clause T.word.val) U.word.val
        = structureAsString (structureAsString clause U.word.val) T.word.val) ↔
    ∀ T, Replaceable T lib.quoteChIdent [] (columnPieces columns) := by
  intro clause columns
  have hclause : clause = textOf lib.quoteChIdent (columnPieces columns) := by
    rw [← clauseText_eq]
    show structureForAttnums lib ctx.rel ctx.attnums = _
    rw [structureForAttnums_eq, clauseText, writtenColumns, List.map_map]
    exact congrArg clauseOf (List.map_congr_left fun attr hattr => by simp [htypes attr hattr])
  have hjoined := columnPieces_joined columns
  have hone : ∀ T : ReplacedType, structureAsString clause T.word.val
      = clauseText lib.quoteChIdent (replaceColumns T columns)
        ↔ Replaceable T lib.quoteChIdent [] (columnPieces columns) := by
    intro T
    rw [clauseText_eq, columnPieces_replace, hclause, structureAsString_eq]
    exact scan_pieces_iff hjoined (by simp)
  constructor
  · intro h T
    exact (hone T).mp (h.1 T)
  · intro hr
    refine ⟨fun T => (hone T).mpr (hr T), fun T U => ?_⟩
    -- the second replacement finds a clause that is still replaceable
    have htwo : ∀ T U : ReplacedType,
        structureAsString (structureAsString clause T.word.val) U.word.val
          = textOf lib.quoteChIdent
              (((columnPieces columns).map (Piece.replace T)).map (Piece.replace U)) := by
      intro T U
      have hsame : SameEnd [] [] := ⟨rfl, Iff.rfl⟩
      have hafter := (hr U).replace (U := T) hident hjoined hsame
      rw [(hone T).mpr (hr T), clauseText_eq, columnPieces_replace, structureAsString_eq]
      exact (scan_pieces_iff (hjoined.replace T) (by simp)).mpr hafter
    rw [htwo T U, htwo U T, List.map_map, List.map_map]
    exact congrArg _ (List.map_congr_left fun p _ => p.replace_comm T U)

/-! ### A table with a nested column -/

/-- `Array`. -/
def arrayWord : Wrapper := ⟨⟨lit "Array", by decide⟩, fun T => by cases T <;> decide⟩

/-- `Tuple`. -/
def tupleWord : Wrapper := ⟨⟨lit "Tuple", by decide⟩, fun T => by cases T <;> decide⟩

/-- `Nullable`. -/
def nullableWord : Wrapper := ⟨⟨lit "Nullable", by decide⟩, fun T => by cases T <;> decide⟩

/-- `uuid` and `time`, and for any other type the composite one of an `id uuid` and of a
    `time[]` whose name has to be quoted. -/
def nestedType (oid : ℕ) (notnull : Bool) : ChType :=
  let uuid : ChType := .base ReplacedType.uuid.word []
  let time : ChType := .base ReplacedType.time64.word [⟨lit "6", by decide⟩]
  let t : ChType :=
    if oid = 2950 then uuid
    else if oid = 1083 then time
    else .app tupleWord
      [(some (lit "id"), uuid), (some (lit "at (UTC), UUID"), .app arrayWord [(none, time)])]
  if notnull then t else .app nullableWord [(none, t)]

/-- The mapping that writes these types. -/
def nestedNames : PgchNames where
  quoteChIdent := quoteName
  chTypeFor oid _ notnull := (nestedType oid notnull).text quoteName

/-- A copy of columns of these names and types to an ORC file. -/
def copyToOrc (columns : List (Bytes × ℕ × Bool)) : ChdbCopyContext where
  rel := columns.map fun c => { intAttribute c.1 with atttypid := c.2.1, attnotnull := c.2.2 }
  attnums := (List.range columns.length).map (· + 1)
  scheme := .file
  cmdType := .insert
  url := lit "file:///tmp/out.orc"
  format := lit "ORC"

/-- The columns of a copy as they are mapped. -/
def nestedColumns (ctx : ChdbCopyContext) : List (Bytes × ChType) :=
  ctx.listed.map fun attr => (attr.attname, nestedType attr.atttypid attr.attnotnull)

/-- Columns of both types, at the top and nested, and a field whose name looks like one. -/
def orders : ChdbCopyContext :=
  copyToOrc [(lit "key", 2950, true), (lit "opened at", 1083, false), (lit "item", 16384, true)]

theorem structureAsString_replaces_orders :
    (∀ T : ReplacedType, structureAsString
        (structureForAttnums nestedNames orders.rel orders.attnums) T.word.val
          = clauseText quoteName (replaceColumns T (nestedColumns orders))) ∧
      ∀ T U : ReplacedType, structureAsString (structureAsString
          (structureForAttnums nestedNames orders.rel orders.attnums) T.word.val) U.word.val
        = structureAsString (structureAsString
          (structureForAttnums nestedNames orders.rel orders.attnums) U.word.val) T.word.val := by
  have hident : ∀ n, WritesName (nestedNames.quoteChIdent n) n := quoteName_writes
  have hiff := structureAsString_replaces hident orders
    (fun attr => nestedType attr.atttypid attr.attnotnull) fun attr _ => rfl
  apply hiff.mpr
  intro T
  exact .of_not_mem quoteName_writes (columnPieces_joined _) rfl (by decide +kernel)

/-- Behind an escaped quote the type is missed, and in a name it is replaced. -/
theorem structureAsString_misses :
    structureForAttnums nestedNames (copyToOrc [(lit "a\"b", 2950, true)]).rel [1]
        = lit "\"a\\\"b\" UUID" ∧
      structureAsString (lit "\"a\\\"b\" UUID") (lit "UUID") = lit "\"a\\\"b\" UUID" ∧
      clauseText quoteName
          (replaceColumns .uuid (nestedColumns (copyToOrc [(lit "a\"b", 2950, true)])))
        = lit "\"a\\\"b\" String" ∧
      structureForAttnums nestedNames (copyToOrc [(lit "a\" UUID, b", 1083, true)]).rel [1]
        = lit "\"a\\\" UUID, b\" Time64(6)" ∧
      structureAsString (lit "\"a\\\" UUID, b\" Time64(6)") (lit "UUID")
        = lit "\"a\\\" String, b\" Time64(6)" ∧
      ¬ ∀ T : ReplacedType, structureAsString
          (structureForAttnums nestedNames (copyToOrc [(lit "a\"b", 2950, true)]).rel [1])
            T.word.val
        = clauseText quoteName
          (replaceColumns T (nestedColumns (copyToOrc [(lit "a\"b", 2950, true)]))) := by
  refine ⟨by decide +kernel, by decide +kernel, by decide +kernel, by decide +kernel,
    by decide +kernel, fun h => ?_⟩
  exact absurd (h .uuid) (by decide +kernel)

-- the condition fails there
example : ¬ Replaceable .uuid quoteName []
    (columnPieces [(lit "a\"b", .base ReplacedType.uuid.word [])]) := by
  decide +kernel

end PgChdb
