import PgChdb.Hook.Query
import PgChdb.Lib.Clause
import PgChdb.Native.Writer

namespace PgChdb

open CText Fallible

/-!
# The structure clause of a copy

`chdb_copy` always sends a structure.  Without a `structure` option it derives the clause
from the copied columns, with the types some formats lack replaced by `String`, and sends it
as the `{structure:String}` parameter as it stands.  chDB undoes the escapes of a parameter
before it parses the clause; `writer_for` parses the same clause without undoing any.

* `structureForAttnums`, `structureAsString`, `formatLacksTime64`, `deriveStructure` — the
  clause;
* `ClauseReaders` — the two readers of it, and what is relied on of them;
* `StructureAgrees` — the two ends of a copy read the same columns;
* `chdbCopy_structure_agrees` — they do when nothing in the clause is escaped, and in a
  derived one exactly when the names can do without.
-/

variable {T : Type}

/-! ### The clause -/

/-- What the hook uses of the vendored type mapping: `pgch_quote_ch_ident`, and
    `pgch_ch_type_for` over an attribute's type, type modifier and null constraint. -/
structure PgchNames where
  quoteChIdent : Bytes → Bytes
  chTypeFor : ℕ → ℤ → Bool → Bytes

/-- The type the clause gives an attribute. -/
def PgchNames.typeText (lib : PgchNames) (attr : FormPgAttribute) : Bytes :=
  lib.chTypeFor attr.atttypid attr.atttypmod attr.attnotnull

/-- `structure_for_attnums`. -/
def structureForAttnums (lib : PgchNames) (desc : List FormPgAttribute) (attnums : List ℕ) :
    Bytes :=
  attnums.foldl (fun buf attnum =>
    match desc[attnum - 1]? with
    | some attr => (if buf = [] then buf else buf ++ lit ", ") ++
        columnText (lib.quoteChIdent attr.attname) (lib.typeText attr)
    | none => buf) []

/-- How much of the text is the bare `type` with its parameters, if it stands there: the
    parameters run to the first closing parenthesis, and the end of the text, a comma or
    another closing parenthesis has to follow. -/
def bareTypeLength (type s : Bytes) : Option ℕ :=
  if type.isPrefixOf s then
    let rest := s.drop type.length
    let params :=
      if rest.head? = some (byte '(') then
        match cut (byte ')') rest with
        | (p, some _) => p.length + 1
        | (_, none) => 0
      else 0
    match (rest.drop params).head? with
    | none => some (type.length + params)
    | some c => if c = byte ',' ∨ c = byte ')' then some (type.length + params) else none
  else none

/-- The loop of `structure_as_string`, with what is left to pass over of a replaced type,
    whether a quoted name is being read, and the character before. -/
def asStringFrom (type : Bytes) : ℕ → Bool → Option UInt8 → Bytes → Bytes
  | _, _, _, [] => []
  | skip + 1, quoted, _, c :: s => asStringFrom type skip quoted (some c) s
  | 0, quoted, prev, c :: s =>
    let quoted := if c = quote then !quoted else quoted
    if !quoted && (prev = some (byte ' ') || prev = some (byte '(')) then
      match bareTypeLength type (c :: s) with
      | some len => lit "String" ++ asStringFrom type (len - 1) quoted (some c) s
      | none => c :: asStringFrom type 0 quoted (some c) s
    else c :: asStringFrom type 0 quoted (some c) s

/-- `structure_as_string`. -/
def structureAsString (clause type : Bytes) : Bytes := asStringFrom type 0 false none clause

/-- `format_lacks_time64`. -/
def formatLacksTime64 (format : Bytes) : Bool :=
  [lit "Parquet", lit "Arrow", lit "ArrowStream", lit "ORC", lit "Avro", lit "Protobuf",
    lit "ProtobufList", lit "MsgPack", lit "BSONEachRow"].any (pgStrcaseEq format)

/-- The structure `chdb_copy` derives. -/
def derivedStructure (lib : PgchNames) (ctx : ChdbCopyContext) : Bytes :=
  let clause := structureForAttnums lib ctx.rel ctx.attnums
  let clause :=
    if pgStrcaseEq ctx.format (lit "ORC") then structureAsString clause (lit "UUID") else clause
  if formatLacksTime64 ctx.format then structureAsString clause (lit "Time64") else clause

/-- The context `chdb_copy` makes its query of: it always has a structure. -/
def deriveStructure (lib : PgchNames) (ctx : ChdbCopyContext) : ChdbCopyContext :=
  if ctx.structureClause = [] then { ctx with structureClause := derivedStructure lib ctx }
  else ctx

/-- The query of `chdb_copy`. -/
def chdbCopyQuery (lib : PgchNames) (ctx : ChdbCopyContext) : Raises ChQuery :=
  makeChQuery (deriveStructure lib ctx)

/-! ### What the clause is made of -/

/-- The attributes a copy lists. -/
def ChdbCopyContext.listed (ctx : ChdbCopyContext) : List FormPgAttribute :=
  ctx.attnums.filterMap fun attnum => ctx.rel[attnum - 1]?

/-- Their columns as they are written. -/
def writtenColumns (lib : PgchNames) (attrs : List FormPgAttribute) : List (Bytes × Bytes) :=
  attrs.map fun attr => (lib.quoteChIdent attr.attname, lib.typeText attr)

/-- The clause is that of the listed attributes. -/
theorem structureForAttnums_eq (lib : PgchNames) (ctx : ChdbCopyContext) :
    structureForAttnums lib ctx.rel ctx.attnums = clauseOf (writtenColumns lib ctx.listed) := by
  have hgen : ∀ (attnums : List ℕ) (buf : Bytes),
      attnums.foldl (fun buf attnum =>
        match ctx.rel[attnum - 1]? with
        | some attr => (if buf = [] then buf else buf ++ lit ", ") ++
            columnText (lib.quoteChIdent attr.attname) (lib.typeText attr)
        | none => buf) buf
      = if buf = [] then
          clauseOf (writtenColumns lib (attnums.filterMap fun attnum => ctx.rel[attnum - 1]?))
        else buf ++ (writtenColumns lib (attnums.filterMap fun attnum =>
          ctx.rel[attnum - 1]?)).flatMap fun j => lit ", " ++ columnText j.1 j.2 := by
    intro attnums
    induction attnums with
    | nil => intro buf; by_cases hbuf : buf = [] <;> simp [hbuf, writtenColumns, clauseOf]
    | cons attnum attnums ih =>
      intro buf
      rw [List.foldl_cons, ih]
      -- a number without an attribute adds no column
      cases hattr : ctx.rel[attnum - 1]? with
      | none => simp [hattr]
      | some attr =>
        have hne := columnText_ne_nil (lib.quoteChIdent attr.attname) (lib.typeText attr)
        by_cases hbuf : buf = []
        · simp [hattr, hbuf, hne, writtenColumns, clauseOf_cons]
        · simp [hattr, hbuf, writtenColumns]
  exact hgen ctx.attnums []

/-- Replacing types brings in no backslash. -/
theorem structureAsString_not_mem {clause : Bytes} (h : backslash ∉ clause) (type : Bytes) :
    backslash ∉ structureAsString clause type := by
  have hgen : ∀ (s : Bytes) (skip : ℕ) (quoted : Bool) (prev : Option UInt8), backslash ∉ s →
      backslash ∉ asStringFrom type skip quoted prev s := by
    intro s
    induction s with
    | nil => intro skip quoted prev _; cases skip <;> simp [asStringFrom]
    | cons c s ih =>
      intro skip quoted prev hs
      simp only [List.mem_cons, not_or] at hs
      have hstring : backslash ∉ lit "String" := by decide
      cases skip with
      | succ skip => exact ih skip quoted (some c) hs.2
      | zero =>
        unfold asStringFrom
        -- whether a name is being read does not matter here
        generalize (if c = quote then !quoted else quoted) = quoted
        dsimp only
        split
        · split
          · simp [hstring, ih _ _ _ hs.2]
          · simp [hs.1, ih _ _ _ hs.2]
        · simp [hs.1, ih _ _ _ hs.2]
  exact hgen clause 0 false none h

/-! ### The two readers -/

/-- The readers of a structure clause: chDB's own, which undoes the escapes of the parameter
    first, and clickhouse-c's, for the blocks of a `COPY TO`. -/
structure ClauseReaders (T : Type) where
  columns : Bytes → Option (List (Bytes × T))
  unescape : Bytes → Bytes
  parseTuple : Bytes → Raises (List (Option Bytes × T))

/-- What is relied on of them: the escapes are undone once, and a clause both can read is
    read by both as the same columns. -/
structure ClauseReaders.Agree (rd : ClauseReaders T) : Prop where
  unescapes : Unescapes rd.unescape
  same : ∀ {clause fields cols}, rd.parseTuple (lit "Tuple(" ++ (clause ++ lit ")")) = .ok fields →
    namedFields fields = some cols → rd.columns clause = some cols

/-- The two ends of a copy give the structure clause the same meaning: chDB declares the
    columns of a derived clause, and for a `COPY TO` the columns of the blocks. -/
def StructureAgrees (lib : PgchNames) (rd : ClauseReaders T) (ctx : ChdbCopyContext)
    (query : ChQuery) : Prop :=
  ∃ value, query.value (lit "structure") = some value ∧
    (ctx.structureClause = [] →
      rd.columns (rd.unescape value) = rd.columns (deriveStructure lib ctx).structureClause) ∧
    (ctx.cmdType = .insert → ∀ cols,
      writerFor rd.parseTuple (deriveStructure lib ctx).structureClause ctx.attnums.length
        = .ok cols → rd.columns (rd.unescape value) = some cols)

/-- The clause has nothing to undo: a supplied one has no backslash, and the names of a
    derived one no quote and no backslash, nor their types a backslash. -/
def NothingEscaped (lib : PgchNames) (ctx : ChdbCopyContext) : Prop :=
  if ctx.structureClause = [] then
    ∀ attr ∈ ctx.listed, quote ∉ attr.attname ∧ backslash ∉ attr.attname ∧
      backslash ∉ lib.typeText attr
  else backslash ∉ ctx.structureClause

private theorem escaped_eq {n : Bytes} (hq : quote ∉ n) (hb : backslash ∉ n) :
    escaped n = n := by
  induction n with
  | nil => rfl
  | cons c n ih =>
    simp only [List.mem_cons, not_or] at hq hb
    rw [escaped, if_neg (by simp [Ne.symm hq.1, Ne.symm hb.1]), ih hq.2 hb.2]

private theorem backslash_not_mem_token {tok n : Bytes} (h : WritesName tok n)
    (hq : quote ∉ n) (hb : backslash ∉ n) : backslash ∉ tok := by
  rcases h with ⟨_, rfl⟩ | rfl
  · exact hb
  · rw [escaped_eq hq hb]
    simp [hb, show backslash ≠ quote by decide]

/-- Then the clause has no backslash. -/
theorem NothingEscaped.not_mem {lib : PgchNames} {ctx : ChdbCopyContext}
    (h : NothingEscaped lib ctx) (hident : ∀ n, WritesName (lib.quoteChIdent n) n) :
    backslash ∉ (deriveStructure lib ctx).structureClause := by
  unfold NothingEscaped at h
  unfold deriveStructure
  split at h
  · rename_i hnone
    rw [if_pos hnone]
    -- the clause as it is derived, column by column
    have hcolumn : ∀ i ∈ writtenColumns lib ctx.listed, backslash ∉ columnText i.1 i.2 := by
      intro i hi
      obtain ⟨attr, hattr, rfl⟩ := List.mem_map.mp hi
      obtain ⟨hq, hb, ht⟩ := h attr hattr
      have htok := backslash_not_mem_token (hident attr.attname) hq hb
      simp only [columnText, List.mem_append, List.mem_cons, not_or]
      exact ⟨htok, by decide, ht⟩
    have hclause : backslash ∉ structureForAttnums lib ctx.rel ctx.attnums := by
      rw [structureForAttnums_eq]
      cases hcols : writtenColumns lib ctx.listed with
      | nil => simp [clauseOf]
      | cons i items =>
        rw [hcols] at hcolumn
        have hsep : backslash ∉ lit ", " := by decide
        rw [clauseOf_cons]
        simp only [List.mem_append, List.mem_flatMap, not_or, not_exists, not_and]
        refine ⟨hcolumn i List.mem_cons_self, fun j hj => ?_⟩
        exact ⟨hsep, hcolumn j (List.mem_cons_of_mem i hj)⟩
    show backslash ∉ derivedStructure lib ctx
    unfold derivedStructure
    dsimp only
    -- whatever is replaced in it
    split <;> split <;>
      first
        | exact structureAsString_not_mem (structureAsString_not_mem hclause _) _
        | exact structureAsString_not_mem hclause _
        | exact hclause
  · rename_i hsome
    rw [if_neg hsome]
    exact h

/-- The `String` in place of a type happens only for a format that lacks `Time64`, as `ORC`
    does. -/
theorem derivedStructure_of_format (lib : PgchNames) {ctx : ChdbCopyContext}
    (h : formatLacksTime64 ctx.format = false) :
    derivedStructure lib ctx = clauseOf (writtenColumns lib ctx.listed) := by
  have horc : pgStrcaseEq ctx.format (lit "ORC") = false := by
    simp only [formatLacksTime64, List.any_cons, Bool.or_eq_false_iff] at h
    exact h.2.2.2.1
  unfold derivedStructure
  simp only [h, horc, Bool.false_eq_true, if_false]
  exact structureForAttnums_eq lib ctx

/-- The columns the listed attributes are written as, when they all have types. -/
private theorem exists_columns {lib : PgchNames} {typeOf : Bytes → Option T}
    (hident : ∀ n, WritesName (lib.quoteChIdent n) n) (attrs : List FormPgAttribute)
    (htypes : ∀ attr ∈ attrs,
      backslash ∉ lib.typeText attr ∧ ∃ t, typeOf (lib.typeText attr) = some t) :
    ∃ cols, cols.map Prod.fst = attrs.map FormPgAttribute.attname ∧
      List.Forall₂ (fun i c => WritesName i.1 c.1 ∧ backslash ∉ i.2 ∧ typeOf i.2 = some c.2)
        (writtenColumns lib attrs) cols := by
  induction attrs with
  | nil => exact ⟨[], rfl, List.Forall₂.nil⟩
  | cons attr attrs ih =>
    obtain ⟨cols, hnames, hall⟩ := ih fun a ha => htypes a (List.mem_cons_of_mem attr ha)
    obtain ⟨hb, t, ht⟩ := htypes attr List.mem_cons_self
    exact ⟨(attr.attname, t) :: cols, by simp [hnames],
      List.Forall₂.cons ⟨hident attr.attname, hb, ht⟩ hall⟩

/-- **The structure clause means the same to both ends when nothing in it is escaped**, in
    either direction, derived or supplied.  A derived clause, in a format that has all the
    types, means the same to both exactly when every listed name, put between quotes as it
    is, is read as itself: the parameter is sent without doubling its backslashes, so chDB
    undoes the escapes that the names need. -/
theorem chdbCopy_structure_agrees {lib : PgchNames} {rd : ClauseReaders T} {ctx : ChdbCopyContext}
    {query : ChQuery} (hident : ∀ n, WritesName (lib.quoteChIdent n) n) (hrd : rd.Agree)
    (hquery : chdbCopyQuery lib ctx = .ok query) :
    (NothingEscaped lib ctx → StructureAgrees lib rd ctx query) ∧
      ∀ (esc : UInt8 → Bytes) (typeOf : Bytes → Option T), QuoteEscapes esc →
        ReadsColumns esc typeOf rd.columns →
        (∀ attr ∈ ctx.listed,
          backslash ∉ lib.typeText attr ∧ ∃ t, typeOf (lib.typeText attr) = some t) →
        ctx.structureClause = [] → formatLacksTime64 ctx.format = false →
        (StructureAgrees lib rd ctx query ↔ ∀ attr ∈ ctx.listed, ReadsRaw esc attr.attname) := by
  have hvalue := makeChQuery_structure hquery
  -- both parts say how chDB reads the clause it is sent
  have hagrees : rd.columns (rd.unescape (deriveStructure lib ctx).structureClause)
      = rd.columns (deriveStructure lib ctx).structureClause →
        StructureAgrees lib rd ctx query := by
    intro hsame
    refine ⟨_, hvalue, fun _ => hsame, fun _ cols hwriter => ?_⟩
    obtain ⟨⟨fields, hparse, hnamed⟩, _⟩ := writerFor_eq_ok.mp hwriter
    rw [hsame]
    exact hrd.same hparse hnamed
  constructor
  · intro hnothing
    apply hagrees
    rw [hrd.unescapes.of_not_mem (hnothing.not_mem hident)]
  · intro esc typeOf he hreads htypes hderived hformat
    have hclause : (deriveStructure lib ctx).structureClause
        = clauseOf (writtenColumns lib ctx.listed) := by
      unfold deriveStructure
      rw [if_pos hderived]
      exact derivedStructure_of_format lib hformat
    obtain ⟨cols, hnames, hall⟩ := exists_columns hident ctx.listed htypes
    have hraw : (∀ attr ∈ ctx.listed, ReadsRaw esc attr.attname) ↔
        ∀ c ∈ cols, ReadsRaw esc c.1 := by
      have hl := List.forall_mem_map (l := ctx.listed) (f := FormPgAttribute.attname)
        (P := ReadsRaw esc)
      have hr := List.forall_mem_map (l := cols) (f := Prod.fst) (P := ReadsRaw esc)
      rw [← hl, ← hr, hnames]
    rw [hraw]
    by_cases hnil : writtenColumns lib ctx.listed = []
    · -- no columns: nothing to read on either side
      rw [hnil, List.forall₂_nil_left_iff] at hall
      rw [hnil] at hclause
      refine ⟨fun _ => by simp [hall], fun _ => hagrees ?_⟩
      rw [hclause, clauseOf, hrd.unescapes.nil]
    · have hplain : rd.columns (clauseOf (writtenColumns lib ctx.listed)) = some cols := by
        apply hreads.clauseOf hnil
        refine hall.imp fun i c hic => ⟨?_, hic.2.2⟩
        rcases hic.1 with hbare | hquoted
        · exact Or.inl hbare
        · exact Or.inr ⟨_, hquoted, readBody_escaped he c.1 []⟩
      have hiff := hreads.unescape_iff he hrd.unescapes hnil hall
      rw [← hiff]
      constructor
      · rintro ⟨value, hv, hsame, _⟩
        have heq : value = (deriveStructure lib ctx).structureClause :=
          Option.some.inj (hv.symm.trans hvalue)
        have hread := hsame hderived
        rwa [heq, hclause, hplain] at hread
      · intro hread
        apply hagrees
        rw [hclause, hread, hplain]

/-! ### A name that needs escaping -/

/-- Names quoted where they have to be, every type `Int32`. -/
def intNames : PgchNames where
  quoteChIdent := quoteName
  chTypeFor _ _ _ := lit "Int32"

/-- Readers of clauses whose types are words. -/
def wordReaders : ClauseReaders Bytes where
  columns := wordColumns plainEscapes
  unescape := unescapeOnce
  parseTuple text :=
    match wordColumns plainEscapes (text.drop 6).dropLast with
    | some cols => .ok (cols.map fun c => (some c.1, c.2))
    | none => .error { errcode := .invalidParameterValue, errmsg := lit "structure: syntax error" }

theorem wordReaders_agree : wordReaders.Agree where
  unescapes := unescapeOnce_spec
  same {clause fields cols} hparse hnamed := by
    have hclause : ((lit "Tuple(" ++ (clause ++ lit ")")).drop 6).dropLast = clause := by
      have hdrop : (lit "Tuple(" ++ (clause ++ lit ")")).drop 6 = clause ++ lit ")" := rfl
      rw [hdrop]
      exact List.dropLast_concat
    have hall : ∀ cs : List (Bytes × Bytes),
        namedFields (cs.map fun c => (some c.1, c.2)) = some cs := by
      intro cs
      induction cs with
      | nil => rfl
      | cons c cs ih => simp [namedFields, ih]
    simp only [wordReaders, hclause] at hparse
    show wordColumns plainEscapes clause = some cols
    cases hcols : wordColumns plainEscapes clause with
    | none => rw [hcols] at hparse; cases hparse
    | some cs =>
      rw [hcols] at hparse
      cases hparse
      rw [hall cs] at hnamed
      exact hnamed

/-- A copy of one `integer` column to a CSV file. -/
def copyToCsv (name : Bytes) : ChdbCopyContext where
  rel := [intAttribute name]
  attnums := [1]
  scheme := .file
  cmdType := .insert
  url := lit "file:///tmp/out.csv"
  format := lit "CSV"

/-- The query of such a copy. -/
def csvQuery (clause : Bytes) : ChQuery where
  text := lit "INSERT INTO FUNCTION file({path:String}, {format:String}, {structure:String})" ++
    lit " SETTINGS engine_file_truncate_on_insert=1"
  params := [(lit "path", lit "/tmp/out.csv"), (lit "format", lit "CSV"), (lit "structure", clause)]

/-- A bare name means the same to both ends. -/
theorem chdbCopy_structure_agrees_bare :
    StructureAgrees intNames wordReaders (copyToCsv (lit "id")) (csvQuery (lit "id Int32")) ∧
      (StructureAgrees intNames wordReaders (copyToCsv (lit "id")) (csvQuery (lit "id Int32")) ↔
        ∀ attr ∈ (copyToCsv (lit "id")).listed, ReadsRaw plainEscapes attr.attname) := by
  have hquery : chdbCopyQuery intNames (copyToCsv (lit "id"))
      = .ok (csvQuery (lit "id Int32")) := by
    decide +kernel
  have hagrees := chdbCopy_structure_agrees quoteName_writes wordReaders_agree hquery
  have hnothing : NothingEscaped intNames (copyToCsv (lit "id")) := by
    unfold NothingEscaped
    decide +kernel
  refine ⟨hagrees.1 hnothing, ?_⟩
  apply hagrees.2 plainEscapes wordType plainEscapes_spec wordColumns_reads
  · intro attr _
    show backslash ∉ lit "Int32" ∧ ∃ t, wordType (lit "Int32") = some t
    exact ⟨by decide +kernel, lit "Int32", by decide +kernel⟩
  · decide
  · decide +kernel

/-- The column `a"b` is escaped in the clause; `writer_for` reads it back, and chDB, which
    undoes the escape first, reads a name that ends early. -/
theorem chdbCopy_structure_differs :
    ∃ query, chdbCopyQuery intNames (copyToCsv (lit "a\"b")) = .ok query ∧
      query.value (lit "structure") = some (lit "\"a\\\"b\" Int32") ∧
      writerFor wordReaders.parseTuple (lit "\"a\\\"b\" Int32") 1
        = .ok [(lit "a\"b", lit "Int32")] ∧
      wordReaders.columns (wordReaders.unescape (lit "\"a\\\"b\" Int32")) = none ∧
      ¬ StructureAgrees intNames wordReaders (copyToCsv (lit "a\"b")) query := by
  have hquery : chdbCopyQuery intNames (copyToCsv (lit "a\"b"))
      = .ok (csvQuery (lit "\"a\\\"b\" Int32")) := by decide +kernel
  have hvalue := makeChQuery_structure hquery
  have hclause : (deriveStructure intNames (copyToCsv (lit "a\"b"))).structureClause
      = lit "\"a\\\"b\" Int32" := by decide +kernel
  rw [hclause] at hvalue
  have hwriter : writerFor wordReaders.parseTuple (lit "\"a\\\"b\" Int32") 1
      = .ok [(lit "a\"b", lit "Int32")] := by decide +kernel
  have hnone : wordReaders.columns (wordReaders.unescape (lit "\"a\\\"b\" Int32")) = none := by
    decide +kernel
  refine ⟨_, hquery, hvalue, hwriter, hnone, ?_⟩
  rintro ⟨value, hv, _, hinsert⟩
  have heq : value = lit "\"a\\\"b\" Int32" := Option.some.inj (hv.symm.trans hvalue)
  have hread := hinsert rfl [(lit "a\"b", lit "Int32")] (by rw [hclause]; exact hwriter)
  rw [heq, hnone] at hread
  cases hread

end PgChdb
