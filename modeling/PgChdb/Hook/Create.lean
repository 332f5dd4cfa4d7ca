import PgChdb.Hook.Structure

namespace PgChdb

open CText Fallible

/-!
# Options, and columns from a URL

The parts of the hook that ask PostgreSQL for nothing: reading the options of a statement
and turning the columns a `DESCRIBE` reported into column definitions.

* `contextualizeOptions` — the chDB options of a `COPY` or `CREATE TABLE`, into a context;
* `takeUrlOptions`, `checkUrlOptions` — the options that name a URL, and what they exclude;
* `PgchTypes` — the vendored type mapping;
* `urlColumns` — the columns, and the context the copy after them is made with;
* `urlColumns_eq_ok` — what that context says of the columns.
-/

variable {T : Type}

/-! ### Options -/

/-- `DefElem`: an option, and what `defGetString` and `defGetInt64` make of its argument. -/
structure DefElem where
  defname : Bytes
  string : Raises Bytes
  int64 : Raises ℤ

/-- `structure_on_one_line`. -/
def structureOnOneLine (clause : Bytes) : Bytes :=
  clause.map fun c => if c = byte '\n' ∨ c = byte '\r' then byte ' ' else c

/-- `UINT32_MAX`. -/
def uint32Max : ℤ := 4294967295

/-- One turn of `contextualize_options`.  `parseCheck` is `pgch_parse_encoding_check`; the
    options chDB has no use for are collected, or rejected. -/
def contextualizeOption (parseCheck : Bytes → Option PgchEncodingCheck) (collect : Bool)
    (st : ChdbCopyContext × List DefElem) (elem : DefElem) :
    Raises (ChdbCopyContext × List DefElem) :=
  let (ctx, others) := st
  if elem.defname = lit "access_key" then do
    return ({ ctx with accessKey := ← elem.string }, others)
  else if elem.defname = lit "access_secret" then do
    return ({ ctx with accessSecret := ← elem.string }, others)
  else if elem.defname = lit "session_token" then do
    return ({ ctx with sessionToken := ← elem.string }, others)
  else if elem.defname = lit "format" then do
    return ({ ctx with format := ← elem.string }, others)
  else if elem.defname = lit "structure" then do
    return ({ ctx with structureClause := structureOnOneLine (← elem.string) }, others)
  else if elem.defname = lit "compression" then do
    return ({ ctx with compression := ← elem.string }, others)
  else if elem.defname = lit "timeout" then do
    let timeout ← elem.int64
    raiseIf (timeout < 0 ∨ uint32Max < timeout)
      { errcode := .invalidParameterValue
        errmsg := lit "chdb: argument to COPY option \"timeout\" must be a uint32" }
    return ({ ctx with timeout := UInt32.ofNat timeout.toNat }, others)
  else if elem.defname = lit "encoding_check" then do
    let val ← elem.string
    match parseCheck val with
    | some v => return ({ ctx with encodingCheck := v }, others)
    | none =>
      .error { errcode := .fdwInvalidStringFormat
               errmsg := lit "invalid value for option \"encoding_check\": \"" ++ val ++ lit "\""
               errhint := some (lit "Valid values are: fail, truncate, remove, replace") }
  else if collect then return (ctx, others ++ [elem])
  else .error { errcode := .syntaxError
                errmsg := lit "chdb: option \"" ++ elem.defname ++ lit "\" not supported" }

/-- The defaults `contextualize_options` starts from. -/
def defaultOptions (ctx : ChdbCopyContext) : ChdbCopyContext :=
  { ctx with
    accessKey := []
    accessSecret := []
    sessionToken := []
    format := []
    structureClause := []
    compression := []
    timeout := 30000
    encodingCheck := .fail }

/-- `contextualize_options`. -/
def contextualizeOptions (parseCheck : Bytes → Option PgchEncodingCheck) (collect : Bool)
    (ctx : ChdbCopyContext) (options : List DefElem) : Raises (ChdbCopyContext × List DefElem) :=
  options.foldlM (contextualizeOption parseCheck collect) (defaultOptions ctx, [])

/-- `take_url_option`: the value of the first option of that name, and the others. -/
def takeUrlOption (name : Bytes) : List DefElem → Raises (Option Bytes × List DefElem)
  | [] => .ok (none, [])
  | elem :: options =>
    if elem.defname = name then do return (some (← elem.string), options)
    else do
      let (value, rest) ← takeUrlOption name options
      return (value, elem :: rest)

/-- `CHDB_STRUCTURE_FROM`. -/
def structureFromOption : Bytes := lit "structure_from"

/-- `CHDB_COPY_FROM`. -/
def copyFromOption : Bytes := lit "copy_from"

/-- `ColumnDef`, with its number of array dimensions. -/
structure ColumnDef where
  colname : Bytes
  typid : ℕ
  typmod : ℤ
  arrayBounds : ℕ
  isNotNull : Bool
  deriving DecidableEq, Repr

/-- What the hook reads of a `CreateStmt`; of the clauses that define columns otherwise than
    by a list, whether they are there. -/
structure CreateStmt where
  relname : Bytes
  ifNotExists : Bool
  tableElts : List ColumnDef
  inhRelations : Bool
  partbound : Bool
  ofTypename : Bool
  options : List DefElem

/-- `chdbCreateFromURL`. -/
structure ChdbCreateFromURL where
  structureUrl : Option Bytes
  copyUrl : Option Bytes
  deriving DecidableEq, Repr

/-- `chdb_creates_from_url`. -/
def chdbCreatesFromUrl (create : CreateStmt) : Bool :=
  create.options.any fun elem => elem.defname = structureFromOption || elem.defname = copyFromOption

/-- Partitions, inherited tables, typed tables and column lists define columns. -/
def CreateStmt.hasColumns (create : CreateStmt) : Bool :=
  !create.tableElts.isEmpty || create.inhRelations || create.partbound || create.ofTypename

/-- The URL options of `create`, and the options left. -/
def takeUrlOptions (create : CreateStmt) : Raises (CreateStmt × ChdbCreateFromURL) := do
  let (structureUrl, options) ← takeUrlOption structureFromOption create.options
  let (copyUrl, options) ← takeUrlOption copyFromOption options
  return ({ create with options }, { structureUrl, copyUrl })

/-- What the URL options exclude; a table without columns takes them from the URL it loads. -/
def checkUrlOptions (create : CreateStmt) (src : ChdbCreateFromURL) : Raises ChdbCreateFromURL := do
  raiseIf (src.structureUrl.isSome ∧ src.copyUrl.isSome)
    { errcode := .syntaxError
      errmsg := lit "chdb: cannot combine option \"structure_from\" with option \"copy_from\""
      errdetail := some (lit "\"copy_from\" derives the columns from the URL it loads.") }
  raiseIf (src.structureUrl.isSome ∧ create.hasColumns)
    { errcode := .syntaxError
      errmsg := lit "chdb: option \"structure_from\" requires a table that names no columns"
      errdetail := some (lit "A column list, an INHERITS clause, an OF type, or a partition " ++
        lit "each define columns.") }
  return if src.copyUrl.isSome ∧ !create.hasColumns then { src with structureUrl := src.copyUrl }
    else src

/-- `error_if_relation_exists`, for a relation that does. -/
def relationExists (create : CreateStmt) : Ereport :=
  if create.ifNotExists then
    { errcode := .duplicateTable
      errmsg := lit "relation \"" ++ create.relname ++ lit "\" already exists"
      errdetail := some (lit "CREATE TABLE IF NOT EXISTS neither derives columns nor copies " ++
        lit "rows from a URL.")
      errhint := some (lit "Use COPY to load an existing relation.") }
  else
    { errcode := .duplicateTable
      errmsg := lit "relation \"" ++ create.relname ++ lit "\" already exists" }

/-- The names of the options chDB has a use for. -/
def chdbOptions : List Bytes :=
  [lit "access_key", lit "access_secret", lit "session_token", lit "format", lit "structure",
    lit "compression", lit "timeout", lit "encoding_check"]

section
variable {parseCheck : Bytes → Option PgchEncodingCheck} {collect : Bool}
  {st st' : ChdbCopyContext × List DefElem} {elem : DefElem}

/-- An option of chDB's sets one of the defaults, and any other is kept. -/
theorem contextualizeOption_eq_ok (h : contextualizeOption parseCheck collect st elem = .ok st') :
    defaultOptions st'.1 = defaultOptions st.1 ∧
      st'.2 = st.2 ++ [elem].filter (fun elem => elem.defname ∉ chdbOptions) := by
  have hchdb : ∀ {name}, elem.defname = name → name ∈ chdbOptions →
      st.2 = st.2 ++ [elem].filter (fun elem => elem.defname ∉ chdbOptions) := by
    rintro name rfl hmem
    simp [hmem]
  unfold contextualizeOption at h
  dsimp only at h
  -- the options with a text of their own, then the two that are parsed
  iterate 6
    obtain ⟨hname, h⟩ | ⟨_, h⟩ := ite_eq_iff.mp h
    · simp only [bind_eq_ok, pure_eq_ok] at h
      obtain ⟨_, _, rfl⟩ := h
      exact ⟨rfl, hchdb hname (by simp only [chdbOptions, List.mem_cons, true_or, or_true])⟩
  obtain ⟨hname, h⟩ | ⟨_, h⟩ := ite_eq_iff.mp h
  · simp only [bind_eq_ok, pure_eq_ok] at h
    obtain ⟨_, _, _, _, rfl⟩ := h
    exact ⟨rfl, hchdb hname (by simp only [chdbOptions, List.mem_cons, true_or, or_true])⟩
  obtain ⟨hname, h⟩ | ⟨_, h⟩ := ite_eq_iff.mp h
  · rw [bind_eq_ok] at h
    obtain ⟨val, _, hcheck⟩ := h
    split at hcheck
    · rw [← pure_eq_ok.mp hcheck]
      exact ⟨rfl, hchdb hname (by simp only [chdbOptions, List.mem_cons, true_or, or_true])⟩
    · cases hcheck
  obtain ⟨_, h⟩ | ⟨_, h⟩ := ite_eq_iff.mp h
  · rw [← pure_eq_ok.mp h]
    refine ⟨rfl, ?_⟩
    simp [chdbOptions, *]
  · cases h

end

section
variable {parseCheck : Bytes → Option PgchEncodingCheck} {collect : Bool} {ctx : ChdbCopyContext}
  {options : List DefElem} {r : ChdbCopyContext × List DefElem}

/-- Options set options, and nothing else of the context. -/
theorem contextualizeOptions_keeps
    (h : contextualizeOptions parseCheck collect ctx options = .ok r) :
    defaultOptions r.1 = defaultOptions ctx := by
  apply foldlM_ok_induction (P := fun _ st => defaultOptions st.1 = defaultOptions ctx) _ _ h
  · rfl
  · intro _ elem st st' hst hstep
    exact (contextualizeOption_eq_ok hstep).1.trans hst

/-- The options left are those of other names, in their order. -/
theorem contextualizeOptions_others
    (h : contextualizeOptions parseCheck collect ctx options = .ok r) :
    r.2 = options.filter (fun elem => elem.defname ∉ chdbOptions) := by
  apply foldlM_ok_induction
    (P := fun done st => st.2 = done.filter (fun elem => elem.defname ∉ chdbOptions)) _ _ h
  · rfl
  · intro done elem st st' hst hstep
    rw [(contextualizeOption_eq_ok hstep).2, hst, List.filter_append]

end

/-- The option taken is the first of its name, and no other. -/
theorem takeUrlOption_eq (name : Bytes) (options : List DefElem) :
    takeUrlOption name options = match options.find? fun elem => elem.defname = name with
      | none => .ok (none, options)
      | some elem => elem.string >>= fun value =>
        .ok (some value, options.eraseP fun elem => elem.defname = name) := by
  induction options with
  | nil => rfl
  | cons elem options ih =>
    unfold takeUrlOption
    -- taken at the first element of the name
    by_cases hname : elem.defname = name
    · simp only [hname, if_true, List.find?_cons_of_pos, List.eraseP_cons_of_pos, decide_true]
      rfl
    · rw [if_neg hname, ih, List.find?_cons_of_neg (by simpa using hname)]
      cases options.find? fun elem => elem.defname = name with
      | none => rfl
      | some found =>
        rw [List.eraseP_cons_of_neg (by simpa using hname)]
        dsimp only
        cases found.string <;> rfl

theorem takeUrlOption_eq_ok {name : Bytes} {options rest : List DefElem} {value : Option Bytes}
    (h : takeUrlOption name options = .ok (value, rest)) :
    rest = options.eraseP (fun elem => elem.defname = name) ∧
      value.isSome = options.any (fun elem => elem.defname = name) := by
  rw [takeUrlOption_eq] at h
  rw [← List.isSome_find?]
  cases hfind : options.find? fun elem => elem.defname = name with
  | none =>
    rw [hfind] at h
    cases h
    exact ⟨(List.eraseP_of_forall_not (List.find?_eq_none.mp hfind)).symm, rfl⟩
  | some elem =>
    rw [hfind] at h
    obtain ⟨url, _, heq⟩ := bind_eq_ok.mp h
    cases heq
    exact ⟨rfl, rfl⟩

/-- A statement is loaded from a URL when it has the option for one. -/
theorem takeUrlOptions_copyUrl {create create' : CreateStmt} {urls urls' : ChdbCreateFromURL}
    (h : takeUrlOptions create = .ok (create', urls))
    (hcheck : checkUrlOptions create' urls = .ok urls')
    (hcopy : ∃ elem ∈ create.options, elem.defname = copyFromOption) :
    ∃ url, urls'.copyUrl = some url := by
  simp only [takeUrlOptions, bind_eq_ok, pure_eq_ok] at h
  obtain ⟨⟨structureUrl, options⟩, hstructure, ⟨copyUrl, rest⟩, hfrom, heq⟩ := h
  cases heq
  obtain ⟨rfl, _⟩ := takeUrlOption_eq_ok hstructure
  obtain ⟨_, hsome⟩ := takeUrlOption_eq_ok hfrom
  obtain ⟨elem, hmem, hname⟩ := hcopy
  -- taking `structure_from` leaves it
  have hleft : elem ∈ create.options.eraseP (fun elem => elem.defname = structureFromOption) := by
    refine (List.mem_eraseP_of_neg ?_).mpr hmem
    rw [hname]
    decide
  have hany : copyUrl.isSome = true := by
    rw [hsome, List.any_eq_true]
    exact ⟨elem, hleft, by simpa using hname⟩
  obtain ⟨url, rfl⟩ := Option.isSome_iff_exists.mp hany
  simp only [checkUrlOptions, bind_eq_ok, pure_eq_ok] at hcheck
  obtain ⟨_, _, _, _, rfl⟩ := hcheck
  exact ⟨url, by split <;> rfl⟩

/-- A table that names no columns and is loaded from a URL takes its columns from there. -/
theorem checkUrlOptions_structureUrl {create : CreateStmt} {urls urls' : ChdbCreateFromURL}
    (h : checkUrlOptions create urls = .ok urls') (hcolumns : create.hasColumns = false)
    {url : Bytes} (hurl : urls'.copyUrl = some url) : urls'.structureUrl = some url := by
  simp only [checkUrlOptions, bind_eq_ok, pure_eq_ok] at h
  obtain ⟨_, _, _, _, rfl⟩ := h
  split at hurl
  · rename_i hcopy
    rw [if_pos hcopy]
    exact hurl
  · rename_i hcopy
    simp [hurl, hcolumns] at hcopy

/-! ### Columns -/

/-- `pgch_pg_type`; a type id of zero is none. -/
structure PgchPgType where
  typid : ℕ
  typmod : ℤ
  ndims : ℕ
  nullable : Bool
  deriving DecidableEq, Repr

/-- The vendored type mapping: `chc_type_parse`, raising what `pgch_raise` makes of a failure
    at a column; whether `chc_type_kind` is `CHC_NESTED`; `pgch_pg_type_for`; and
    `pgch_pg_type_is_column`. -/
structure PgchTypes (T : Type) extends PgchNames where
  parseType : Bytes → Bytes → Raises T
  isNested : T → Bool
  pgTypeFor : T → Bytes → Raises PgchPgType
  isColumn : PgchPgType → Bool

/-- `TEXTARRAYOID`. -/
def textArrayOid : ℕ := 1009

/-- A pseudo type, turned into the array of text a table column can have.  The notice about
    it is left out. -/
def asColumnType (lib : PgchTypes T) (type : PgchPgType) : PgchPgType :=
  if type.typid ≠ 0 ∧ !lib.isColumn type then
    { type with typid := textArrayOid, typmod := -1, ndims := type.ndims + 1 }
  else type

/-- The definition of a described column. -/
def columnDefFor (lib : PgchTypes T) (described : ChdbDescribedColumn) (type : PgchPgType) :
    Raises ColumnDef := do
  let type := asColumnType lib type
  raiseIf (!lib.isColumn type)
    { errcode := .featureNotSupported
      errmsg := lit "chdb: no Postgres type for column \"" ++ described.name ++
        lit "\" of type \"" ++ described.type ++ lit "\""
      errhint := some (lit "Use a \"structure\" option that maps the column to String.") }
  return { colname := described.name, typid := type.typid, typmod := type.typmod
           arrayBounds := type.ndims, isNotNull := !type.nullable }

/-- What the loop of `chdb_url_columns` carries. -/
structure UrlColumns where
  structureText : Bytes := []
  preserveNested : Bool
  columns : List ColumnDef := []

/-- `where`: how errors name a described column. -/
def columnPlace (described : ChdbDescribedColumn) : Bytes :=
  lit "column \"" ++ described.name ++ lit "\""

/-- One described column. -/
def urlColumn (lib : PgchTypes T) (inferStructure : Bool) (st : UrlColumns)
    (described : ChdbDescribedColumn) : Raises UrlColumns := do
  let parsed ← lib.parseType described.type (columnPlace described)
  let type ← lib.pgTypeFor parsed (columnPlace described)
  let text := columnText (lib.quoteChIdent described.name) described.type
  let column ← columnDefFor lib described type
  return { structureText := if !inferStructure then st.structureText
             else if st.structureText = [] then text else st.structureText ++ lit ", " ++ text
           preserveNested := st.preserveNested || (inferStructure && lib.isNested parsed)
           columns := st.columns ++ [column] }

/-- The structure was left to chDB. -/
def ChdbCopyContext.infersStructure (ctx : ChdbCopyContext) : Bool :=
  ctx.structureClause = [] || ctx.structureClause = lit "auto"

/-- `chdb_url_columns`, given what `chdb_describe` returned: the columns, and the context
    with the structure that was inferred, its backslashes doubled for chDB to undo. -/
def urlColumns (lib : PgchTypes T) (ctx : ChdbCopyContext) (described : List ChdbDescribedColumn) :
    Raises (List ColumnDef × ChdbCopyContext) := do
  let st ← described.foldlM (urlColumn lib ctx.infersStructure)
    { preserveNested := ctx.preserveNested }
  raiseIf (st.columns = [])
    { errcode := .invalidParameterValue
      errmsg := lit "chdb: no columns found at \"" ++ ctx.url ++ lit "\"" }
  return (st.columns,
    { ctx with
      structureClause :=
        if ctx.infersStructure then doubled backslash st.structureText else ctx.structureClause
      preserveNested := st.preserveNested })

/-- The context of the `DESCRIBE`: a structure that was not given is asked for. -/
def describeContext (ctx : ChdbCopyContext) : ChdbCopyContext :=
  { ctx with
    cmdType := .describe
    structureClause := if ctx.structureClause = [] then lit "auto" else ctx.structureClause }

/-! ### The context the copy is made with -/

/-- A described column is a top-level `Nested`. -/
def PgchTypes.describesNested (lib : PgchTypes T) (described : ChdbDescribedColumn) : Bool :=
  match lib.parseType described.type (columnPlace described) with
  | .ok parsed => lib.isNested parsed
  | .error _ => false

/-- Described columns as the inferred clause writes them. -/
def describedItems (lib : PgchNames) (described : List ChdbDescribedColumn) :
    List (Bytes × Bytes) :=
  described.map fun d => (lib.quoteChIdent d.name, d.type)

/-- What the loop has made of the columns so far. -/
structure UrlColumns.Made (lib : PgchTypes T) (ctx : ChdbCopyContext)
    (done : List ChdbDescribedColumn) (st : UrlColumns) : Prop where
  names : st.columns.map ColumnDef.colname = done.map ChdbDescribedColumn.name
  text : ctx.infersStructure → st.structureText = clauseOf (describedItems lib.toPgchNames done)
  nested : st.preserveNested
    = (ctx.preserveNested || (ctx.infersStructure && done.any lib.describesNested))
  parsed : ∀ d ∈ done, ∃ t, lib.parseType d.type (columnPlace d) = .ok t

theorem columnDefFor_colname {lib : PgchTypes T} {described : ChdbDescribedColumn}
    {type : PgchPgType} {column : ColumnDef} (h : columnDefFor lib described type = .ok column) :
    column.colname = described.name := by
  simp only [columnDefFor, bind_eq_ok, pure_eq_ok] at h
  obtain ⟨_, _, rfl⟩ := h
  rfl

/-- One more column. -/
theorem urlColumn_made {lib : PgchTypes T} {ctx : ChdbCopyContext}
    {done : List ChdbDescribedColumn} {d : ChdbDescribedColumn} {st st' : UrlColumns}
    (hmade : st.Made lib ctx done) (h : urlColumn lib ctx.infersStructure st d = .ok st') :
    st'.Made lib ctx (done ++ [d]) := by
  simp only [urlColumn, bind_eq_ok, pure_eq_ok] at h
  obtain ⟨parsed, hparsed, type, _, column, hcolumn, rfl⟩ := h
  have hd : lib.describesNested d = lib.isNested parsed := by
    simp only [PgchTypes.describesNested, hparsed]
  constructor
  · simp [hmade.names, columnDefFor_colname hcolumn]
  · intro hinfer
    have hitems : describedItems lib.toPgchNames (done ++ [d])
        = describedItems lib.toPgchNames done ++ [(lib.quoteChIdent d.name, d.type)] := by
      simp [describedItems]
    rw [hitems, hmade.text hinfer]
    -- the first column has no comma in front
    by_cases hnil : done = []
    · simp [hinfer, hnil, describedItems, clauseOf]
    · have hne : describedItems lib.toPgchNames done ≠ [] := by simpa [describedItems] using hnil
      simp [hinfer, clauseOf_ne_nil hne, clauseOf_concat hne]
  · simp [hmade.nested, hd, Bool.and_or_distrib_left, Bool.or_assoc]
  · intro e he
    rcases List.mem_append.mp he with hmem | hlast
    · exact hmade.parsed e hmem
    · rw [List.mem_singleton] at hlast
      exact ⟨parsed, hlast ▸ hparsed⟩

/-- **What a copy is left to work with.**  There is a column for each one described, and the
    context changes only by the inferred structure and whether it has a top-level `Nested`. -/
theorem urlColumns_eq_ok {lib : PgchTypes T} {ctx ctx' : ChdbCopyContext}
    {described : List ChdbDescribedColumn} {columns : List ColumnDef}
    (h : urlColumns lib ctx described = .ok (columns, ctx')) :
    described ≠ [] ∧ columns.map ColumnDef.colname = described.map ChdbDescribedColumn.name ∧
      (∀ d ∈ described, ∃ t, lib.parseType d.type (columnPlace d) = .ok t) ∧
      ctx' = { ctx with
        structureClause := if ctx.infersStructure then
            doubled backslash (clauseOf (describedItems lib.toPgchNames described))
          else ctx.structureClause
        preserveNested :=
          ctx.preserveNested || (ctx.infersStructure && described.any lib.describesNested) } := by
  simp only [urlColumns, bind_eq_ok, pure_eq_ok, raiseIf_eq_ok] at h
  obtain ⟨st, hloop, _, hne, heq⟩ := h
  cases heq
  have hmade : st.Made lib ctx described := by
    apply foldlM_ok_induction (P := fun done st => st.Made lib ctx done) _ _ hloop
    · exact ⟨rfl, fun _ => rfl, by simp, by simp⟩
    · intro done d s s' hs hstep
      exact urlColumn_made hs hstep
  -- without a column the loop would have raised
  have hdescribed : described ≠ [] := by
    rintro rfl
    exact hne (List.map_eq_nil_iff.mp hmade.names)
  refine ⟨hdescribed, hmade.names, hmade.parsed, ?_⟩
  by_cases hinfer : ctx.infersStructure = true
  · simp [hinfer, hmade.text hinfer, hmade.nested]
  · simp [hinfer, hmade.nested]

end PgChdb
