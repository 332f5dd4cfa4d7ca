import PgChdb.Lib.Effects
import PgChdb.Hook.Create

namespace PgChdb

open CText Fallible Effects

/-!
# The hook

`chDBProcessUtilityHook` takes over a `COPY` of a relation from or to a URL and a
`CREATE TABLE` with a URL option, and leaves every other statement to PostgreSQL.  What it
asks of PostgreSQL and of the helper is a `HookEvent`; what they answer, which may depend on
all the events so far, is a `HookServer`.

* `openCopyRelation` — the relation of a copy, with the checks of `DoCopy`;
* `chdbCopy`, `chdbDescribe` — the two ways a helper is used;
* `createColumnsFromUrl`, `copyUrlInto` — the two halves of a `CREATE TABLE`;
* `chDBProcessUtilityHook` — the hook;
* `optionUrlScheme_wp`, `openCopyRelation_wp` — what the checks have recorded when they
  return; `chdbCopy_wp` — what a copy has.
-/

variable {T : Type}

/-! ### Statements and events -/

/-- `CopyStmt`; a query in place of a relation is none, as is a missing file name. -/
structure CopyStmt where
  relation : Option Bytes
  attlist : List Bytes
  isFrom : Bool
  isProgram : Bool
  filename : Option Bytes
  whereClause : Bool
  options : List DefElem

/-- The statements the hook tells apart. -/
inductive UtilityStmt where
  | copy (copy : CopyStmt)
  | create (create : CreateStmt)
  | other

/-- A locked relation. -/
structure CopyRelation where
  relname : Bytes
  relkind : UInt8
  attrs : List FormPgAttribute
  deriving DecidableEq, Repr

/-- What the hook asks for, with the answers it gets.  `chdbCopy` is `chdb_copy` entered with
    a context and `startHelper` is `chdb_helper_start`; `described` is a `DESCRIBE` read to its
    end and the helper finished, `copied` the same of a copy. -/
inductive HookEvent where
  | preventCommandIfReadOnly (command : Bytes)
  | hasPrivsOfRole (isFrom : Bool) (has : Bool)
  | relnameLookup (relname : Bytes) (found : Bool)
  | tableOpen (isFrom : Bool) (rel : CopyRelation)
  | execCheckPermissions (rel : CopyRelation) (isFrom : Bool) (attnums : List ℕ)
  | checkEnableRls (rel : CopyRelation) (enabled : Bool)
  | chdbCopy (ctx : ChdbCopyContext)
  | startHelper (hcx : ChdbHelperContext) (query : ChQuery)
  | described (columns : List ChdbDescribedColumn)
  | copied (rows : ℕ)
  | prevProcessUtility (stmt : UtilityStmt)
  | commandCounterIncrement
  | setQueryCompletion (rows : ℕ)
  | tableClose

/-- What PostgreSQL and the helper do. -/
structure HookServer where
  call : List HookEvent → HookEvent → Raises Unit
  hasPrivsOfRole : List HookEvent → Bool → Raises Bool
  relnameLookup : List HookEvent → Bytes → Raises Bool
  tableOpen : List HookEvent → Bytes → Bool → Raises CopyRelation
  copyGetAttnums : CopyRelation → List Bytes → Raises (List ℕ)
  checkEnableRls : List HookEvent → CopyRelation → Raises Bool
  relkindNotSupported : UInt8 → Bytes
  described : List HookEvent → Raises (List ChdbDescribedColumn)
  copied : List HookEvent → Raises ℕ

/-- The build, the session's limits as the contexts hold them, and
    `pgch_parse_encoding_check`. -/
structure HookConfig where
  noFileScheme : Bool
  maxMemory : UInt16
  maxThreads : UInt16
  maxParsers : UInt16
  parseCheck : Bytes → Option PgchEncodingCheck

/-- A context with nothing but the limits. -/
def HookConfig.context (cfg : HookConfig) : ChdbCopyContext where
  maxMemory := cfg.maxMemory
  maxThreads := cfg.maxThreads
  maxParsers := cfg.maxParsers

/-- The hook, over those events. -/
abbrev Hook := Proc Ereport HookEvent

/-! ### Privileges and relations -/

/-- `check_server_file_privileges`. -/
def checkServerFilePrivileges (srv : HookServer) (isFrom : Bool) : Hook Unit := do
  let has ← ask (fun h => srv.hasPrivsOfRole h isFrom) (fun has => .hasPrivsOfRole isFrom has)
  lift (raiseIf (!has)
    (if isFrom then
      { errcode := .insufficientPrivilege
        errmsg := lit "chdb: permission denied to COPY from a file"
        errdetail := some (lit "Only roles with privileges of the \"pg_read_server_files\" role " ++
          lit "may COPY from a file.") }
    else
      { errcode := .insufficientPrivilege
        errmsg := lit "chdb: permission denied to COPY to a file"
        errdetail := some (lit "Only roles with privileges of the \"pg_write_server_files\" role " ++
          lit "may COPY to a file.") }))

/-- `open_copy_relation`, as the context with the relation and its copied columns. -/
def openCopyRelation (srv : HookServer) (relation : Bytes) (attlist : List Bytes) (isFrom : Bool)
    (ctx : ChdbCopyContext) : Hook ChdbCopyContext := do
  let rel ← ask (fun h => srv.tableOpen h relation isFrom) (fun rel => .tableOpen isFrom rel)
  let attnums ← lift (srv.copyGetAttnums rel attlist)
  call srv.call (.execCheckPermissions rel isFrom attnums)
  let enabled ← ask (fun h => srv.checkEnableRls h rel) (fun enabled => .checkEnableRls rel enabled)
  lift (raiseIf enabled
    { errcode := .featureNotSupported
      errmsg := lit "chdb: COPY " ++ (if isFrom then lit "FROM" else lit "TO") ++
        lit " not supported with row-level security"
      errdetail := some (lit "Row-level security policies apply to relation \"" ++ rel.relname ++
        lit "\" for this role.") })
  -- a COPY TO scans storage directly
  lift (raiseIf (!isFrom && rel.relkind ≠ byte 'r')
    { errcode := .wrongObjectType
      errmsg := lit "chdb: cannot copy from relation \"" ++ rel.relname ++ lit "\""
      errdetail := some (srv.relkindNotSupported rel.relkind) })
  return { ctx with rel := rel.attrs, attnums }

/-! ### Queries -/

/-- The helper context of a query. -/
def ChdbCopyContext.helper (ctx : ChdbCopyContext) : ChdbHelperContext where
  cmd := ctx.cmdType
  maxMemory := ctx.maxMemory
  maxThreads := ctx.maxThreads
  maxParsers := ctx.maxParsers

/-- `chdb_copy`. -/
def chdbCopy (srv : HookServer) (lib : PgchNames) (ctx : ChdbCopyContext) : Hook ℕ := do
  -- entered: whatever is raised from here on, the copy was asked for
  note (.chdbCopy ctx)
  let query ← lift (chdbCopyQuery lib ctx)
  call srv.call (.startHelper ctx.helper query)
  ask srv.copied .copied

/-- `chdb_describe`. -/
def chdbDescribe (srv : HookServer) (ctx : ChdbCopyContext) : Hook (List ChdbDescribedColumn) := do
  let query ← lift (makeChQuery (describeContext ctx))
  call srv.call (.startHelper (describeContext ctx).helper query)
  ask srv.described .described

/-! ### `CREATE TABLE` -/

/-- `option_url_scheme`. -/
def optionUrlScheme (srv : HookServer) (cfg : HookConfig) (url option : Bytes) : Hook Scheme :=
  match schemeFor cfg.noFileScheme (some url) with
  | none => lift (.error
      { errcode := .featureNotSupported
        errmsg := lit "chdb: cannot read URL \"" ++ url ++ lit "\" specified by option \"" ++
          option ++ lit "\"" })
  | some scheme => do
    onlyIf (scheme = .file) (checkServerFilePrivileges srv true)
    return scheme

/-- `create_columns_from_url`, as the statement, its URLs and the context for the copy. -/
def createColumnsFromUrl (srv : HookServer) (cfg : HookConfig) (lib : PgchTypes T)
    (create : CreateStmt) (ctx : ChdbCopyContext) :
    Hook (CreateStmt × ChdbCreateFromURL × ChdbCopyContext) := do
  -- both options are taken, and checked against each other, before anything is asked
  let (create, urls) ← lift (takeUrlOptions create)
  let urls ← lift (checkUrlOptions create urls)
  let found ← ask (fun h => srv.relnameLookup h create.relname)
    (fun found => .relnameLookup create.relname found)
  lift (raiseIf found (relationExists create))
  -- what is left over are PostgreSQL's storage parameters
  let (ctx, storage) ← lift (contextualizeOptions cfg.parseCheck true ctx create.options)
  match urls.structureUrl with
  | none => return ({ create with options := storage }, urls, ctx)
  | some url =>
    let scheme ← optionUrlScheme srv cfg url structureFromOption
    let ctx := { ctx with url, scheme }
    let described ← chdbDescribe srv ctx
    let (columns, ctx) ← lift (urlColumns lib ctx described)
    return ({ create with options := storage, tableElts := columns }, urls, ctx)

/-- `copy_url_into`. -/
def copyUrlInto (srv : HookServer) (cfg : HookConfig) (lib : PgchNames) (relname url : Bytes)
    (ctx : ChdbCopyContext) : Hook Unit := do
  let scheme ← optionUrlScheme srv cfg url copyFromOption
  -- the table has to be visible before it can be opened
  call srv.call .commandCounterIncrement
  let ctx ← openCopyRelation srv relname [] true { ctx with url, scheme, cmdType := .select }
  let _ ← chdbCopy srv lib ctx
  call srv.call .tableClose

/-- The hook's branch for a `CREATE TABLE` with a URL option. -/
def createFromUrl (srv : HookServer) (cfg : HookConfig) (lib : PgchTypes T) (create : CreateStmt) :
    Hook Unit := do
  call srv.call (.preventCommandIfReadOnly (lit "CREATE TABLE"))
  let (create, urls, ctx) ← createColumnsFromUrl srv cfg lib create cfg.context
  -- the table, with the options and columns it is left with
  call srv.call (.prevProcessUtility (.create create))
  match urls.copyUrl with
  | some url => copyUrlInto srv cfg lib.toPgchNames create.relname url ctx
  | none => return ()

/-- The hook's branch for a `COPY` of a relation from or to a URL. -/
def copyFromUrl (srv : HookServer) (cfg : HookConfig) (lib : PgchNames) (copy : CopyStmt)
    (relation url : Bytes) (scheme : Scheme) : Hook Unit := do
  lift (raiseIf copy.whereClause
    { errcode := .featureNotSupported
      errmsg := lit "chdb: COPY FROM a URL not supported with a WHERE clause" })
  onlyIf copy.isFrom (call srv.call (.preventCommandIfReadOnly (lit "COPY FROM")))
  onlyIf (scheme = .file) (checkServerFilePrivileges srv copy.isFrom)
  let cmdType := if copy.isFrom then .select else .insert
  let ctx ← openCopyRelation srv relation copy.attlist copy.isFrom
    { cfg.context with scheme, cmdType, url }
  let (ctx, _) ← lift (contextualizeOptions cfg.parseCheck false ctx copy.options)
  let rows ← chdbCopy srv lib ctx
  call srv.call (.setQueryCompletion rows)
  call srv.call .tableClose

/-- `chDBProcessUtilityHook`. -/
def chDBProcessUtilityHook (srv : HookServer) (cfg : HookConfig) (lib : PgchTypes T)
    (stmt : UtilityStmt) : Hook Unit :=
  match stmt with
  | .copy copy =>
    match copy.relation, copy.filename, schemeFor cfg.noFileScheme copy.filename with
    | some relation, some url, some scheme =>
      -- PostgreSQL gates a program on a role of its own
      if copy.isProgram then call srv.call (.prevProcessUtility stmt)
      else copyFromUrl srv cfg lib.toPgchNames copy relation url scheme
    | _, _, _ => call srv.call (.prevProcessUtility stmt)
  | .create create =>
    if chdbCreatesFromUrl create then createFromUrl srv cfg lib create
    else call srv.call (.prevProcessUtility stmt)
  | .other => call srv.call (.prevProcessUtility stmt)

/-! ### What the steps record -/

/-- Asked about a role or a relation. -/
def HookEvent.isCheck : HookEvent → Bool
  | .hasPrivsOfRole _ _ => true
  | .tableOpen _ _ => true
  | .execCheckPermissions _ _ _ => true
  | .checkEnableRls _ _ => true
  | _ => false

section
variable (srv : HookServer) (h : List HookEvent)

/-- A role that passes has the privileges. -/
theorem checkServerFilePrivileges_wp (isFrom : Bool) :
    wp (checkServerFilePrivileges srv isFrom) (fun _ t => t = h ++ [.hasPrivsOfRole isFrom true])
      (Grown HookEvent.isCheck h) h := by
  unfold checkServerFilePrivileges
  rw [wp_bind]
  refine wp_ask (fun has _ => ?_) (Grown.refl h)
  refine wp_lift (fun _ hpass => ?_) (Grown.single rfl h)
  -- the role that was asked about is the one that passed
  have hhas : has = true := by simpa using raiseIf_eq_ok.mp hpass
  rw [hhas]

/-- A URL on a server file passes for a role that may read one. -/
theorem optionUrlScheme_wp (cfg : HookConfig) (url option : Bytes) :
    wp (optionUrlScheme srv cfg url option)
      (fun scheme t => schemeFor cfg.noFileScheme (some url) = some scheme ∧
        Grown HookEvent.isCheck h t ∧ (scheme = .file → .hasPrivsOfRole true true ∈ t))
      (Grown HookEvent.isCheck h) h := by
  unfold optionUrlScheme
  cases hs : schemeFor cfg.noFileScheme (some url) with
  | none => exact wp_lift (fun _ hb => by cases hb) (Grown.refl h)
  | some scheme =>
    rw [wp_bind]
    refine wp_onlyIf (fun _ => ?_) (fun hfile => ?_)
    · refine wp_mono (checkServerFilePrivileges_wp srv h true) (fun _ t ht => ?_) fun _ ht => ht
      subst ht
      exact ⟨rfl, Grown.single rfl h, fun _ => by simp⟩
    · exact ⟨rfl, Grown.refl h, fun hscheme => absurd hscheme hfile⟩

/-- An opened relation passed every check of `DoCopy`, in this order. -/
theorem openCopyRelation_wp (relation : Bytes) (attlist : List Bytes) (isFrom : Bool)
    (ctx : ChdbCopyContext) :
    wp (openCopyRelation srv relation attlist isFrom ctx)
      (fun ctx' t => ∃ rel attnums, srv.tableOpen h relation isFrom = .ok rel ∧
        ctx' = { ctx with rel := rel.attrs, attnums } ∧
        t = h ++ [.tableOpen isFrom rel, .execCheckPermissions rel isFrom attnums,
          .checkEnableRls rel false] ∧ (isFrom = false → rel.relkind = byte 'r'))
      (Grown HookEvent.isCheck h) h := by
  unfold openCopyRelation
  rw [wp_bind]
  refine wp_ask (fun rel hrel => ?_) (Grown.refl h)
  have hopened : Grown HookEvent.isCheck h (h ++ [.tableOpen isFrom rel]) := Grown.single rfl h
  rw [wp_bind]
  refine wp_lift (fun attnums _ => ?_) hopened
  rw [wp_bind]
  have hchecked := hopened.trans
    (Grown.single (p := HookEvent.isCheck) (e := .execCheckPermissions rel isFrom attnums) rfl _)
  refine wp_call ?_ hchecked
  rw [wp_bind]
  refine wp_ask (fun enabled _ => ?_) hchecked
  have hrls := hchecked.trans
    (Grown.single (p := HookEvent.isCheck) (e := .checkEnableRls rel enabled) rfl _)
  rw [wp_bind]
  refine wp_lift (fun _ hpolicies => ?_) hrls
  -- past the two tests no policy applies, and a relation to be read is a table
  have hdisabled : enabled = false := by simpa using raiseIf_eq_ok.mp hpolicies
  rw [wp_bind]
  refine wp_lift (fun _ hkind => ?_) hrls
  refine ⟨rel, attnums, hrel, rfl, by simp [hdisabled], fun hto => ?_⟩
  simpa [hto] using raiseIf_eq_ok.mp hkind

end

/-- Neither a statement PostgreSQL is to run nor a copy that is done. -/
def HookEvent.prepares : HookEvent → Bool
  | .prevProcessUtility _ => false
  | .copied _ => false
  | _ => true

theorem HookEvent.prepares_of_isCheck (e : HookEvent) (he : e.isCheck = true) :
    e.prepares = true := by
  cases e <;> first | rfl | cases he

/-- No statement PostgreSQL is to run. -/
def HookEvent.inner : HookEvent → Bool
  | .prevProcessUtility _ => false
  | _ => true

theorem HookEvent.inner_of_prepares (e : HookEvent) (he : e.prepares = true) :
    e.inner = true := by
  cases e <;> first | rfl | cases he

section
variable (srv : HookServer)

theorem checkServerFilePrivileges_only (isFrom : Bool) :
    Only HookEvent.isCheck (checkServerFilePrivileges srv isFrom) :=
  Only.bind (Only.ask fun _ => rfl) fun _ => Only.lift _

theorem optionUrlScheme_only (cfg : HookConfig) (url option : Bytes) :
    Only HookEvent.isCheck (optionUrlScheme srv cfg url option) :=
  fun h => wp_mono (optionUrlScheme_wp srv h cfg url option) (fun _ _ ht => ht.2.1) fun _ ht => ht

theorem openCopyRelation_only (relation : Bytes) (attlist : List Bytes) (isFrom : Bool)
    (ctx : ChdbCopyContext) :
    Only HookEvent.isCheck (openCopyRelation srv relation attlist isFrom ctx) := by
  intro h
  refine wp_mono (openCopyRelation_wp srv h relation attlist isFrom ctx) (fun _ t ht => ?_)
    fun _ ht => ht
  obtain ⟨rel, attnums, _, _, rfl, _⟩ := ht
  exact ⟨_, rfl, by simp [HookEvent.isCheck]⟩

theorem chdbDescribe_only (ctx : ChdbCopyContext) :
    Only HookEvent.prepares (chdbDescribe srv ctx) :=
  Only.bind (Only.lift _) fun _ => Only.bind (Only.call rfl) fun _ => Only.ask fun _ => rfl

/-- A copy is done when it returns, and not before. -/
theorem chdbCopy_wp (lib : PgchNames) (ctx : ChdbCopyContext) (h : List HookEvent) :
    wp (chdbCopy srv lib ctx)
      (fun rows t => ∃ u, Grown HookEvent.prepares h u ∧ t = u ++ [.copied rows])
      (Grown HookEvent.prepares h) h := by
  unfold chdbCopy
  have hentered : Grown HookEvent.prepares h (h ++ [.chdbCopy ctx]) := Grown.single rfl h
  rw [wp_bind, wp_note, wp_bind]
  refine wp_lift (fun query _ => ?_) hentered
  have hstarted := hentered.trans
    (Grown.single (p := HookEvent.prepares) (e := .startHelper ctx.helper query) rfl _)
  rw [wp_bind]
  refine wp_call ?_ hstarted
  exact wp_ask (fun rows _ => ⟨_, hstarted, rfl⟩) hstarted

/-- Whatever a copy does, it has PostgreSQL run no statement. -/
theorem chdbCopy_only (lib : PgchNames) (ctx : ChdbCopyContext) :
    Only HookEvent.inner (chdbCopy srv lib ctx) := by
  intro h
  refine wp_mono (chdbCopy_wp srv lib ctx h) (fun rows t ht => ?_)
    fun t ht => ht.weaken HookEvent.inner_of_prepares
  obtain ⟨u, hu, rfl⟩ := ht
  exact (hu.weaken HookEvent.inner_of_prepares).trans (Grown.single rfl u)

theorem copyUrlInto_only (cfg : HookConfig) (lib : PgchNames) (relname url : Bytes)
    (ctx : ChdbCopyContext) : Only HookEvent.inner (copyUrlInto srv cfg lib relname url ctx) := by
  have hchecks : ∀ e : HookEvent, e.isCheck = true → e.inner = true :=
    fun e he => e.inner_of_prepares (e.prepares_of_isCheck he)
  unfold copyUrlInto
  refine Only.bind ((optionUrlScheme_only srv cfg url copyFromOption).mono hchecks) fun scheme => ?_
  refine Only.bind (Only.call rfl) fun _ => ?_
  refine Only.bind ((openCopyRelation_only srv relname [] true _).mono hchecks) fun sel => ?_
  exact Only.bind (chdbCopy_only srv lib sel) fun _ => Only.call rfl

end

end PgChdb
