import PgChdb.Lib.Fallible
import PgChdb.Lib.Text
import PgChdb.Native.Convert
import PgChdb.Setup.Payload

namespace PgChdb

open CText Fallible

/-!
# From a copy to a chDB query

`make_ch_query` turns the context a `COPY` or `CREATE TABLE` fills into the text of a query
over a chDB table function and the parameters its placeholders stand for.

* `Scheme`, `schemeFor` — the URL schemes and the one a file name begins with;
* `ChdbCopyContext` — what the statement says;
* `ChQuery` — a query and its parameters;
* `schemeArguments` — the arguments of each table function, with the URLs some of them
  are rewritten to (`parseAzureUrl`, `objectStoreUrl`, `getLocalPathFromFileUrl`);
* `schemeSettings`, `commandSettings` — what follows the arguments;
* `makeChQuery` — the query; `makeChQuery_eq_ok` takes it apart again.
-/

/-! ### Schemes -/

/-- `scheme`; `no_scheme` is the absence of one. -/
inductive Scheme where
  | http
  | s3
  | gcs
  | az
  | abfs
  | hdfs
  | file
  deriving DecidableEq, Repr

/-- `scheme_name`. -/
def Scheme.names : Scheme → List Bytes
  | .http => [lit "http", lit "https"]
  | .s3 => [lit "s3"]
  | .gcs => [lit "gs", lit "gcs", lit "oss"]
  | .az => [lit "az", lit "azure"]
  | .abfs => [lit "abfs", lit "abfss"]
  | .hdfs => [lit "hdfs"]
  | .file => [lit "file"]

/-- `table_function`. -/
def Scheme.tableFunction : Scheme → Bytes
  | .http => lit "url"
  | .s3 => lit "s3"
  | .gcs => lit "gcs"
  | .az => lit "azureBlobStorage"
  | .abfs => lit "azureBlobStorage"
  | .hdfs => lit "hdfs"
  | .file => lit "file"

/-- The schemes below `CHDB_NO_SCHEME`, which is `file_scheme` in a build with
    `CHDB_NO_FILE_SCHEME`. -/
def schemes (noFileScheme : Bool) : List Scheme :=
  [.http, .s3, .gcs, .az, .abfs, .hdfs] ++ if noFileScheme then [] else [.file]

/-- `scheme_for`; a `NULL` file name is none. -/
def schemeFor (noFileScheme : Bool) (str : Option Bytes) : Option Scheme := do
  let (name, _) ← strstr (lit "://") (← str)
  (schemes noFileScheme).find? fun sch => sch.names.contains name

/-! ### The context -/

/-- `pgch_encoding_check`. -/
inductive PgchEncodingCheck where
  | fail
  | truncate
  | remove
  | replace
  deriving DecidableEq, Repr

/-- `chdbCopyContext`.  The relation is its attributes, and the columns the copy lists
    count from 1; the range table and the permissions do not reach the query. -/
structure ChdbCopyContext where
  rel : List FormPgAttribute := []
  attnums : List ℕ := []
  scheme : Scheme := .http
  cmdType : ChdbCmdType := .select
  timeout : UInt32 := 0
  maxMemory : UInt16 := 0
  maxThreads : UInt16 := 0
  maxParsers : UInt16 := 0
  encodingCheck : PgchEncodingCheck := .fail
  url : Bytes := []
  accessKey : Bytes := []
  accessSecret : Bytes := []
  sessionToken : Bytes := []
  format : Bytes := []
  structureClause : Bytes := []
  compression : Bytes := []
  preserveNested : Bool := false
  deriving DecidableEq, Repr

/-! ### Comparing without case -/

/-- An ASCII letter in lower case. -/
def asciiLower (c : UInt8) : UInt8 := if byte 'A' ≤ c && c ≤ byte 'Z' then c + 32 else c

/-- `pg_strcasecmp(a, b) == 0`, one of the two being ASCII. -/
def pgStrcaseEq (a b : Bytes) : Bool := a.map asciiLower = b.map asciiLower

/-! ### Rewritten URLs -/

/-- `"chdb: malformed %s URL %s"`, which the hook has excluded. -/
def malformedUrl (what url : Bytes) : Ereport where
  errcode := .internalError
  errmsg := lit "chdb: malformed " ++ what ++ lit " URL " ++ url

/-- What follows the first `://`. -/
def afterScheme (what url : Bytes) : Raises Bytes :=
  match strstr (lit "://") url with
  | some (_, uri) => .ok uri
  | none => .error (malformedUrl what url)

/-- `AWS_HOST`. -/
def awsHost : Bytes := lit ".amazonaws.com"

/-- `GCS_HOST`. -/
def gcsHost : Bytes := lit "storage.googleapis.com"

/-- The URL of an object store, given what follows its `://`: an `https` URL where the
    server is named in it.  Only text in front of a slash is looked at as a server. -/
def objectStoreUrl (scheme : Scheme) (url uri : Bytes) : Bytes :=
  let (host, slash) := cut (byte '/') uri
  if scheme = .s3 then
    if slash.isSome ∧ awsHost.length ≤ host.length ∧
        pgStrcaseEq (host.drop (host.length - awsHost.length)) awsHost then
      lit "https://" ++ uri
    else url
  else if slash.isSome ∧ gcsHost.length ≤ host.length ∧
      pgStrcaseEq (host.take gcsHost.length) gcsHost then
    lit "https://" ++ uri
  else lit "https://" ++ gcsHost ++ lit "/" ++ uri

/-- `azureURLParts`. -/
structure AzureURLParts where
  accountUrl : Bytes
  container : Bytes
  path : Bytes
  deriving DecidableEq, Repr

/-- `https://` and the account, with the query string the URL carried. -/
def azureAccountUrl (account : Bytes) (query : Option Bytes) : Bytes :=
  match query with
  | some query => lit "https://" ++ account ++ lit "?" ++ query
  | none => lit "https://" ++ account

/-- The Hadoop style: the container before the first `@`, then the account. -/
def parseAbfsUrl (uri : Bytes) (query : Option Bytes) : Raises AzureURLParts :=
  match cut (byte '@') uri with
  | (_, none) => .error
      { errcode := .invalidParameterValue
        errmsg := lit "chdb: Azure ABFS URL missing the container part"
        errhint := some (lit "abfs://<container>@<account>.dfs.core.windows.net/<path>") }
  | (container, some hostAndPath) =>
    let (host, path) := cut (byte '/') hostAndPath
    let account := if byte '.' ∈ host then host else host ++ lit ".blob.core.windows.net"
    .ok { accountUrl := azureAccountUrl account query, container, path := path.getD [] }

/-- The blob style: the account's host, then the container, then the path. -/
def parseAzUrl (uri : Bytes) (query : Option Bytes) : Raises AzureURLParts := do
  let (host, path) := cut (byte '/') uri
  raiseIf (byte '.' ∉ host)
    { errcode := .invalidParameterValue
      errmsg := lit "chdb: Azure URL missing the storage account host"
      errhint := some (lit "az://<account>.blob.core.windows.net/<container>/<path>") }
  let (container, blob) := cut (byte '/') (path.getD [])
  raiseIf (container = [])
    { errcode := .invalidParameterValue
      errmsg := lit "chdb: Azure URL missing the container name"
      errhint := some (lit "az://<account>.blob.core.windows.net/<container>/<path>") }
  return { accountUrl := azureAccountUrl host query, container, path := blob.getD [] }

/-- `parse_azure_url`: the query string, a SAS token, is split off first. -/
def parseAzureUrl (ctx : ChdbCopyContext) : Raises AzureURLParts := do
  let uri ← afterScheme (lit "Azure") ctx.url
  let (uri, query) := cut (byte '?') uri
  if ctx.scheme = .abfs then parseAbfsUrl uri query else parseAzUrl uri query

/-- `get_local_path_from_file_url`. -/
def getLocalPathFromFileUrl (url : Bytes) : Raises Bytes := do
  let path ← afterScheme (lit "file") url
  raiseIf (path.head? ≠ some (byte '/'))
    { errcode := .invalidName
      errmsg := lit "chdb: relative path not allowed for COPY to file URL" }
  return path

/-! ### The query -/

/-- A query, and the name and value of each of its parameters in order. -/
structure ChQuery where
  text : Bytes := []
  params : List (Bytes × Bytes) := []
  deriving DecidableEq, Repr

/-- `appendStringInfoString(query, …)`. -/
def ChQuery.append (query : ChQuery) (text : Bytes) : ChQuery :=
  { query with text := query.text ++ text }

/-- `PARAM(format, name, val)`. -/
def ChQuery.param (query : ChQuery) (format name val : Bytes) : ChQuery :=
  { text := query.text ++ format, params := query.params ++ [(name, val)] }

/-- chDB infers a format the copy did not name from the file extension. -/
def queryFormat (ctx : ChdbCopyContext) : Bytes :=
  if ctx.format = [] then lit "auto" else ctx.format

/-- The credentials of an object store: without a key, the request is not signed. -/
def credentials (ctx : ChdbCopyContext) (query : ChQuery) : ChQuery :=
  if ctx.accessKey = [] then query.append (lit ", NOSIGN")
  else
    let query := query.param (lit ", {access_key:String}") (lit "access_key") ctx.accessKey
    let query := query.param (lit ", {access_secret:String}") (lit "access_secret") ctx.accessSecret
    if ctx.sessionToken ≠ [] ∧ ctx.scheme = .s3 then
      query.param (lit ", {session_token:String}") (lit "session_token") ctx.sessionToken
    else query

/-- The format and the structure, in the order most table functions take them. -/
def formatStructure (ctx : ChdbCopyContext) (query : ChQuery) : ChQuery :=
  (query.param (lit ", {format:String}") (lit "format") (queryFormat ctx)).param
    (lit ", {structure:String}") (lit "structure") ctx.structureClause

/-- The compression, where one is named. -/
def compressionParam (ctx : ChdbCopyContext) (query : ChQuery) : ChQuery :=
  if ctx.compression = [] then query
  else query.param (lit ", {compression:String}") (lit "compression") ctx.compression

/-- The arguments of `s3` and `gcs`, given what follows the `://` of the URL. -/
def objectStoreArguments (ctx : ChdbCopyContext) (uri : Bytes) (query : ChQuery) : ChQuery :=
  let url := objectStoreUrl ctx.scheme ctx.url uri
  let query := query.param (lit "{url:String}") (lit "url") url
  compressionParam ctx (formatStructure ctx (credentials ctx query))

/-- The arguments of `azureBlobStorage`: the compression comes before the structure, and is
    always given. -/
def azureArguments (ctx : ChdbCopyContext) (parts : AzureURLParts) (query : ChQuery) : ChQuery :=
  let query := query.param (lit "{url:String}") (lit "url") parts.accountUrl
  let query := query.param (lit ", {container:String}") (lit "container") parts.container
  let query := query.param (lit ", {path:String}") (lit "path") parts.path
  let query := query.param (lit ", {account_name:String}") (lit "account_name") ctx.accessKey
  let query := query.param (lit ", {account_key:String}") (lit "account_key") ctx.accessSecret
  let query := query.param (lit ", {format:String}") (lit "format") (queryFormat ctx)
  let compression := if ctx.compression = [] then lit "auto" else ctx.compression
  let query := query.param (lit ", {compression:String}") (lit "compression") compression
  query.param (lit ", {structure:String}") (lit "structure") ctx.structureClause

/-- The arguments of the table function, appended to what stands before them. -/
def schemeArguments (ctx : ChdbCopyContext) (query : ChQuery) : Raises ChQuery :=
  match ctx.scheme with
  | .s3 | .gcs => do
    let uri ← afterScheme ctx.scheme.tableFunction ctx.url
    return objectStoreArguments ctx uri query
  | .http => return formatStructure ctx (query.param (lit "{url:String}") (lit "url") ctx.url)
  | .az | .abfs => do
    let parts ← parseAzureUrl ctx
    return azureArguments ctx parts query
  | .file => do
    let path ← getLocalPathFromFileUrl ctx.url
    let query := query.param (lit "{path:String}") (lit "path") path
    return compressionParam ctx (formatStructure ctx query)
  | .hdfs => return formatStructure ctx (query.param (lit "{url:String}") (lit "url") ctx.url)

/-- `truncate_setting`: truncating changes nothing outside `INSERT INTO FUNCTION`. -/
def truncateSetting (ctx : ChdbCopyContext) (setting : Bytes) : Bytes :=
  if ctx.cmdType = .insert then setting else []

/-- `(uint32_t)ceil(timeout / (double)1000)`. -/
def timeoutSeconds (timeout : UInt32) : ℕ := (timeout.toNat + 999) / 1000

/-- The closing parenthesis and the settings of each table function. -/
def schemeSettings (ctx : ChdbCopyContext) : Bytes :=
  match ctx.scheme with
  | .s3 | .gcs => lit ") SETTINGS " ++ truncateSetting ctx (lit "s3_truncate_on_insert = 1, ") ++
      lit "s3_request_timeout_ms = " ++ decimal ctx.timeout.toNat
  | .http => lit ") SETTINGS http_connection_timeout=" ++ decimal (timeoutSeconds ctx.timeout) ++
      lit ", http_max_tries=1"
  | .az | .abfs =>
      lit ") SETTINGS " ++ truncateSetting ctx (lit "azure_truncate_on_insert = 1, ") ++
        lit "azure_request_timeout_ms=" ++ decimal ctx.timeout.toNat
  | .file => lit ")" ++ truncateSetting ctx (lit " SETTINGS engine_file_truncate_on_insert=1")
  | .hdfs => lit ")" ++ truncateSetting ctx (lit " SETTINGS hdfs_truncate_on_insert = 1")

/-- What joins a setting of the command: `file` and `hdfs` name their own only for
    `INSERT`, so the command's opens the clause there. -/
def settingsJoin (scheme : Scheme) : Bytes :=
  if scheme ≠ .file ∧ scheme ≠ .hdfs then lit ", " else lit " SETTINGS "

/-- The setting a `DESCRIBE` adds, and the one a `SELECT` adds to keep the fields of a
    `Nested` together. -/
def commandSettings (ctx : ChdbCopyContext) : Bytes :=
  if ctx.cmdType = .describe then settingsJoin ctx.scheme ++ lit "describe_compact_output=1"
  else if ctx.cmdType = .select ∧ ctx.preserveNested then
    settingsJoin ctx.scheme ++ lit "flatten_nested=0"
  else []

/-- What a query begins with. -/
def queryVerb : ChdbCmdType → Bytes
  | .describe => lit "DESCRIBE TABLE"
  | .select => lit "SELECT * FROM"
  | .insert => lit "INSERT INTO FUNCTION"

/-- `make_ch_query`, but for its log line. -/
def makeChQuery (ctx : ChdbCopyContext) : Raises ChQuery := do
  let query := ChQuery.append {} (queryVerb ctx.cmdType ++ lit " " ++
    (ctx.scheme.tableFunction ++ lit "("))
  let query ← schemeArguments ctx query
  return (query.append (schemeSettings ctx)).append (commandSettings ctx)

/-! ### Taking a query apart -/

/-- The arguments there can be: those of an object store, of Azure, of a file, and the URL
    alone for the others. -/
theorem schemeArguments_cases {ctx : ChdbCopyContext} {query args : ChQuery}
    (h : schemeArguments ctx query = .ok args) :
    ((ctx.scheme = .http ∨ ctx.scheme = .hdfs) ∧
      args = formatStructure ctx (query.param (lit "{url:String}") (lit "url") ctx.url)) ∨
    ((ctx.scheme = .s3 ∨ ctx.scheme = .gcs) ∧ ∃ uri,
      afterScheme ctx.scheme.tableFunction ctx.url = .ok uri ∧
        args = objectStoreArguments ctx uri query) ∨
    ((ctx.scheme = .az ∨ ctx.scheme = .abfs) ∧ ∃ parts, parseAzureUrl ctx = .ok parts ∧
      args = azureArguments ctx parts query) ∨
    (ctx.scheme = .file ∧ ∃ path, getLocalPathFromFileUrl ctx.url = .ok path ∧
      args = compressionParam ctx (formatStructure ctx
        (query.param (lit "{path:String}") (lit "path") path))) := by
  unfold schemeArguments at h
  cases hs : ctx.scheme <;> simp only [hs, bind_eq_ok, pure_eq_ok] at h
  case http => exact Or.inl ⟨Or.inl rfl, h.symm⟩
  case hdfs => exact Or.inl ⟨Or.inr rfl, h.symm⟩
  case s3 =>
    obtain ⟨uri, huri, rfl⟩ := h
    exact Or.inr (Or.inl ⟨Or.inl rfl, uri, huri, rfl⟩)
  case gcs =>
    obtain ⟨uri, huri, rfl⟩ := h
    exact Or.inr (Or.inl ⟨Or.inr rfl, uri, huri, rfl⟩)
  case az =>
    obtain ⟨parts, hparts, rfl⟩ := h
    exact Or.inr (Or.inr (Or.inl ⟨Or.inl rfl, parts, hparts, rfl⟩))
  case abfs =>
    obtain ⟨parts, hparts, rfl⟩ := h
    exact Or.inr (Or.inr (Or.inl ⟨Or.inr rfl, parts, hparts, rfl⟩))
  case file =>
    obtain ⟨path, hpath, rfl⟩ := h
    exact Or.inr (Or.inr (Or.inr ⟨rfl, path, hpath, rfl⟩))

/-- One query's text and parameters behind another's. -/
def ChQuery.after (query₀ query : ChQuery) : ChQuery :=
  { text := query₀.text ++ query.text, params := query₀.params ++ query.params }

@[simp] theorem ChQuery.after_param (query₀ query : ChQuery) (format name val : Bytes) :
    (query₀.after query).param format name val = query₀.after (query.param format name val) := by
  simp [ChQuery.after, ChQuery.param]

@[simp] theorem ChQuery.after_append (query₀ query : ChQuery) (text : Bytes) :
    (query₀.after query).append text = query₀.after (query.append text) := by
  simp [ChQuery.after, ChQuery.append]

@[simp] theorem ChQuery.after_empty (query : ChQuery) : query.after {} = query := by
  simp [ChQuery.after]

@[simp] theorem formatStructure_after (ctx : ChdbCopyContext) (query₀ query : ChQuery) :
    formatStructure ctx (query₀.after query) = query₀.after (formatStructure ctx query) := by
  simp [formatStructure]

@[simp] theorem compressionParam_after (ctx : ChdbCopyContext) (query₀ query : ChQuery) :
    compressionParam ctx (query₀.after query) = query₀.after (compressionParam ctx query) := by
  unfold compressionParam
  split <;> simp

@[simp] theorem credentials_after (ctx : ChdbCopyContext) (query₀ query : ChQuery) :
    credentials ctx (query₀.after query) = query₀.after (credentials ctx query) := by
  unfold credentials
  split
  · simp
  · split <;> simp

/-- The arguments do not depend on what stands before them. -/
theorem schemeArguments_after (ctx : ChdbCopyContext) (query : ChQuery) :
    schemeArguments ctx query = query.after <$> schemeArguments ctx {} := by
  have hparam : ∀ format name val,
      query.param format name val = query.after (ChQuery.param {} format name val) := by
    intro format name val
    rw [← ChQuery.after_param, ChQuery.after_empty]
  unfold schemeArguments objectStoreArguments azureArguments
  cases ctx.scheme <;> simp [hparam]

/-- `make_ch_query`, as one text: what the query begins with, the table function and its
    arguments, and the settings. -/
theorem makeChQuery_eq_ok {ctx : ChdbCopyContext} {query : ChQuery} :
    makeChQuery ctx = .ok query ↔ ∃ args, schemeArguments ctx {} = .ok args ∧
      query = { text := queryVerb ctx.cmdType ++ (lit " " ++ (ctx.scheme.tableFunction ++
                  (lit "(" ++ (args.text ++ (schemeSettings ctx ++ commandSettings ctx)))))
                params := args.params } := by
  unfold makeChQuery
  simp only [schemeArguments_after ctx (ChQuery.append {} _)]
  cases schemeArguments ctx {} with
  | error e => simp
  | ok args => simp [ChQuery.after, ChQuery.append, eq_comm]

/-! ### The structure parameter -/

/-- The query with another value for its structure parameter. -/
def ChQuery.withStructure (query : ChQuery) (clause : Bytes) : ChQuery :=
  { query with
    params := query.params.map fun p => if p.1 = lit "structure" then (p.1, clause) else p }

/-- The value of a parameter. -/
def ChQuery.value (query : ChQuery) (name : Bytes) : Option Bytes := query.params.lookup name

section
variable (query : ChQuery) (clause : Bytes)

theorem ChQuery.withStructure_structure (format val : Bytes) :
    (query.param format (lit "structure") val).withStructure clause
      = (query.withStructure clause).param format (lit "structure") clause := by
  simp [ChQuery.withStructure, ChQuery.param]

theorem ChQuery.withStructure_other {name : Bytes} (hname : name ≠ lit "structure")
    (format val : Bytes) :
    (query.param format name val).withStructure clause
      = (query.withStructure clause).param format name val := by
  simp [ChQuery.withStructure, ChQuery.param, hname]

@[simp] theorem ChQuery.withStructure_empty : ({} : ChQuery).withStructure clause = {} := rfl

theorem ChQuery.value_param (format name val key : Bytes) :
    (query.param format name val).value key
      = (query.value key).or (if key = name then some val else none) := by
  unfold ChQuery.value ChQuery.param
  rw [List.lookup_append]
  by_cases hk : key = name
  · simp [hk]
  · have hne : (key == name) = false := by simp [hk]
    simp [hk, List.lookup_cons, hne]

end

/-- Two contexts that name the same source: all but the command, the structure and what a
    `SELECT` does with a `Nested` column. -/
structure ChdbCopyContext.SameSource (ctx ctx' : ChdbCopyContext) : Prop where
  scheme : ctx'.scheme = ctx.scheme
  url : ctx'.url = ctx.url
  accessKey : ctx'.accessKey = ctx.accessKey
  accessSecret : ctx'.accessSecret = ctx.accessSecret
  sessionToken : ctx'.sessionToken = ctx.sessionToken
  format : ctx'.format = ctx.format
  compression : ctx'.compression = ctx.compression
  timeout : ctx'.timeout = ctx.timeout

section
variable {ctx ctx' : ChdbCopyContext} (h : ctx.SameSource ctx') (query : ChQuery)
include h

theorem ChdbCopyContext.SameSource.credentials :
    credentials ctx' (query.withStructure ctx'.structureClause)
      = (PgChdb.credentials ctx query).withStructure ctx'.structureClause := by
  unfold PgChdb.credentials
  rw [h.accessKey, h.accessSecret, h.sessionToken, h.scheme]
  split
  · rfl
  · split <;> simp (disch := decide) only [ChQuery.withStructure_other]

theorem ChdbCopyContext.SameSource.formatStructure :
    formatStructure ctx' (query.withStructure ctx'.structureClause)
      = (PgChdb.formatStructure ctx query).withStructure ctx'.structureClause := by
  simp (disch := decide) only [PgChdb.formatStructure, queryFormat, h.format,
    ChQuery.withStructure_structure, ChQuery.withStructure_other]

theorem ChdbCopyContext.SameSource.compressionParam :
    compressionParam ctx' (query.withStructure ctx'.structureClause)
      = (PgChdb.compressionParam ctx query).withStructure ctx'.structureClause := by
  unfold PgChdb.compressionParam
  rw [h.compression]
  split
  · rfl
  · simp (disch := decide) only [ChQuery.withStructure_other]

end

/-- **The arguments name the structure in one place**: over the same source they are the
    same but for the value of that parameter. -/
theorem ChdbCopyContext.SameSource.schemeArguments {ctx ctx' : ChdbCopyContext}
    (h : ctx.SameSource ctx') :
    schemeArguments ctx' {}
      = (·.withStructure ctx'.structureClause) <$> PgChdb.schemeArguments ctx {} := by
  have hazure : parseAzureUrl ctx' = parseAzureUrl ctx := by
    simp only [parseAzureUrl, h.url, h.scheme]
  unfold PgChdb.schemeArguments objectStoreArguments azureArguments
  rw [h.scheme]
  cases ctx.scheme <;>
    simp (disch := decide) [hazure, h.url, h.accessKey, h.accessSecret, h.format, h.compression,
      queryFormat, ← h.credentials, ← h.formatStructure, ← h.compressionParam,
      ChQuery.withStructure_other, ChQuery.withStructure_structure]

/-- The structure parameter of a query is the context's structure. -/
theorem schemeArguments_structure {ctx : ChdbCopyContext} {args : ChQuery}
    (h : schemeArguments ctx {} = .ok args) :
    args.value (lit "structure") = some ctx.structureClause := by
  have hcred : ∀ query : ChQuery, query.value (lit "structure") = none →
      (credentials ctx query).value (lit "structure") = none := by
    intro query hq
    unfold credentials
    split
    · exact hq
    · split <;> simp +decide [ChQuery.value_param, hq]
  have hcomp : ∀ query : ChQuery, (compressionParam ctx (formatStructure ctx query)).value
      (lit "structure") = (formatStructure ctx query).value (lit "structure") := by
    intro query
    unfold compressionParam
    split
    · rfl
    · simp +decide [ChQuery.value_param]
  have hform : ∀ query : ChQuery, query.value (lit "structure") = none →
      (formatStructure ctx query).value (lit "structure") = some ctx.structureClause := by
    intro query hq
    simp +decide [formatStructure, ChQuery.value_param, hq]
  have hazure : ∀ parts, (azureArguments ctx parts {}).value (lit "structure")
      = some ctx.structureClause := by
    intro parts
    have hempty : ({} : ChQuery).value (lit "structure") = none := rfl
    simp +decide [azureArguments, ChQuery.value_param, hempty]
  have hone : ∀ format name val : Bytes, name ≠ lit "structure" →
      (ChQuery.param {} format name val).value (lit "structure") = none := by
    intro format name val hne
    rw [ChQuery.value_param, if_neg (Ne.symm hne)]
    rfl
  rcases schemeArguments_cases h with ⟨_, rfl⟩ | ⟨_, uri, _, rfl⟩ | ⟨_, parts, _, rfl⟩ |
    ⟨_, path, _, rfl⟩
  · exact hform _ (hone _ _ _ (by decide))
  · exact (hcomp _).trans (hform _ (hcred _ (hone _ _ _ (by decide))))
  · exact hazure parts
  · exact (hcomp _).trans (hform _ (hone _ _ _ (by decide)))

/-- So is that of the whole query. -/
theorem makeChQuery_structure {ctx : ChdbCopyContext} {query : ChQuery}
    (h : makeChQuery ctx = .ok query) :
    query.value (lit "structure") = some ctx.structureClause := by
  obtain ⟨args, hargs, rfl⟩ := makeChQuery_eq_ok.mp h
  show args.value (lit "structure") = some ctx.structureClause
  exact schemeArguments_structure hargs

end PgChdb
