import PgChdb.Hook.Query
import PgChdb.Lib.Literal

namespace PgChdb

open CText Fallible

/-!
# What chDB makes of the parameter values

chDB undoes the backslash escapes of a String parameter before the table function sees it.
`chdb_url_columns` doubles the backslashes of the structure it infers for that reason;
`make_ch_query` passes every other value as it stands.

* `statementValues` — the value each argument of a table function is meant to have;
* `makeChQuery_params` — these are the values that are sent;
* `ValuesArrive` — the table function gets what was meant, and `valuesArrive_iff`, exactly
  when the backslashes in each value are kept.
-/

/-- The credentials of an object store, if a key was given. -/
def credentialValues (ctx : ChdbCopyContext) : List (Bytes × Bytes) :=
  if ctx.accessKey = [] then []
  else [(lit "access_key", ctx.accessKey), (lit "access_secret", ctx.accessSecret)] ++
    if ctx.sessionToken ≠ [] ∧ ctx.scheme = .s3 then [(lit "session_token", ctx.sessionToken)]
    else []

/-- The format and the structure. -/
def formatValues (ctx : ChdbCopyContext) : List (Bytes × Bytes) :=
  [(lit "format", queryFormat ctx), (lit "structure", ctx.structureClause)]

/-- The compression, if one was given. -/
def compressionValues (ctx : ChdbCopyContext) : List (Bytes × Bytes) :=
  if ctx.compression = [] then [] else [(lit "compression", ctx.compression)]

/-- The arguments a statement means, by name: the options as given, the URL as given or
    rewritten for the server it names, and the parts it is taken apart into. -/
def statementValues (ctx : ChdbCopyContext) : Raises (List (Bytes × Bytes)) :=
  match ctx.scheme with
  | .http | .hdfs => return (lit "url", ctx.url) :: formatValues ctx
  | .s3 | .gcs => do
    let uri ← afterScheme ctx.scheme.tableFunction ctx.url
    return (lit "url", objectStoreUrl ctx.scheme ctx.url uri) ::
      (credentialValues ctx ++ (formatValues ctx ++ compressionValues ctx))
  | .az | .abfs => do
    let parts ← parseAzureUrl ctx
    return [(lit "url", parts.accountUrl), (lit "container", parts.container),
      (lit "path", parts.path), (lit "account_name", ctx.accessKey),
      (lit "account_key", ctx.accessSecret), (lit "format", queryFormat ctx),
      (lit "compression", if ctx.compression = [] then lit "auto" else ctx.compression),
      (lit "structure", ctx.structureClause)]
  | .file => do
    let path ← getLocalPathFromFileUrl ctx.url
    return (lit "path", path) :: (formatValues ctx ++ compressionValues ctx)

/-- **The values are sent as they stand.** -/
theorem makeChQuery_params {ctx : ChdbCopyContext} {query : ChQuery}
    {values : List (Bytes × Bytes)} (h : makeChQuery ctx = .ok query)
    (hvalues : statementValues ctx = .ok values) : query.params = values := by
  have hform : ∀ q : ChQuery, (formatStructure ctx q).params = q.params ++ formatValues ctx := by
    intro q
    simp [formatStructure, formatValues, ChQuery.param]
  have hcomp : ∀ q : ChQuery,
      (compressionParam ctx q).params = q.params ++ compressionValues ctx := by
    intro q
    unfold compressionParam compressionValues
    split
    · rw [List.append_nil]
    · rfl
  have hcred : ∀ q : ChQuery, (credentials ctx q).params = q.params ++ credentialValues ctx := by
    intro q
    unfold credentials credentialValues
    split
    · rw [List.append_nil]
      rfl
    · split <;> simp [ChQuery.param]
  obtain ⟨args, hargs, rfl⟩ := makeChQuery_eq_ok.mp h
  show args.params = values
  unfold statementValues at hvalues
  rcases schemeArguments_cases hargs with ⟨hs, rfl⟩ | ⟨hs, uri, huri, rfl⟩ | ⟨hs, parts, hparts, rfl⟩ |
    ⟨hs, path, hpath, rfl⟩
  · have hvals : (lit "url", ctx.url) :: formatValues ctx = values := by
      rcases hs with hs | hs <;> simpa only [hs, pure_eq_ok] using hvalues
    rw [← hvals, hform]
    rfl
  · have hvals : (lit "url", objectStoreUrl ctx.scheme ctx.url uri) ::
        (credentialValues ctx ++ (formatValues ctx ++ compressionValues ctx)) = values := by
      rcases hs with hs | hs <;> simp only [hs] at huri hvalues ⊢ <;>
        simpa only [huri, bind_eq_ok, pure_eq_ok, Except.ok.injEq, exists_eq_left'] using hvalues
    rw [← hvals, objectStoreArguments, hcomp, hform, hcred, List.append_assoc, List.append_assoc]
    rfl
  · rcases hs with hs | hs <;> simp only [hs, hparts] at hvalues <;> cases hvalues <;> rfl
  · simp only [hs, hpath] at hvalues
    cases hvalues
    rw [hcomp, hform, List.append_assoc]
    rfl

/-- What the table function gets for each argument but the structure, `esc` being what chDB
    takes an escape for. -/
def receivedValues (esc : UInt8 → Bytes) (query : ChQuery) : List (Bytes × Option Bytes) :=
  (query.params.filter (·.1 ≠ lit "structure")).map fun p => (p.1, undoEscapes esc p.2)

/-- It gets what the statement means. -/
def ValuesArrive (esc : UInt8 → Bytes) (query : ChQuery) (values : List (Bytes × Bytes)) : Prop :=
  receivedValues esc query
    = (values.filter (·.1 ≠ lit "structure")).map fun p => (p.1, some p.2)

/-- **Values arrive exactly when their backslashes are kept.**  For every scheme and every
    option string, what the table function gets is what the statement means if and only if
    each backslash in each value stands before a character that keeps it. -/
theorem valuesArrive_iff {esc : UInt8 → Bytes} (hesc : LiteralEscapes esc) {ctx : ChdbCopyContext}
    {query : ChQuery} {values : List (Bytes × Bytes)} (h : makeChQuery ctx = .ok query)
    (hvalues : statementValues ctx = .ok values) :
    ValuesArrive esc query values ↔ ∀ p ∈ values, p.1 ≠ lit "structure" → Kept esc p.2 := by
  rw [ValuesArrive, receivedValues, makeChQuery_params h hvalues, List.map_inj_left]
  constructor
  · intro hall p hp hname
    have hmem : p ∈ values.filter (·.1 ≠ lit "structure") :=
      List.mem_filter.mpr ⟨hp, by simpa using hname⟩
    have hpair := congrArg Prod.snd (hall p hmem)
    exact (undoEscapes_eq_self_iff hesc.length_le p.2).mp hpair
  · intro hall p hp
    obtain ⟨hmem, hname⟩ := List.mem_filter.mp hp
    have hkept := hall p hmem (by simpa using hname)
    rw [(undoEscapes_eq_self_iff hesc.length_le p.2).mpr hkept]

/-- A file whose name has two backslashes in it. -/
def backslashFile : ChdbCopyContext where
  scheme := .file
  url := lit "file:///a\\\\b.csv"
  structureClause := lit "a Int32"

/-- Another file is read. -/
theorem valuesArrive_backslash :
    (makeChQuery backslashFile).toOption.bind (fun query =>
        (receivedValues plainLiteralEscapes query).lookup (lit "path"))
      = some (some (lit "/a\\b.csv")) ∧
    (statementValues backslashFile).toOption.bind (·.lookup (lit "path"))
      = some (lit "/a\\\\b.csv") ∧ lit "/a\\b.csv" ≠ lit "/a\\\\b.csv" := by
  decide +kernel

/-- A file in a bucket, with credentials. -/
def bucketFile : ChdbCopyContext where
  scheme := .s3
  url := lit "s3://b/a.csv"
  accessKey := lit "k"
  accessSecret := lit "s"
  structureClause := lit "a Int32"

/-- Its query. -/
def bucketQuery : ChQuery where
  text := lit "SELECT * FROM s3(\x7burl:String\x7d, \x7baccess_key:String\x7d, " ++
    lit "\x7baccess_secret:String\x7d, \x7bformat:String\x7d, \x7bstructure:String\x7d) " ++
    lit "SETTINGS s3_request_timeout_ms = 0"
  params := [(lit "url", lit "s3://b/a.csv"), (lit "access_key", lit "k"),
    (lit "access_secret", lit "s"), (lit "format", lit "auto"), (lit "structure", lit "a Int32")]

/-- It arrives as it was given. -/
theorem valuesArrive_bucket : ValuesArrive plainLiteralEscapes bucketQuery bucketQuery.params := by
  have hquery : makeChQuery bucketFile = .ok bucketQuery := by decide +kernel
  have hvalues : statementValues bucketFile = .ok bucketQuery.params := by decide +kernel
  have hkept : ∀ p ∈ bucketQuery.params, p.1 ≠ lit "structure" → Kept plainLiteralEscapes p.2 := by
    decide +kernel
  exact (valuesArrive_iff plainLiteralEscapes_spec hquery hvalues).mpr hkept

end PgChdb
