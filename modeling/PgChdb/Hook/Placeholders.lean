import PgChdb.Hook.Query
import PgChdb.Lib.Template

namespace PgChdb

open CText Fallible

/-!
# The text of a query, and the strings it does not contain

`make_ch_query` builds the text and the parallel arrays of parameter names and values by one
macro.  What the user wrote goes into the values only: of the contents of a context the text
depends on the scheme, the command, the timeout, and which of three strings are empty.

* `ChdbCopyContext.SameShape`, `makeChQuery_sameText` — two such contexts, whose queries have
  the same text;
* `shapeContext` — one context for each shape, so that what holds of the arguments of these
  few holds of all (`schemeArguments_wellFormed`);
* `settingEntries`, `settings_eq` — the settings, as one clause with a list of entries;
* `makeChQuery_wellFormed` — placeholders and parameters match, and there is at most one
  settings clause.
-/

/-! ### Queries of one shape -/

/-- The names of the parameters, in order. -/
def ChQuery.names (query : ChQuery) : List Bytes := query.params.map Prod.fst

/-- Two queries that differ in the values of their parameters only. -/
structure ChQuery.SameText (query query' : ChQuery) : Prop where
  text : query.text = query'.text
  names : query.names = query'.names

/-- Two contexts whose queries take the same arguments. -/
structure ChdbCopyContext.SameArguments (ctx ctx' : ChdbCopyContext) : Prop where
  scheme : ctx.scheme = ctx'.scheme
  accessKey : ctx.accessKey = [] ↔ ctx'.accessKey = []
  sessionToken : ctx.sessionToken = [] ↔ ctx'.sessionToken = []
  compression : ctx.compression = [] ↔ ctx'.compression = []

/-- They also agree on what the settings are made of. -/
structure ChdbCopyContext.SameShape (ctx ctx' : ChdbCopyContext) : Prop
    extends ctx.SameArguments ctx' where
  cmdType : ctx.cmdType = ctx'.cmdType
  timeout : ctx.timeout = ctx'.timeout
  preserveNested : ctx.preserveNested = ctx'.preserveNested

section
variable {query query' : ChQuery}

theorem ChQuery.SameText.refl (query : ChQuery) : query.SameText query := ⟨rfl, rfl⟩

theorem ChQuery.SameText.param (h : query.SameText query') (format name val val' : Bytes) :
    (query.param format name val).SameText (query'.param format name val') where
  text := by
    show query.text ++ format = query'.text ++ format
    rw [h.text]
  names := by
    have hnames : query.params.map Prod.fst = query'.params.map Prod.fst := h.names
    simp [ChQuery.names, ChQuery.param, hnames]

theorem ChQuery.SameText.append (h : query.SameText query') (text : Bytes) :
    (query.append text).SameText (query'.append text) where
  text := by
    show query.text ++ text = query'.text ++ text
    rw [h.text]
  names := h.names

variable {ctx ctx' : ChdbCopyContext}

theorem ChQuery.SameText.credentials (hctx : ctx.SameArguments ctx')
    (h : query.SameText query') :
    (PgChdb.credentials ctx query).SameText (PgChdb.credentials ctx' query') := by
  unfold PgChdb.credentials
  by_cases hkey : ctx.accessKey = []
  · rw [if_pos hkey, if_pos (hctx.accessKey.mp hkey)]
    exact h.append _
  · have hkey' : ¬ ctx'.accessKey = [] := fun h' => hkey (hctx.accessKey.mpr h')
    rw [if_neg hkey, if_neg hkey']
    have hsecret := (h.param (lit ", {access_key:String}") (lit "access_key") ctx.accessKey
      ctx'.accessKey).param (lit ", {access_secret:String}") (lit "access_secret")
        ctx.accessSecret ctx'.accessSecret
    have htoken : (ctx.sessionToken ≠ [] ∧ ctx.scheme = .s3) ↔
        (ctx'.sessionToken ≠ [] ∧ ctx'.scheme = .s3) := by
      rw [hctx.scheme, Ne, Ne, hctx.sessionToken]
    by_cases hsend : ctx.sessionToken ≠ [] ∧ ctx.scheme = .s3
    · simp only [if_pos hsend, if_pos (htoken.mp hsend)]
      exact hsecret.param _ _ _ _
    · simp only [if_neg hsend, if_neg (fun h' => hsend (htoken.mpr h'))]
      exact hsecret

theorem ChQuery.SameText.formatStructure (h : query.SameText query') :
    (PgChdb.formatStructure ctx query).SameText (PgChdb.formatStructure ctx' query') :=
  (h.param _ _ _ _).param _ _ _ _

theorem ChQuery.SameText.compressionParam (hctx : ctx.SameArguments ctx')
    (h : query.SameText query') :
    (PgChdb.compressionParam ctx query).SameText (PgChdb.compressionParam ctx' query') := by
  unfold PgChdb.compressionParam
  by_cases hcomp : ctx.compression = []
  · rw [if_pos hcomp, if_pos (hctx.compression.mp hcomp)]
    exact h
  · rw [if_neg hcomp, if_neg (fun h' => hcomp (hctx.compression.mpr h'))]
    exact h.param _ _ _ _

end

/-- The arguments of two contexts of one shape, when there are any. -/
theorem schemeArguments_sameText {ctx ctx' : ChdbCopyContext} {args args' : ChQuery}
    (hctx : ctx.SameArguments ctx') (h : schemeArguments ctx {} = .ok args)
    (h' : schemeArguments ctx' {} = .ok args') : args.SameText args' := by
  have hstart := ChQuery.SameText.refl {}
  have hstore : ∀ uri uri',
      (objectStoreArguments ctx uri {}).SameText (objectStoreArguments ctx' uri' {}) := by
    intro uri uri'
    apply ChQuery.SameText.compressionParam hctx
    apply ChQuery.SameText.formatStructure
    exact ChQuery.SameText.credentials hctx (hstart.param _ _ _ _)
  have hazure : ∀ parts parts',
      (azureArguments ctx parts {}).SameText (azureArguments ctx' parts' {}) := by
    intro parts parts'
    exact (((((((hstart.param _ _ _ _).param _ _ _ _).param _ _ _ _).param _ _ _ _).param
      _ _ _ _).param _ _ _ _).param _ _ _ _).param _ _ _ _
  unfold schemeArguments at h h'
  rw [← hctx.scheme] at h'
  cases hs : ctx.scheme <;> simp only [hs, bind_eq_ok, pure_eq_ok] at h h'
  case http =>
    rw [← h, ← h']
    exact (hstart.param _ _ _ _).formatStructure
  case hdfs =>
    rw [← h, ← h']
    exact (hstart.param _ _ _ _).formatStructure
  case file =>
    obtain ⟨path, _, rfl⟩ := h
    obtain ⟨path', _, rfl⟩ := h'
    exact ChQuery.SameText.compressionParam hctx (hstart.param _ _ _ _).formatStructure
  case az =>
    obtain ⟨parts, _, rfl⟩ := h
    obtain ⟨parts', _, rfl⟩ := h'
    exact hazure parts parts'
  case abfs =>
    obtain ⟨parts, _, rfl⟩ := h
    obtain ⟨parts', _, rfl⟩ := h'
    exact hazure parts parts'
  case s3 =>
    obtain ⟨uri, _, rfl⟩ := h
    obtain ⟨uri', _, rfl⟩ := h'
    exact hstore uri uri'
  case gcs =>
    obtain ⟨uri, _, rfl⟩ := h
    obtain ⟨uri', _, rfl⟩ := h'
    exact hstore uri uri'

/-- **The text does not depend on what the strings contain.** -/
theorem makeChQuery_sameText {ctx ctx' : ChdbCopyContext} {query query' : ChQuery}
    (hctx : ctx.SameShape ctx') (h : makeChQuery ctx = .ok query)
    (h' : makeChQuery ctx' = .ok query') : query.SameText query' := by
  obtain ⟨args, hargs, rfl⟩ := makeChQuery_eq_ok.mp h
  obtain ⟨args', hargs', rfl⟩ := makeChQuery_eq_ok.mp h'
  have hsame := schemeArguments_sameText hctx.toSameArguments hargs hargs'
  have hsettings : schemeSettings ctx = schemeSettings ctx' := by
    simp only [schemeSettings, truncateSetting, hctx.scheme, hctx.cmdType, hctx.timeout]
  have hcommand : commandSettings ctx = commandSettings ctx' := by
    simp only [commandSettings, hctx.scheme, hctx.cmdType, hctx.preserveNested]
  refine ⟨?_, hsame.names⟩
  show queryVerb ctx.cmdType ++ _ = queryVerb ctx'.cmdType ++ _
  rw [hsame.text, hsettings, hcommand, hctx.cmdType, hctx.scheme]

/-! ### One context for each shape -/

/-- `CHDB_MAX_TABLEFUNC_ARGS`, the size of the parameter arrays. -/
def chdbMaxTablefuncArgs : ℕ := 9

/-- The word that opens a settings clause. -/
def settingsKeyword : Bytes := lit "SETTINGS"

/-- What a parameter's placeholder has between its braces. -/
def placeholder (name : Bytes) : Bytes := name ++ lit ":String"

/-- The placeholders of a text. -/
def placeholders (text : Bytes) : Option (List Bytes) := slots (byte '{') (byte '}') text

/-- The arguments have a placeholder for each parameter in order, distinct names, no more of
    them than there is room for, and no word in them opens a settings clause. -/
structure ArgumentsWellFormed (args : ChQuery) : Prop where
  placeholders : placeholders args.text = some (args.names.map placeholder)
  nodup : args.names.Nodup
  length_le : args.names.length ≤ chdbMaxTablefuncArgs
  skips : skips settingsKeyword args.text = true

/-- A URL of the scheme. -/
def shapeUrl : Scheme → Bytes
  | .http => lit "http://h/p"
  | .s3 => lit "s3://b/p"
  | .gcs => lit "gs://b/p"
  | .az => lit "az://h.x/c"
  | .abfs => lit "abfs://c@h"
  | .hdfs => lit "hdfs://h/p"
  | .file => lit "file:///p"

/-- A context of the scheme, with those of the three strings that are asked for. -/
def shapeContext (scheme : Scheme) (key token compression : Bool) : ChdbCopyContext where
  scheme := scheme
  url := shapeUrl scheme
  accessKey := if key then [0] else []
  sessionToken := if token then [0] else []
  compression := if compression then [0] else []

/-- The arguments of that context are as they should be. -/
def shapeArgumentsWellFormed (scheme : Scheme) (key token compression : Bool) : Bool :=
  match schemeArguments (shapeContext scheme key token compression) {} with
  | .ok args => placeholders args.text = some (args.names.map placeholder) &&
      decide args.names.Nodup && decide (args.names.length ≤ chdbMaxTablefuncArgs) &&
      skips settingsKeyword args.text
  | .error _ => false

theorem shapeContext_wellFormed (scheme : Scheme) :
    ∀ key token compression, shapeArgumentsWellFormed scheme key token compression = true := by
  cases scheme <;> decide +kernel

theorem exists_sameArguments (ctx : ChdbCopyContext) :
    ∃ key token compression, ctx.SameArguments (shapeContext ctx.scheme key token compression) := by
  refine ⟨!ctx.accessKey.isEmpty, !ctx.sessionToken.isEmpty, !ctx.compression.isEmpty, ?_⟩
  have hflag : ∀ s : Bytes, s = [] ↔ (if (!s.isEmpty) = true then [0] else []) = ([] : Bytes) := by
    intro s
    cases s <;> simp
  exact ⟨rfl, hflag _, hflag _, hflag _⟩

/-- **So are those of every context.** -/
theorem schemeArguments_wellFormed {ctx : ChdbCopyContext} {args : ChQuery}
    (h : schemeArguments ctx {} = .ok args) : ArgumentsWellFormed args := by
  obtain ⟨key, token, compression, hsame⟩ := exists_sameArguments ctx
  have hshape := shapeContext_wellFormed ctx.scheme key token compression
  unfold shapeArgumentsWellFormed at hshape
  cases hargs : schemeArguments (shapeContext ctx.scheme key token compression) {} with
  | error e => rw [hargs] at hshape; cases hshape
  | ok args' =>
    rw [hargs] at hshape
    have htext := schemeArguments_sameText hsame h hargs
    simp only [Bool.and_eq_true, decide_eq_true_eq] at hshape
    obtain ⟨⟨⟨hplace, hnodup⟩, hlen⟩, hskip⟩ := hshape
    constructor
    · rw [htext.text, htext.names, hplace]
    · rw [htext.names]; exact hnodup
    · rw [htext.names]; exact hlen
    · rw [htext.text]; exact hskip

/-! ### The settings clause -/

/-- A settings clause, if there is anything to set. -/
def settingsClause : List Bytes → Bytes
  | [] => []
  | e :: es => lit " SETTINGS " ++ (e ++ es.flatMap (lit ", " ++ ·))

/-- What the query sets: the table function's own settings, then the command's. -/
def settingEntries (ctx : ChdbCopyContext) : List Bytes :=
  (if ctx.cmdType = .insert then
    match ctx.scheme with
    | .s3 | .gcs => [lit "s3_truncate_on_insert = 1"]
    | .az | .abfs => [lit "azure_truncate_on_insert = 1"]
    | .file => [lit "engine_file_truncate_on_insert=1"]
    | .hdfs => [lit "hdfs_truncate_on_insert = 1"]
    | .http => []
  else []) ++
  (match ctx.scheme with
    | .s3 | .gcs => [lit "s3_request_timeout_ms = " ++ decimal ctx.timeout.toNat]
    | .az | .abfs => [lit "azure_request_timeout_ms=" ++ decimal ctx.timeout.toNat]
    | .http => [lit "http_connection_timeout=" ++ decimal (timeoutSeconds ctx.timeout),
        lit "http_max_tries=1"]
    | .file | .hdfs => []) ++
  (if ctx.cmdType = .describe then [lit "describe_compact_output=1"]
    else if ctx.cmdType = .select ∧ ctx.preserveNested then [lit "flatten_nested=0"] else [])

/-- The settings are one clause, wherever its entries come from. -/
theorem settings_eq (ctx : ChdbCopyContext) :
    schemeSettings ctx ++ commandSettings ctx = lit ")" ++ settingsClause (settingEntries ctx) := by
  have hopen : lit ") SETTINGS " = lit ")" ++ lit " SETTINGS " := by decide
  have hhttp : lit ") SETTINGS http_connection_timeout="
      = lit ")" ++ (lit " SETTINGS " ++ lit "http_connection_timeout=") := by decide
  have htries : lit ", http_max_tries=1" = lit ", " ++ lit "http_max_tries=1" := by decide
  have hs3 : lit "s3_truncate_on_insert = 1, "
      = lit "s3_truncate_on_insert = 1" ++ lit ", " := by decide
  have hazure : lit "azure_truncate_on_insert = 1, "
      = lit "azure_truncate_on_insert = 1" ++ lit ", " := by decide
  have hfile : lit " SETTINGS engine_file_truncate_on_insert=1"
      = lit " SETTINGS " ++ lit "engine_file_truncate_on_insert=1" := by decide
  have hhdfs : lit " SETTINGS hdfs_truncate_on_insert = 1"
      = lit " SETTINGS " ++ lit "hdfs_truncate_on_insert = 1" := by decide
  -- the opening keyword and the joins are split off, then every case is one clause
  unfold schemeSettings commandSettings settingEntries truncateSetting settingsJoin
  cases ctx.scheme <;> cases ctx.cmdType <;> cases ctx.preserveNested <;>
    simp [settingsClause, hopen, hhttp, htries, hs3, hazure, hfile, hhdfs]

/-- An entry that can stand in a settings clause: there is something in it, but no comma, no
    placeholder and no keyword. -/
structure SettingEntry (e : Bytes) : Prop where
  nonblank : ∃ c ∈ e, c ≠ byte ' '
  comma : byte ',' ∉ e
  brace : byte '{' ∉ e
  skips : skips settingsKeyword e = true

/-- A setting with a number. -/
theorem SettingEntry.decimal {name : Bytes} (h : SettingEntry name) (n : ℕ) :
    SettingEntry (name ++ CText.decimal n) where
  nonblank := by
    obtain ⟨c, hc, hne⟩ := h.nonblank
    exact ⟨c, List.mem_append_left _ hc, hne⟩
  comma := by
    rw [List.mem_append, not_or]
    exact ⟨h.comma, not_mem_decimal (by decide) n⟩
  brace := by
    rw [List.mem_append, not_or]
    exact ⟨h.brace, not_mem_decimal (by decide) n⟩
  skips := skips_append h.skips
    (skips_of_head_not_mem (lit "ETTINGS") (not_mem_decimal (by decide) n))

instance (e : Bytes) : Decidable (SettingEntry e) :=
  decidable_of_iff ((∃ c ∈ e, c ≠ byte ' ') ∧ byte ',' ∉ e ∧ byte '{' ∉ e ∧
      CText.skips settingsKeyword e = true)
    ⟨fun h => ⟨h.1, h.2.1, h.2.2.1, h.2.2.2⟩, fun h => ⟨h.nonblank, h.comma, h.brace, h.skips⟩⟩

theorem settingEntries_wellFormed (ctx : ChdbCopyContext) :
    ∀ e ∈ settingEntries ctx, SettingEntry e := by
  have hstatic : ∀ e ∈ [lit "s3_truncate_on_insert = 1", lit "azure_truncate_on_insert = 1",
      lit "engine_file_truncate_on_insert=1", lit "hdfs_truncate_on_insert = 1",
      lit "s3_request_timeout_ms = ", lit "azure_request_timeout_ms=",
      lit "http_connection_timeout=", lit "http_max_tries=1", lit "describe_compact_output=1",
      lit "flatten_nested=0"], SettingEntry e := by
    decide +kernel
  simp only [List.forall_mem_cons] at hstatic
  obtain ⟨hs3, hazure, hfile, hhdfs, hs3time, haztime, hhttp, htries, hdescribe, hnested, _⟩ :=
    hstatic
  intro e he
  simp only [settingEntries, List.mem_append] at he
  rcases he with (htruncate | htimeout) | hcommand
  · split at htruncate
    · cases hs : ctx.scheme <;> simp only [hs, List.mem_singleton, List.not_mem_nil] at htruncate
      case s3 => exact htruncate ▸ hs3
      case gcs => exact htruncate ▸ hs3
      case az => exact htruncate ▸ hazure
      case abfs => exact htruncate ▸ hazure
      case hdfs => exact htruncate ▸ hhdfs
      case file => exact htruncate ▸ hfile
    · cases htruncate
  · cases hs : ctx.scheme <;>
      simp only [hs, List.mem_cons, List.not_mem_nil, or_false] at htimeout
    case s3 => exact htimeout ▸ hs3time.decimal _
    case gcs => exact htimeout ▸ hs3time.decimal _
    case az => exact htimeout ▸ haztime.decimal _
    case abfs => exact htimeout ▸ haztime.decimal _
    case http =>
      rcases htimeout with rfl | rfl
      · exact hhttp.decimal _
      · exact htries
  · split at hcommand
    · exact List.mem_singleton.mp hcommand ▸ hdescribe
    · split at hcommand
      · exact List.mem_singleton.mp hcommand ▸ hnested
      · cases hcommand

section
variable {es : List Bytes} (hes : ∀ e ∈ es, SettingEntry e)
include hes

/-- The entries behind the first, as one text without a keyword or a placeholder. -/
theorem moreEntries_clean : skips settingsKeyword (es.flatMap (lit ", " ++ ·)) = true ∧
    byte '{' ∉ es.flatMap (lit ", " ++ ·) := by
  induction es with
  | nil => exact ⟨rfl, by simp⟩
  | cons e es ih =>
    rw [List.forall_mem_cons] at hes
    obtain ⟨hskip, hbrace⟩ := ih hes.2
    have hjoin : skips settingsKeyword (lit ", ") = true := by decide
    rw [List.flatMap_cons]
    refine ⟨skips_append (skips_append hjoin hes.1.skips) hskip, ?_⟩
    simp only [List.mem_append, not_or]
    exact ⟨⟨by decide, hes.1.brace⟩, hbrace⟩

/-- Each piece between commas has something in it. -/
theorem entries_nonblank {e : Bytes} (he : SettingEntry e) :
    ∀ p ∈ entries (byte ',') (lit " " ++ (e ++ es.flatMap (lit ", " ++ ·))),
      ∃ c ∈ p, c ≠ byte ' ' := by
  induction es generalizing e with
  | nil =>
    have hcomma : byte ',' ∉ lit " " ++ e := by
      rw [List.mem_append, not_or]
      exact ⟨by decide, he.comma⟩
    obtain ⟨c, hc, hne⟩ := he.nonblank
    intro p hp
    rw [List.flatMap_nil, List.append_nil, entries_of_not_mem hcomma, List.mem_singleton] at hp
    exact ⟨c, hp ▸ List.mem_append_right _ hc, hne⟩
  | cons e' es ih =>
    rw [List.forall_mem_cons] at hes
    have hcomma : byte ',' ∉ lit " " ++ e := by
      rw [List.mem_append, not_or]
      exact ⟨by decide, he.comma⟩
    obtain ⟨c, hc, hne⟩ := he.nonblank
    -- the piece up to the comma is the blank and the first entry
    have hsplit : lit " " ++ (e ++ (e' :: es).flatMap (lit ", " ++ ·))
        = (lit " " ++ e) ++ byte ',' :: (lit " " ++ (e' ++ es.flatMap (lit ", " ++ ·))) := by
      have hjoin : lit ", " = byte ',' :: lit " " := by decide
      simp [hjoin]
    intro p hp
    rw [hsplit, entries_append hcomma, List.mem_cons] at hp
    rcases hp with rfl | hmore
    · exact ⟨c, List.mem_append_right _ hc, hne⟩
    · exact ih hes.2 hes.1 p hmore

end

/-! ### The query -/

/-- At most one word opens a settings clause, and each entry behind it sets something. -/
def OneSettingsClause (text : Bytes) : Prop :=
  ∀ pre post, strstr settingsKeyword text = some (pre, post) →
    strstr settingsKeyword post = none ∧ ∀ p ∈ entries (byte ',') post, ∃ c ∈ p, c ≠ byte ' '

theorem oneSettingsClause {body : Bytes} {es : List Bytes}
    (hbody : skips settingsKeyword body = true) (hes : ∀ e ∈ es, SettingEntry e) :
    OneSettingsClause (body ++ settingsClause es) := by
  intro pre post h
  cases es with
  | nil =>
    rw [settingsClause, List.append_nil, strstr_eq_none_of_skips (by decide) hbody] at h
    cases h
  | cons e es =>
    rw [List.forall_mem_cons] at hes
    have hopen : lit " SETTINGS " = lit " " ++ (settingsKeyword ++ lit " ") := by decide
    have hblank : skips settingsKeyword (lit " ") = true := by decide
    -- the search passes over the body and stops at the keyword
    rw [settingsClause, hopen, List.append_assoc, List.append_assoc,
      strstr_append_of_skips hbody, strstr_append_of_skips hblank, strstr_append_self] at h
    cases h
    refine ⟨?_, entries_nonblank hes.2 hes.1⟩
    apply strstr_eq_none_of_skips (by decide)
    exact skips_append hblank (skips_append hes.1.skips (moreEntries_clean hes.2).1)

/-- A query whose text and parameters match. -/
structure ChQuery.WellFormed (query : ChQuery) : Prop where
  placeholders : placeholders query.text = some (query.names.map placeholder)
  nodup : query.names.Nodup
  length_le : query.params.length ≤ chdbMaxTablefuncArgs
  settings : OneSettingsClause query.text

/-- What a query begins with, up to its arguments. -/
def queryHead (ctx : ChdbCopyContext) : Bytes :=
  queryVerb ctx.cmdType ++ (lit " " ++ (ctx.scheme.tableFunction ++ lit "("))

theorem queryHead_clean (ctx : ChdbCopyContext) :
    skips settingsKeyword (queryHead ctx) = true ∧ byte '{' ∉ queryHead ctx := by
  unfold queryHead
  cases ctx.cmdType <;> cases ctx.scheme <;> decide +kernel

theorem makeChQuery_matches {ctx : ChdbCopyContext} {query : ChQuery}
    (h : makeChQuery ctx = .ok query) : query.WellFormed := by
  obtain ⟨args, hargs, rfl⟩ := makeChQuery_eq_ok.mp h
  have hok := schemeArguments_wellFormed hargs
  have hes := settingEntries_wellFormed ctx
  obtain ⟨hskip, hbrace⟩ := queryHead_clean ctx
  have hclose : skips settingsKeyword (lit ")") = true ∧ byte '{' ∉ lit ")" := by decide
  -- only the arguments have placeholders
  have hclause : byte '{' ∉ settingsClause (settingEntries ctx) := by
    cases hlist : settingEntries ctx with
    | nil => simp [settingsClause]
    | cons e es =>
      rw [hlist, List.forall_mem_cons] at hes
      simp only [settingsClause, List.mem_append, not_or]
      exact ⟨by decide, hes.1.brace, (moreEntries_clean hes.2).2⟩
  have htail : byte '{' ∉ lit ")" ++ settingsClause (settingEntries ctx) := by
    rw [List.mem_append, not_or]
    exact ⟨hclose.2, hclause⟩
  have htext : queryVerb ctx.cmdType ++ (lit " " ++ (ctx.scheme.tableFunction ++ (lit "(" ++
      (args.text ++ (schemeSettings ctx ++ commandSettings ctx)))))
        = queryHead ctx ++ (args.text ++ (lit ")" ++ settingsClause (settingEntries ctx))) := by
    rw [settings_eq]
    simp only [queryHead, List.append_assoc]
  rw [htext]
  have hlen : args.params.length = args.names.length := (List.length_map _).symm
  refine ⟨?_, hok.nodup, hlen ▸ hok.length_le, ?_⟩
  · have hslots := slots_append (slots_of_not_mem hbrace)
      (slots_append hok.placeholders (slots_of_not_mem htail))
    rw [List.nil_append, List.append_nil] at hslots
    exact hslots
  · have hbody := skips_append hskip (skips_append hok.skips hclose.1)
    have hone := oneSettingsClause hbody hes
    simpa only [List.append_assoc] using hone

/-- **Text and parameters match, and nothing the user wrote is in the text.** -/
theorem makeChQuery_wellFormed :
    (∀ ctx query, makeChQuery ctx = .ok query → query.WellFormed) ∧
      ∀ ctx ctx' query query', ChdbCopyContext.SameShape ctx ctx' →
        makeChQuery ctx = .ok query → makeChQuery ctx' = .ok query' → query.text = query'.text := by
  constructor
  · intro ctx query h
    exact makeChQuery_matches h
  · intro ctx ctx' query query' hctx h h'
    exact (makeChQuery_sameText hctx h h').text

end PgChdb
