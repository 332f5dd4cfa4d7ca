import PgChdb.Hook.ProcessUtility

namespace PgChdb

open CText Fallible Effects

/-!
# A table is loaded from the source that was described

`CREATE TABLE … WITH (copy_from = …)` without columns of its own asks chDB for the columns
at the URL and then for the rows, in two queries with four functions between them.

* `LoadsFrom` — what makes the second query read what the first one described;
* `loadsFrom_of_urlColumns` — it does, over the context the first one leaves;
* `createFromUrl_loads` — over every run of the hook.
-/

variable {T : Type}

/-! ### The two queries -/

/-- The setting under chDB keeps the fields of a `Nested` column together. -/
def keepNested : Bytes := lit "flatten_nested=0"

/-- The `SELECT` reads the source the `DESCRIBE` described.  The two queries are one text but
    for the verb and the setting each adds, so they call the same function with the same
    placeholders, and the parameters are the same but for the structure.  An inferred
    structure, its escapes undone once, is read as the described columns, and only with an
    inferred one are the fields of a `Nested` kept together, when there is one. -/
structure LoadsFrom (lib : PgchTypes T) (unescape : Bytes → Bytes)
    (columns : Bytes → Option (List (Bytes × T))) (typeOf : Bytes → Option T) (infers : Bool)
    (describe : ChQuery) (described : List ChdbDescribedColumn) (select : ChQuery) : Prop where
  text : ∃ body join, describe.text = lit "DESCRIBE TABLE" ++
        (body ++ (join ++ lit "describe_compact_output=1")) ∧
      select.text = lit "SELECT * FROM" ++
        (body ++ if infers && described.any lib.describesNested then join ++ keepNested else [])
  params : ∃ clause, select.value (lit "structure") = some clause ∧
    select.params = (describe.withStructure clause).params
  clause : infers → ∃ clause cols, select.value (lit "structure") = some clause ∧
    columns (unescape clause) = some cols ∧
    List.Forall₂ (fun d c => c.1 = d.name ∧ typeOf d.type = some c.2) described cols
  flatten : (strstr keepNested select.text).isSome ↔
    infers ∧ ∃ d ∈ described, lib.describesNested d

/-! ### What the text of a query has no place for -/

/-- The setting is nowhere in the text, and does not begin in it. -/
def ChQuery.Skips (query : ChQuery) : Prop := skips keepNested query.text = true

section
variable {ctx : ChdbCopyContext} {query : ChQuery}

theorem ChQuery.Skips.param (h : query.Skips) {format : Bytes}
    (hformat : skips keepNested format = true) (name val : Bytes) :
    (query.param format name val).Skips :=
  skips_append h hformat

theorem ChQuery.Skips.formatStructure (h : query.Skips) :
    (PgChdb.formatStructure ctx query).Skips :=
  (h.param (by decide) _ _).param (by decide) _ _

theorem ChQuery.Skips.compressionParam (h : query.Skips) :
    (PgChdb.compressionParam ctx query).Skips := by
  unfold PgChdb.compressionParam
  split
  · exact h
  · exact h.param (by decide) _ _

theorem ChQuery.Skips.credentials (h : query.Skips) : (PgChdb.credentials ctx query).Skips := by
  unfold PgChdb.credentials
  dsimp only
  have hnosign : skips keepNested (lit ", NOSIGN") = true := by decide
  have hkey : (query.param (lit ", {access_key:String}") (lit "access_key") ctx.accessKey).Skips :=
    h.param (by decide) _ _
  have hkeys : ((query.param (lit ", {access_key:String}") (lit "access_key") ctx.accessKey).param
      (lit ", {access_secret:String}") (lit "access_secret") ctx.accessSecret).Skips :=
    hkey.param (by decide) _ _
  split
  · exact skips_append h hnosign
  · split
    · exact hkeys.param (by decide) _ _
    · exact hkeys

/-- The placeholders of the arguments name no setting, whatever their values. -/
theorem schemeArguments_skips {args : ChQuery} (h : schemeArguments ctx {} = .ok args) :
    args.Skips := by
  have hone : ∀ {format : Bytes} (name val : Bytes), skips keepNested format = true →
      (ChQuery.param {} format name val).Skips := fun name val hf => hf
  have hurl : ∀ val, (ChQuery.param {} (lit "{url:String}") (lit "url") val).Skips :=
    fun val => hone _ val (by decide)
  have hazure : ∀ parts, (azureArguments ctx parts {}).Skips := by
    intro parts
    unfold azureArguments
    exact (((((((hurl _).param (by decide) _ _).param (by decide) _ _).param (by decide) _ _).param
      (by decide) _ _).param (by decide) _ _).param (by decide) _ _).param (by decide) _ _
  rcases schemeArguments_cases h with ⟨_, rfl⟩ | ⟨_, uri, _, rfl⟩ | ⟨_, parts, _, rfl⟩ |
    ⟨_, path, _, rfl⟩
  · exact (hurl _).formatStructure
  · exact (hurl _).credentials.formatStructure.compressionParam
  · exact hazure parts
  · exact (hone _ path (by decide)).formatStructure.compressionParam

/-- Neither do the settings of the table functions, outside an `INSERT`. -/
theorem schemeSettings_skips (hcmd : ctx.cmdType ≠ .insert) :
    skips keepNested (schemeSettings ctx) = true := by
  have htruncate : ∀ setting, truncateSetting ctx setting = [] := fun _ => if_neg hcmd
  have hnumber : ∀ n, skips keepNested (decimal n) = true :=
    fun n => skips_of_head_not_mem (lit "latten_nested=0") (not_mem_decimal (by decide) n)
  have hseconds : ∀ n, skips keepNested
      (lit ") SETTINGS http_connection_timeout=" ++ decimal n ++ lit ", http_max_tries=1") = true :=
    fun n => skips_append (skips_append (by decide) (hnumber n)) (by decide)
  unfold schemeSettings
  simp only [htruncate, List.append_nil]
  cases ctx.scheme with
  | http => exact hseconds _
  | s3 => exact skips_append (by decide) (hnumber _)
  | gcs => exact skips_append (by decide) (hnumber _)
  | az => exact skips_append (by decide) (hnumber _)
  | abfs => exact skips_append (by decide) (hnumber _)
  | hdfs => show skips keepNested (lit ")") = true; decide
  | file => show skips keepNested (lit ")") = true; decide

end

/-! ### The two queries of one source -/

/-- What follows the verb, up to the setting the command adds. -/
def queryBody (ctx : ChdbCopyContext) (args : ChQuery) : Bytes :=
  lit " " ++ (ctx.scheme.tableFunction ++ (lit "(" ++ (args.text ++ schemeSettings ctx)))

theorem queryBody_skips {ctx : ChdbCopyContext} {args : ChQuery}
    (hargs : schemeArguments ctx {} = .ok args) (hcmd : ctx.cmdType ≠ .insert) :
    skips keepNested (queryBody ctx args) = true := by
  have hfunction : skips keepNested ctx.scheme.tableFunction = true := by
    cases ctx.scheme <;> decide
  have htail := skips_append (schemeArguments_skips hargs) (schemeSettings_skips hcmd)
  have hopen : skips keepNested (lit "(" ++ (args.text ++ schemeSettings ctx)) = true :=
    skips_append (by decide) htail
  exact skips_append (by decide) (skips_append hfunction hopen)

theorem schemeSettings_sameSource {ctx ctx' : ChdbCopyContext} (h : ctx.SameSource ctx')
    (hcmd : ctx.cmdType ≠ .insert) (hcmd' : ctx'.cmdType ≠ .insert) :
    schemeSettings ctx' = schemeSettings ctx := by
  have htruncate : ∀ setting, truncateSetting ctx' setting = truncateSetting ctx setting := by
    intro setting
    rw [truncateSetting, truncateSetting, if_neg hcmd, if_neg hcmd']
  simp only [schemeSettings, htruncate, h.scheme, h.timeout]

/-- What is relied on of the vendored names and types and of chDB: a quoted name is a token
    that denotes it, the escapes of a parameter are undone once, and a type clickhouse-c
    parses is one chDB reads. -/
structure ReadsInferred (lib : PgchTypes T) (unescape : Bytes → Bytes)
    (columns : Bytes → Option (List (Bytes × T))) (typeOf : Bytes → Option T)
    (esc : UInt8 → Bytes) : Prop where
  ident : ∀ n, Denotes esc (lib.quoteChIdent n) n
  unescapes : Undoes backslash unescape
  reads : ReadsColumns esc typeOf columns
  types : ∀ type place t, lib.parseType type place = .ok t → ∃ t', typeOf type = some t'

section
variable {lib : PgchTypes T} {unescape : Bytes → Bytes}
  {columns : Bytes → Option (List (Bytes × T))} {typeOf : Bytes → Option T} {esc : UInt8 → Bytes}
  (hread : ReadsInferred lib unescape columns typeOf esc)
include hread

/-- The columns a list of described columns is read as. -/
private theorem exists_described (described : List ChdbDescribedColumn)
    (hparsed : ∀ d ∈ described, ∃ t, lib.parseType d.type (columnPlace d) = .ok t) :
    ∃ cols : List (Bytes × T),
      List.Forall₂ (fun d c => c.1 = d.name ∧ typeOf d.type = some c.2) described cols ∧
      List.Forall₂ (fun i c => Denotes esc i.1 c.1 ∧ typeOf i.2 = some c.2)
        (describedItems lib.toPgchNames described) cols := by
  induction described with
  | nil => exact ⟨[], List.Forall₂.nil, List.Forall₂.nil⟩
  | cons d described ih =>
    obtain ⟨cols, hcols, hitems⟩ := ih fun e he => hparsed e (List.mem_cons_of_mem d he)
    obtain ⟨t, ht⟩ := hparsed d List.mem_cons_self
    obtain ⟨t', ht'⟩ := hread.types _ _ _ ht
    exact ⟨(d.name, t') :: cols, List.Forall₂.cons ⟨rfl, ht'⟩ hcols,
      List.Forall₂.cons ⟨hread.ident d.name, ht'⟩ hitems⟩

/-- **The query over what `chdb_url_columns` leaves reads the source it described.** -/
theorem loadsFrom_of_urlColumns {ctx ctx' sel : ChdbCopyContext}
    {described : List ChdbDescribedColumn} {elts : List ColumnDef} {describe select : ChQuery}
    (hdescribe : makeChQuery (describeContext ctx) = .ok describe)
    (hcolumns : urlColumns lib ctx described = .ok (elts, ctx')) (hsource : ctx'.SameSource sel)
    (hclause : sel.structureClause = ctx'.structureClause)
    (hnested : sel.preserveNested = ctx'.preserveNested) (hcmd : sel.cmdType = .select)
    (hfresh : ctx.preserveNested = false)
    (hselect : chdbCopyQuery lib.toPgchNames sel = .ok select) :
    LoadsFrom lib unescape columns typeOf ctx.infersStructure describe described select := by
  obtain ⟨hne, _, hparsed, rfl⟩ := urlColumns_eq_ok hcolumns
  simp only at hclause hnested
  rw [hfresh, Bool.false_or] at hnested
  have hitems : describedItems lib.toPgchNames described ≠ [] := by
    simpa [describedItems] using hne
  -- the structure is there already, so `chdb_copy` derives none
  have hgiven : sel.structureClause ≠ [] := by
    rw [hclause]
    by_cases hinfer : ctx.infersStructure = true
    · rw [if_pos hinfer]
      exact doubled_ne_nil (clauseOf_ne_nil hitems)
    · rw [if_neg hinfer]
      intro hnil
      simp [ChdbCopyContext.infersStructure, hnil] at hinfer
  rw [chdbCopyQuery, deriveStructure, if_neg hgiven] at hselect
  have hsame : (describeContext ctx).SameSource sel :=
    { hsource with }
  have hvalue := makeChQuery_structure hselect
  obtain ⟨args, hargs, rfl⟩ := makeChQuery_eq_ok.mp hdescribe
  obtain ⟨args', hargs', rfl⟩ := makeChQuery_eq_ok.mp hselect
  -- the two make the same arguments, but for the structure
  have hargs₂ := hsame.schemeArguments
  rw [hargs, hargs'] at hargs₂
  have hpair : args' = args.withStructure sel.structureClause := by simpa using hargs₂
  have hsettings := schemeSettings_sameSource hsame (by simp [describeContext]) (by simp [hcmd])
  have hbody : queryBody sel args' = queryBody (describeContext ctx) args := by
    rw [queryBody, queryBody, hsame.scheme, hsettings, hpair]
    rfl
  have hadds : commandSettings sel = if ctx.infersStructure && described.any lib.describesNested
      then settingsJoin ctx.scheme ++ keepNested else [] := by
    simp [commandSettings, hcmd, hnested, hsame.scheme, describeContext, keepNested]
  have htext : ∀ verb adds, verb ++ (lit " " ++ (sel.scheme.tableFunction ++ (lit "(" ++
      (args'.text ++ (schemeSettings sel ++ adds))))) = verb ++ (queryBody sel args' ++ adds) := by
    intro verb adds
    simp [queryBody]
  have hdescribed : ∀ verb adds, verb ++ (lit " " ++ ((describeContext ctx).scheme.tableFunction ++
      (lit "(" ++ (args.text ++ (schemeSettings (describeContext ctx) ++ adds)))))
      = verb ++ (queryBody (describeContext ctx) args ++ adds) := by
    intro verb adds
    simp [queryBody]
  rw [htext, hadds, hcmd, hbody] at hvalue ⊢
  rw [hdescribed]
  refine ⟨⟨_, _, rfl, rfl⟩, ⟨_, hvalue, by rw [hpair]; rfl⟩, ?_, ?_⟩
  · intro hinfer
    obtain ⟨cols, hcols, hcolsItems⟩ := exists_described hread described hparsed
    refine ⟨_, cols, hvalue, ?_, hcols⟩
    -- the backslashes were doubled, so undoing the escapes once gives the clause
    rw [hclause, if_pos hinfer, hread.unescapes.doubled]
    exact hread.reads.clauseOf hitems hcolsItems
  · have hskips : skips keepNested
        (lit "SELECT * FROM" ++ queryBody (describeContext ctx) args) = true :=
      skips_append (by decide) (queryBody_skips hargs (by simp [describeContext]))
    show (strstr keepNested (lit "SELECT * FROM" ++ _)).isSome ↔ _
    rw [← List.append_assoc]
    -- the setting is found where it was added, and nowhere in front of that
    by_cases hadd : (ctx.infersStructure && described.any lib.describesNested) = true
    · have hjoin : skips keepNested (settingsJoin ctx.scheme) = true := by
        unfold settingsJoin
        split <;> decide
      have hself := strstr_append_self keepNested []
      rw [List.append_nil] at hself
      rw [if_pos hadd, strstr_append_of_skips hskips, strstr_append_of_skips hjoin, hself]
      simpa using hadd
    · rw [if_neg hadd, List.append_nil, strstr_eq_none_of_skips (by decide) hskips]
      simpa using hadd

end

/-! ### The run of a statement -/

/-- What passes between the hook and its helpers. -/
def HookEvent.isHelper : HookEvent → Bool
  | .startHelper _ _ => true
  | .described _ => true
  | .copied _ => true
  | _ => false

/-- The part of a run that passes between the hook and its helpers. -/
def dialogue (t : List HookEvent) : List HookEvent := t.filter HookEvent.isHelper

theorem mem_dialogue {t : List HookEvent} {hcx : ChdbHelperContext} {query : ChQuery} :
    HookEvent.startHelper hcx query ∈ dialogue t ↔ HookEvent.startHelper hcx query ∈ t := by
  simp [dialogue, HookEvent.isHelper]

/-- Nothing passes to or from a helper. -/
def HookEvent.quiet (e : HookEvent) : Bool := !e.isHelper

theorem dialogue_quiet {h t : List HookEvent} (ht : Grown HookEvent.quiet h t) :
    dialogue t = dialogue h := by
  apply ht.induction (I := fun u => dialogue u = dialogue h) _ rfl
  intro u e he hu
  have hno : e.isHelper = false := by simpa [HookEvent.quiet] using he
  rw [← hu]
  simp [dialogue, hno]

/-- The structure is left to chDB by the options of the statement. -/
def CreateStmt.infersStructure (cfg : HookConfig) (create : CreateStmt) : Bool :=
  let options := takeUrlOptions create >>= fun p =>
    contextualizeOptions cfg.parseCheck true cfg.context p.1.options
  match options with
  | .ok (ctx, _) => ctx.infersStructure
  | .error _ => false

/-- A run loads what it described: a `SELECT` is sent only after a `DESCRIBE` was answered,
    it reads the source described, and the table it loads was created with the columns
    described. -/
def Loads (lib : PgchTypes T) (unescape : Bytes → Bytes)
    (columns : Bytes → Option (List (Bytes × T))) (typeOf : Bytes → Option T) (infers : Bool)
    (t : List HookEvent) : Prop :=
  ∀ hcx select, HookEvent.startHelper hcx select ∈ t → hcx.cmd = .select →
    ∃ hd describe described rest, dialogue t
        = .startHelper hd describe :: .described described :: .startHelper hcx select :: rest ∧
      hd.cmd = .describe ∧
      LoadsFrom lib unescape columns typeOf infers describe described select ∧
      ∃ create, .prevProcessUtility (.create create) ∈ t ∧
        create.tableElts.map ColumnDef.colname = described.map ChdbDescribedColumn.name

/-- So far there has been at most a `DESCRIBE`. -/
def OnlyDescribed (t : List HookEvent) : Prop :=
  ∀ hcx query, HookEvent.startHelper hcx query ∈ t → hcx.cmd = .describe

/-- The `DESCRIBE` over a context was answered, and these are the columns and the context it
    left. -/
structure Described (lib : PgchTypes T) (cfg : HookConfig) (infers : Bool) (url : Bytes)
    (elts : List ColumnDef) (ctx' : ChdbCopyContext) (t : List HookEvent) : Prop where
  source : ∃ hd describe described ctx,
    dialogue t = [.startHelper hd describe, .described described] ∧
    hd.cmd = .describe ∧ makeChQuery (describeContext ctx) = .ok describe ∧
    urlColumns lib ctx described = .ok (elts, ctx') ∧ ctx.url = url ∧
    schemeFor cfg.noFileScheme (some url) = some ctx.scheme ∧ ctx.infersStructure = infers ∧
    ctx.preserveNested = false

theorem OnlyDescribed.loads {lib : PgchTypes T} {unescape : Bytes → Bytes}
    {columns : Bytes → Option (List (Bytes × T))} {typeOf : Bytes → Option T} {infers : Bool}
    {t : List HookEvent} (h : OnlyDescribed t) : Loads lib unescape columns typeOf infers t := by
  intro hcx select hmem hcmd
  rw [h hcx select hmem] at hcmd
  cases hcmd

theorem OnlyDescribed.quiet {h t : List HookEvent} (hh : OnlyDescribed h)
    (ht : Grown HookEvent.quiet h t) : OnlyDescribed t := by
  intro hcx query hmem
  rw [← mem_dialogue, dialogue_quiet ht, mem_dialogue] at hmem
  exact hh hcx query hmem

/-! ### The steps that pass nothing -/

theorem HookEvent.quiet_of_isCheck (e : HookEvent) (he : e.isCheck = true) : e.quiet = true := by
  cases e <;> first | rfl | cases he

theorem Grown.quiet {h t : List HookEvent} (ht : Grown HookEvent.isCheck h t) :
    Grown HookEvent.quiet h t :=
  ht.weaken HookEvent.quiet_of_isCheck

/-! ### The `DESCRIBE` -/

theorem chdbDescribe_wp (srv : HookServer) (ctx : ChdbCopyContext) (h : List HookEvent) :
    wp (chdbDescribe srv ctx)
      (fun described t => ∃ describe, makeChQuery (describeContext ctx) = .ok describe ∧
        t = h ++ [.startHelper (describeContext ctx).helper describe, .described described])
      (fun t => t = h ∨ ∃ describe,
        t = h ++ [.startHelper (describeContext ctx).helper describe]) h := by
  unfold chdbDescribe
  rw [wp_bind]
  refine wp_lift (fun describe hdescribe => ?_) (Or.inl rfl)
  rw [wp_bind]
  refine wp_call ?_ (Or.inr ⟨describe, rfl⟩)
  refine wp_ask (fun described _ => ?_) (Or.inr ⟨describe, rfl⟩)
  exact ⟨describe, hdescribe, by simp⟩

/-- A `DESCRIBE` is all that is added. -/
private theorem OnlyDescribed.start {h : List HookEvent} (hh : OnlyDescribed h)
    (ctx : ChdbCopyContext) (describe : ChQuery) :
    OnlyDescribed (h ++ [.startHelper (describeContext ctx).helper describe]) := by
  intro hcx query hmem
  rcases List.mem_append.mp hmem with hold | hnew
  · exact hh hcx query hold
  · rw [List.mem_singleton] at hnew
    cases hnew
    rfl

private theorem OnlyDescribed.answered {h : List HookEvent} (hh : OnlyDescribed h)
    (described : List ChdbDescribedColumn) : OnlyDescribed (h ++ [.described described]) := by
  intro hcx query hmem
  rcases List.mem_append.mp hmem with hold | hnew
  · exact hh hcx query hold
  · simp at hnew

/-- Before the table is created its source has at most been described, and if the table is
    to be loaded the columns and the context are those of that source. -/
theorem createColumnsFromUrl_wp (srv : HookServer) (cfg : HookConfig) (lib : PgchTypes T)
    {create : CreateStmt} (hcolumns : create.hasColumns = false) {h : List HookEvent}
    (hh : OnlyDescribed h) (hnone : dialogue h = []) :
    wp (createColumnsFromUrl srv cfg lib create cfg.context)
      (fun r t => OnlyDescribed t ∧ ∀ url, r.2.1.copyUrl = some url →
        Described lib cfg (create.infersStructure cfg) url r.1.tableElts r.2.2 t)
      OnlyDescribed h := by
  unfold createColumnsFromUrl
  rw [wp_bind]
  refine wp_lift (fun taken htake => ?_) hh
  obtain ⟨create', urls⟩ := taken
  have hcolumns' : create'.hasColumns = false := by
    simp only [takeUrlOptions, bind_eq_ok, pure_eq_ok] at htake
    obtain ⟨_, _, _, _, heq⟩ := htake
    cases heq
    exact hcolumns
  rw [wp_bind]
  refine wp_lift (fun urls' hcheck => ?_) hh
  rw [wp_bind]
  refine wp_ask (fun found _ => ?_) hh
  have hlook := Grown.single (p := HookEvent.quiet)
    (e := .relnameLookup create'.relname found) rfl h
  rw [wp_bind]
  refine wp_lift (fun _ _ => ?_) (hh.quiet hlook)
  rw [wp_bind]
  refine wp_lift (fun options hctx => ?_) (hh.quiet hlook)
  obtain ⟨ctx, storage⟩ := options
  have hinfers : create.infersStructure cfg = ctx.infersStructure := by
    simp only [CreateStmt.infersStructure, htake, bind, Except.bind, hctx]
  have hfresh : ctx.preserveNested = false :=
    congrArg ChdbCopyContext.preserveNested (contextualizeOptions_keeps hctx)
  -- a table without columns takes them from the URL it is loaded from
  have hsource : ∀ url, urls'.copyUrl = some url → urls'.structureUrl = some url :=
    fun url hurl => checkUrlOptions_structureUrl hcheck hcolumns' hurl
  dsimp only
  cases hurl : urls'.structureUrl with
  | none =>
    refine ⟨hh.quiet hlook, fun url hcopy => ?_⟩
    rw [hsource url hcopy] at hurl
    cases hurl
  | some url =>
    dsimp only
    rw [wp_bind]
    refine wp_mono (optionUrlScheme_wp srv _ cfg url structureFromOption)
      (fun scheme t hscheme => ?_) (fun t ht => hh.quiet (hlook.trans (Grown.quiet ht)))
    obtain ⟨hscheme, hchecks, _⟩ := hscheme
    have hgrown := Grown.quiet hchecks
    have ht : OnlyDescribed t := hh.quiet (hlook.trans hgrown)
    rw [wp_bind]
    refine wp_mono (chdbDescribe_wp srv { ctx with url, scheme } t) (fun described u hu => ?_)
      (fun u hu => ?_)
    · obtain ⟨describe, hdescribe, rfl⟩ := hu
      have hafter := (ht.start { ctx with url, scheme } describe).answered described
      rw [List.append_assoc] at hafter
      rw [wp_bind]
      refine wp_lift (fun loaded hcols => ?_) hafter
      obtain ⟨columns, ctx'⟩ := loaded
      refine ⟨hafter, fun url' hcopy => ⟨?_⟩⟩
      have heq : url' = url := by
        have hu := (hsource url' hcopy).symm.trans hurl
        exact Option.some.inj hu
      subst heq
      have hdialogue : dialogue t = [] := (dialogue_quiet (hlook.trans hgrown)).trans hnone
      refine ⟨(describeContext { ctx with url := url', scheme }).helper, describe, described,
        { ctx with url := url', scheme }, ?_, rfl, hdescribe, hcols, rfl, hscheme, hinfers.symm,
        hfresh⟩
      rw [dialogue, List.filter_append]
      rw [dialogue] at hdialogue
      rw [hdialogue]
      rfl
    · rcases hu with rfl | ⟨describe, rfl⟩
      · exact ht
      · exact ht.start _ describe

/-! ### The `SELECT` -/

section
variable {lib : PgchTypes T} {unescape : Bytes → Bytes}
  {columns : Bytes → Option (List (Bytes × T))} {typeOf : Bytes → Option T} {infers : Bool}

/-- What comes after the `SELECT` takes nothing back. -/
theorem Loads.append {t : List HookEvent} (h : Loads lib unescape columns typeOf infers t)
    {e : HookEvent} (he : ∀ hcx query, e ≠ .startHelper hcx query) :
    Loads lib unescape columns typeOf infers (t ++ [e]) := by
  intro hcx select hmem hcmd
  rcases List.mem_append.mp hmem with hold | hnew
  · obtain ⟨hd, describe, described, rest, hdialogue, hdescribe, hloads, create, hcreate, hnames⟩ :=
      h hcx select hold hcmd
    refine ⟨hd, describe, described, rest ++ [e].filter HookEvent.isHelper, ?_, hdescribe, hloads,
      create, List.mem_append_left [e] hcreate, hnames⟩
    rw [dialogue] at hdialogue ⊢
    rw [List.filter_append, hdialogue]
    rfl
  · rw [List.mem_singleton] at hnew
    exact absurd hnew.symm (he hcx select)

variable {esc : UInt8 → Bytes}

/-- The copy into the new table sends one query, and it loads what was described. -/
theorem copyUrlInto_wp (hread : ReadsInferred lib unescape columns typeOf esc) (srv : HookServer)
    (cfg : HookConfig) {create : CreateStmt} {url : Bytes} {ctx : ChdbCopyContext}
    {h : List HookEvent} (hh : OnlyDescribed h)
    (hdescribed : Described lib cfg infers url create.tableElts ctx h)
    (hcreate : .prevProcessUtility (.create create) ∈ h) :
    wp (copyUrlInto srv cfg lib.toPgchNames create.relname url ctx)
      (fun _ => Loads lib unescape columns typeOf infers)
      (Loads lib unescape columns typeOf infers) h := by
  obtain ⟨hd, describe, described, ctx₀, hdialogue, hdescribe, hquery, hcolumns, hurl, hscheme₀,
    hinfers, hfresh⟩ := hdescribed.source
  unfold copyUrlInto
  rw [wp_bind]
  refine wp_mono (optionUrlScheme_wp srv h cfg url copyFromOption) (fun scheme t hscheme => ?_)
    (fun t ht => (hh.quiet (Grown.quiet ht)).loads)
  obtain ⟨hscheme, hchecks, _⟩ := hscheme
  have hgrown := Grown.quiet hchecks
  rw [wp_bind]
  have hcounter := hgrown.trans
    (Grown.single (p := HookEvent.quiet) (e := .commandCounterIncrement) rfl t)
  refine wp_call ?_ (hh.quiet hcounter).loads
  rw [wp_bind]
  refine wp_mono (openCopyRelation_wp srv _ create.relname [] true _) (fun sel u hsel => ?_)
    (fun u hu => (hh.quiet (hcounter.trans (Grown.quiet hu))).loads)
  obtain ⟨rel, attnums, _, hsel, hu, _⟩ := hsel
  have hopened : Grown HookEvent.quiet (t ++ [.commandCounterIncrement]) u :=
    ⟨_, hu, by simp [HookEvent.quiet, HookEvent.isHelper]⟩
  have hquiet := (hcounter.trans hopened).trans
    (Grown.single (p := HookEvent.quiet) (e := .chdbCopy sel) rfl u)
  rw [wp_bind]
  unfold chdbCopy
  rw [wp_bind, wp_note, wp_bind]
  refine wp_lift (fun select hselect => ?_) (hh.quiet hquiet).loads
  have hscheme' : scheme = ctx₀.scheme := Option.some.inj (hscheme.symm.trans hscheme₀)
  have hctx := (urlColumns_eq_ok hcolumns).2.2.2
  have hloads : LoadsFrom lib unescape columns typeOf infers describe described select := by
    have hsource : ctx.SameSource sel := by
      constructor <;> simp [hsel, hctx, hscheme', hurl]
    rw [← hinfers]
    exact loadsFrom_of_urlColumns hread hquery hcolumns hsource (by rw [hsel]) (by rw [hsel])
      (by rw [hsel]) hfresh hselect
  -- from here on the dialogue is the two queries
  generalize u ++ [.chdbCopy sel] = v at hquiet ⊢
  obtain ⟨es, rfl, hes⟩ := hquiet
  have hsent : ∀ hcx, Loads lib unescape columns typeOf infers
      ((h ++ es) ++ [.startHelper hcx select]) := by
    intro hcx hcx' select' hmem hcmd
    rcases List.mem_append.mp hmem with hold | hnew
    -- before this one only a `DESCRIBE` was sent
    · rw [(hh.quiet ⟨es, rfl, hes⟩) hcx' select' hold] at hcmd
      cases hcmd
    · rw [List.mem_singleton] at hnew
      cases hnew
      refine ⟨hd, describe, described, [], ?_, hdescribe, hloads, create, by simp [hcreate],
        (urlColumns_eq_ok hcolumns).2.1⟩
      have hkeep : dialogue (h ++ es) = dialogue h := dialogue_quiet ⟨es, rfl, hes⟩
      rw [dialogue] at hkeep ⊢
      rw [List.filter_append, hkeep, ← dialogue, hdialogue]
      rfl
  rw [wp_bind]
  refine wp_call ?_ (hsent _)
  refine wp_ask (fun rows _ => ?_) (hsent _)
  have hcopied := (hsent sel.helper).append (e := .copied rows) (by simp)
  exact wp_call (hcopied.append (by simp)) (hcopied.append (by simp))

/-- **A table created over a URL is loaded from the source that was described**, in every run
    of the hook, for every statement with `copy_from` and no columns of its own and whatever
    PostgreSQL and the helper answer: the `SELECT` differs from the `DESCRIBE` before it in the
    verb, the added setting and the value of the structure, and an inferred structure is read
    as the columns described, which are those of the table.  With a structure that was given,
    the fields of a `Nested` are not kept together. -/
theorem createFromUrl_loads (hread : ReadsInferred lib unescape columns typeOf esc)
    (srv : HookServer) (cfg : HookConfig) {create : CreateStmt}
    (hcolumns : create.hasColumns = false) :
    wp (chDBProcessUtilityHook srv cfg lib (.create create))
      (fun _ => Loads lib unescape columns typeOf (create.infersStructure cfg))
      (Loads lib unescape columns typeOf (create.infersStructure cfg)) [] := by
  have hnil : OnlyDescribed [] := by
    intro hcx query hmem
    cases hmem
  have hplain : ∀ {t : List HookEvent} {e : HookEvent}, OnlyDescribed t → e.quiet = true →
      OnlyDescribed (t ++ [e]) := fun ht he => ht.quiet (Grown.single he _)
  show wp (if chdbCreatesFromUrl create then createFromUrl srv cfg lib create
    else call srv.call (.prevProcessUtility (.create create))) _ _ []
  by_cases hfrom : chdbCreatesFromUrl create = true
  · rw [if_pos hfrom]
    unfold createFromUrl
    have hreadOnly : OnlyDescribed [.preventCommandIfReadOnly (lit "CREATE TABLE")] :=
      hplain hnil rfl
    rw [wp_bind]
    refine wp_call ?_ hreadOnly.loads
    rw [wp_bind]
    refine wp_mono (createColumnsFromUrl_wp srv cfg lib hcolumns hreadOnly rfl)
      (fun ⟨create', urls, ctx⟩ t ht => ?_) (fun t ht => ht.loads)
    obtain ⟨ht, hdescribed⟩ := ht
    have hcreated : OnlyDescribed (t ++ [.prevProcessUtility (.create create')]) := hplain ht rfl
    rw [wp_bind]
    refine wp_call ?_ hcreated.loads
    cases hcopy : urls.copyUrl with
    | none => exact hcreated.loads
    | some url =>
      have hsource := (hdescribed url hcopy).source
      have hkeep : dialogue (t ++ [.prevProcessUtility (.create create')]) = dialogue t :=
        dialogue_quiet (Grown.single rfl t)
      exact copyUrlInto_wp hread srv cfg hcreated ⟨by rw [hkeep]; exact hsource⟩ (by simp)
  · rw [if_neg hfrom]
    exact wp_call (hplain hnil rfl).loads (hplain hnil rfl).loads

end

/-! ### Two statements -/

/-- A server on which nothing fails and no relation of the name exists. -/
def plainServer (columns : List ChdbDescribedColumn) : HookServer where
  call _ _ := .ok ()
  hasPrivsOfRole _ _ := .ok true
  relnameLookup _ _ := .ok false
  tableOpen _ relname _ := .ok { relname, relkind := byte 'r', attrs := [intAttribute (lit "id")] }
  copyGetAttnums _ _ := .ok [1]
  checkEnableRls _ _ := .ok false
  relkindNotSupported _ := []
  described _ := .ok columns
  copied _ := .ok 0

/-- A build with every scheme, and no limits. -/
def plainConfig : HookConfig where
  noFileScheme := false
  maxMemory := 0
  maxThreads := 0
  maxParsers := 0
  parseCheck _ := some .fail

/-- An option with a text for its value. -/
def textOption (name value : Bytes) : DefElem where
  defname := name
  string := .ok value
  int64 := .error { errcode := .syntaxError, errmsg := name ++ lit " requires a numeric value" }

/-- `CREATE TABLE t () WITH (copy_from = 'https://h/t.json', …)`. -/
def createFrom (options : List DefElem) : CreateStmt where
  relname := lit "t"
  ifNotExists := false
  tableElts := []
  inhRelations := false
  partbound := false
  ofTypename := false
  options := textOption copyFromOption (lit "https://h/t.json") :: options

/-- Types as their texts, every column a `text` in the table.  `reads` tells which texts are
    types. -/
def textTypes (reads : Bytes → Option Bytes) : PgchTypes Bytes where
  toPgchNames := intNames
  parseType type _ :=
    match reads type with
    | some t => .ok t
    | none => .error { errcode := .featureNotSupported, errmsg := lit "unknown type" }
  isNested t := (lit "Nested(").isPrefixOf t
  pgTypeFor _ _ := .ok { typid := 25, typmod := -1, ndims := 0, nullable := true }
  isColumn _ := true

/-- The command and the text of a query sent. -/
def HookEvent.sent : HookEvent → Option (ChdbCmdType × Bytes)
  | .startHelper hcx query => some (hcx.cmd, query.text)
  | _ => none

/-- A table of one column that needs quoting is loaded from the source described. -/
theorem createFromUrl_loads_csv :
    wp (chDBProcessUtilityHook (plainServer [{ name := lit "a\"b", type := lit "String" }])
        plainConfig (textTypes wordType) (.create (createFrom [])))
      (fun _ => Loads (textTypes wordType) unescapeOnce (wordColumns plainEscapes) wordType true)
      (Loads (textTypes wordType) unescapeOnce (wordColumns plainEscapes) wordType true) [] := by
  have hread : ReadsInferred (textTypes wordType) unescapeOnce (wordColumns plainEscapes) wordType
      plainEscapes := by
    constructor
    · intro n
      rcases quoteName_writes n with hbare | hquoted
      · exact Or.inl hbare
      · exact Or.inr ⟨_, hquoted, readBody_escaped plainEscapes_spec n []⟩
    · exact unescapeOnce_spec.toUndoes
    · exact wordColumns_reads
    · intro type place t hparse
      simp only [textTypes] at hparse
      cases hword : wordType type with
      | none => rw [hword] at hparse; cases hparse
      | some t' => exact ⟨t', rfl⟩
  have hcolumns : (createFrom []).hasColumns = false := rfl
  exact createFromUrl_loads hread (plainServer [{ name := lit "a\"b", type := lit "String" }])
    plainConfig hcolumns

/-- With a `Nested` in a structure that is given, the `SELECT` does not keep its fields
    together, though the `DESCRIBE` reported it. -/
theorem createFromUrl_given_nested :
    let described := { name := lit "n", type := lit "Nested(a UInt8)" : ChdbDescribedColumn }
    (textTypes some).describesNested described = true ∧
      (calls (chDBProcessUtilityHook (plainServer [described]) plainConfig (textTypes some)
        (.create (createFrom [textOption (lit "structure") (lit "n Nested(a UInt8)")])))).filterMap
          HookEvent.sent
        = [(.describe,
            lit "DESCRIBE TABLE url({url:String}, {format:String}, {structure:String})" ++
              lit " SETTINGS http_connection_timeout=30, http_max_tries=1" ++
              lit ", describe_compact_output=1"),
            (.select, lit "SELECT * FROM url({url:String}, {format:String}, {structure:String})" ++
              lit " SETTINGS http_connection_timeout=30, http_max_tries=1")] ∧
      strstr keepNested
        (lit "SELECT * FROM url({url:String}, {format:String}, {structure:String})" ++
          lit " SETTINGS http_connection_timeout=30, http_max_tries=1") = none := by
  decide +kernel

end PgChdb
