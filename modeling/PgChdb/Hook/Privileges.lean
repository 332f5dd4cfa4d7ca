import PgChdb.Hook.Load

namespace PgChdb

open CText Fallible Effects

/-!
# No helper without the privileges of the command

chDB reads and writes with the rights of the server's own user, so whatever PostgreSQL asks
of a role before a `COPY` has to be asked before a helper is started.

* `ChQuery.onFile` — the query is over a file of the server;
* `Authorized` — what was asked, and granted, before a query is sent;
* `LeftToPostgres` — the copies that are not chDB's;
* `chDBProcessUtilityHook_authorized` — over every run of the hook.
-/

variable {T : Type}

/-! ### What has to be asked -/

/-- The query reads or writes through the `file` table function. -/
def ChQuery.onFile (cmd : ChdbCmdType) (query : ChQuery) : Bool :=
  (queryVerb cmd ++ lit " file(").isPrefixOf query.text

/-- What a run has recorded before a helper is started with this query.  Over a file, the role
    had the privileges to read or write server files.  A copy goes through the context
    `chdb_copy` was entered with; just before, the relation of that context was opened, the
    role was granted `ACL_INSERT` or `ACL_SELECT` on the columns the context lists, row-level
    security did not apply, and a relation to be read is a plain table.  An
    `execCheckPermissions` that is not the last event of a run has granted. -/
structure Authorized (pre : List HookEvent) (hcx : ChdbHelperContext) (query : ChQuery) :
    Prop where
  file : query.onFile hcx.cmd → .hasPrivsOfRole (hcx.cmd ≠ .insert) true ∈ pre
  relation : hcx.cmd ≠ .describe → ∃ asked rel ctx,
    pre = asked ++ [.tableOpen (hcx.cmd = .select) rel,
      .execCheckPermissions rel (hcx.cmd = .select) ctx.attnums, .checkEnableRls rel false,
      .chdbCopy ctx] ∧
    ctx.helper = hcx ∧ ctx.rel = rel.attrs ∧ (hcx.cmd = .insert → rel.relkind = byte 'r')

/-- Every helper of a run was started with the privileges. -/
def AllAuthorized : List HookEvent → Prop :=
  Permits fun pre e => ∀ hcx query, e = .startHelper hcx query → Authorized pre hcx query

/-- `COPY … PROGRAM`, and a file name whose text before the first `://` is no scheme of the
    build. -/
def LeftToPostgres (cfg : HookConfig) (copy : CopyStmt) : Prop :=
  copy.isProgram = true ∨
    ∀ url name rest, copy.filename = some url → strstr (lit "://") url = some (name, rest) →
      ∀ scheme ∈ schemes cfg.noFileScheme, name ∉ scheme.names

/-! ### Which queries are over a file -/

/-- Only the `file` scheme makes them, whatever the arguments. -/
theorem makeChQuery_onFile {ctx : ChdbCopyContext} {query : ChQuery}
    (h : makeChQuery ctx = .ok query) : query.onFile ctx.cmdType ↔ ctx.scheme = .file := by
  obtain ⟨args, _, rfl⟩ := makeChQuery_eq_ok.mp h
  unfold ChQuery.onFile
  rw [List.isPrefixOf_iff_prefix, List.prefix_append_right_inj]
  -- the other functions differ from `file` in one of their first letters
  have hother : ∀ (scheme : Scheme) (rest : Bytes), scheme ≠ .file →
      (lit " file(").isPrefixOf (lit " " ++ (scheme.tableFunction ++ rest)) = false := by
    intro scheme rest hne
    cases scheme with
    | file => exact absurd rfl hne
    | _ => rfl
  constructor
  · intro hprefix
    by_contra hne
    rw [← List.isPrefixOf_iff_prefix, hother ctx.scheme _ hne] at hprefix
    cases hprefix
  · intro hscheme
    rw [hscheme]
    exact ⟨_, rfl⟩

theorem chdbCopyQuery_onFile {lib : PgchNames} {ctx : ChdbCopyContext} {query : ChQuery}
    (h : chdbCopyQuery lib ctx = .ok query) : query.onFile ctx.cmdType ↔ ctx.scheme = .file := by
  have hcmd : (deriveStructure lib ctx).cmdType = ctx.cmdType := by
    unfold deriveStructure
    split <;> rfl
  have hscheme : (deriveStructure lib ctx).scheme = ctx.scheme := by
    unfold deriveStructure
    split <;> rfl
  rw [← hcmd, ← hscheme]
  exact makeChQuery_onFile h

/-! ### The steps that start a helper -/

/-- Nothing that starts a helper. -/
def HookEvent.startsNone : HookEvent → Bool
  | .startHelper _ _ => false
  | _ => true

theorem HookEvent.startsNone_of_isCheck (e : HookEvent) (he : e.isCheck = true) :
    e.startsNone = true := by
  cases e <;> first | rfl | cases he

/-- Whatever starts no helper needs no privilege. -/
theorem AllAuthorized.grown {h t : List HookEvent} (hh : AllAuthorized h)
    (ht : Grown HookEvent.startsNone h t) : AllAuthorized t := by
  apply (permits_grown _ ht).mpr hh
  intro pre e he hcx query hstart
  rw [hstart] at he
  cases he

theorem AllAuthorized.checks {h t : List HookEvent} (hh : AllAuthorized h)
    (ht : Grown HookEvent.isCheck h t) : AllAuthorized t :=
  hh.grown (ht.weaken HookEvent.startsNone_of_isCheck)

theorem AllAuthorized.concat {h : List HookEvent} {e : HookEvent} (hh : AllAuthorized h)
    (he : e.startsNone = true) : AllAuthorized (h ++ [e]) :=
  hh.grown (Grown.single he h)

theorem AllAuthorized.start {h : List HookEvent} {hcx : ChdbHelperContext} {query : ChQuery}
    (hh : AllAuthorized h) (hquery : Authorized h hcx query) :
    AllAuthorized (h ++ [.startHelper hcx query]) := by
  refine permits_concat.mpr ⟨hh, fun hcx' query' hstart => ?_⟩
  cases hstart
  exact hquery

section
variable (srv : HookServer) {h : List HookEvent}

/-- A `DESCRIBE` needs the role to read a file, if its URL is one. -/
theorem chdbDescribe_authorized {ctx : ChdbCopyContext} (hh : AllAuthorized h)
    (hfile : ctx.scheme = .file → .hasPrivsOfRole true true ∈ h) :
    wp (chdbDescribe srv ctx) (fun _ => AllAuthorized) AllAuthorized h := by
  have hstart : ∀ describe, makeChQuery (describeContext ctx) = .ok describe →
      AllAuthorized (h ++ [.startHelper (describeContext ctx).helper describe]) := by
    intro describe hdescribe
    apply hh.start
    refine ⟨fun honFile => ?_, fun hcopies => absurd rfl hcopies⟩
    exact hfile ((makeChQuery_onFile hdescribe).mp honFile)
  unfold chdbDescribe
  rw [wp_bind]
  -- the query is made before the helper is started, so it is known what it is over
  refine wp_lift (fun describe hdescribe => ?_) hh
  rw [wp_bind]
  refine wp_call ?_ (hstart describe hdescribe)
  refine wp_ask (fun described _ => ?_) (hstart describe hdescribe)
  exact (hstart describe hdescribe).concat rfl

/-- A copy needs that of a file, and its relation just opened. -/
theorem chdbCopy_authorized (lib : PgchNames) {ctx : ChdbCopyContext} (hh : AllAuthorized h)
    (hfile : ctx.scheme = .file → .hasPrivsOfRole (ctx.cmdType ≠ .insert) true ∈ h)
    (hrel : ∃ asked rel, h = asked ++ [.tableOpen (ctx.cmdType = .select) rel,
        .execCheckPermissions rel (ctx.cmdType = .select) ctx.attnums, .checkEnableRls rel false] ∧
      ctx.rel = rel.attrs ∧ (ctx.cmdType = .insert → rel.relkind = byte 'r')) :
    wp (chdbCopy srv lib ctx) (fun _ => AllAuthorized) AllAuthorized h := by
  obtain ⟨asked, rel, hasked, hattrs, hplain⟩ := hrel
  have hentered : AllAuthorized (h ++ [.chdbCopy ctx]) := hh.concat rfl
  have hstart : ∀ query, chdbCopyQuery lib ctx = .ok query →
      AllAuthorized (h ++ [.chdbCopy ctx] ++ [.startHelper ctx.helper query]) := by
    intro query hquery
    apply hentered.start
    constructor
    · intro honFile
      -- the role was asked about before the relation was opened
      have hscheme : ctx.scheme = .file := (chdbCopyQuery_onFile hquery).mp honFile
      exact List.mem_append_left _ (hfile hscheme)
    · intro _
      exact ⟨asked, rel, ctx, by rw [hasked, List.append_assoc]; rfl, rfl, hattrs, hplain⟩
  unfold chdbCopy
  rw [wp_bind, wp_note, wp_bind]
  refine wp_lift (fun query hquery => ?_) hentered
  rw [wp_bind]
  refine wp_call ?_ (hstart query hquery)
  refine wp_ask (fun rows _ => ?_) (hstart query hquery)
  exact (hstart query hquery).concat rfl

/-! ### The paths to a helper -/

/-- The columns of a table are asked for with the privileges of its URL. -/
theorem createColumnsFromUrl_authorized (cfg : HookConfig) (lib : PgchTypes T)
    (create : CreateStmt) (hh : AllAuthorized h) :
    wp (createColumnsFromUrl srv cfg lib create cfg.context) (fun _ => AllAuthorized)
      AllAuthorized h := by
  unfold createColumnsFromUrl
  rw [wp_bind]
  refine wp_lift (fun ⟨create', urls⟩ _ => ?_) hh
  rw [wp_bind]
  refine wp_lift (fun urls' _ => ?_) hh
  rw [wp_bind]
  refine wp_ask (fun found _ => ?_) hh
  -- up to the scheme nothing is asked of a helper
  have hlooked : AllAuthorized (h ++ [.relnameLookup create'.relname found]) := hh.concat rfl
  rw [wp_bind]
  refine wp_lift (fun _ _ => ?_) hlooked
  rw [wp_bind]
  refine wp_lift (fun ⟨ctx, storage⟩ _ => ?_) hlooked
  dsimp only
  cases urls'.structureUrl with
  | none => exact hlooked
  | some url =>
    dsimp only
    rw [wp_bind]
    refine wp_mono (optionUrlScheme_wp srv _ cfg url structureFromOption)
      (fun scheme t hscheme => ?_) (fun t ht => hlooked.checks ht)
    obtain ⟨_, hchecks, hfile⟩ := hscheme
    rw [wp_bind]
    refine wp_mono (chdbDescribe_authorized srv (hlooked.checks hchecks) hfile)
      (fun described u hu => ?_) fun u hu => hu
    rw [wp_bind]
    exact wp_lift (fun _ _ => hu) hu

/-- The load asks again, for its own URL and the relation it opens. -/
theorem copyUrlInto_authorized (cfg : HookConfig) (lib : PgchNames) (relname url : Bytes)
    (ctx : ChdbCopyContext) (hh : AllAuthorized h) :
    wp (copyUrlInto srv cfg lib relname url ctx) (fun _ => AllAuthorized) AllAuthorized h := by
  unfold copyUrlInto
  rw [wp_bind]
  refine wp_mono (optionUrlScheme_wp srv h cfg url copyFromOption) (fun scheme t hscheme => ?_)
    (fun t ht => hh.checks ht)
  obtain ⟨_, hchecks, hfile⟩ := hscheme
  have hcounted : AllAuthorized (t ++ [.commandCounterIncrement]) := (hh.checks hchecks).concat rfl
  rw [wp_bind]
  refine wp_call ?_ hcounted
  rw [wp_bind]
  refine wp_mono (openCopyRelation_wp srv _ relname [] true _) (fun sel u hsel => ?_)
    (fun u hu => hcounted.checks hu)
  obtain ⟨rel, attnums, _, rfl, rfl, _⟩ := hsel
  rw [wp_bind]
  refine wp_mono (chdbCopy_authorized srv lib
    (hcounted.grown ⟨_, rfl, by simp [HookEvent.startsNone]⟩) (fun hscheme => ?_) ?_)
    (fun rows v hv => ?_) fun v hv => hv
  · -- the load is a `SELECT`, so its file was to be read
    have hmem := hfile hscheme
    simp [hmem]
  · exact ⟨_, rel, rfl, rfl, fun hinsert => by cases hinsert⟩
  · exact wp_call (hv.concat rfl) (hv.concat rfl)

/-- A table with a URL option asks for each of its two queries. -/
theorem createFromUrl_authorized (cfg : HookConfig) (lib : PgchTypes T) (create : CreateStmt)
    (hh : AllAuthorized h) :
    wp (createFromUrl srv cfg lib create) (fun _ => AllAuthorized) AllAuthorized h := by
  unfold createFromUrl
  have hreadOnly : AllAuthorized (h ++ [.preventCommandIfReadOnly (lit "CREATE TABLE")]) :=
    hh.concat rfl
  rw [wp_bind]
  refine wp_call ?_ hreadOnly
  rw [wp_bind]
  refine wp_mono (createColumnsFromUrl_authorized srv cfg lib create hreadOnly)
    (fun ⟨create', urls, ctx⟩ t ht => ?_) fun t ht => ht
  have hcreated : AllAuthorized (t ++ [.prevProcessUtility (.create create')]) := ht.concat rfl
  rw [wp_bind]
  refine wp_call ?_ hcreated
  cases urls.copyUrl with
  | none => exact hcreated
  | some url =>
    exact copyUrlInto_authorized srv cfg lib.toPgchNames create'.relname url ctx hcreated

/-- A `COPY` asks for its direction. -/
theorem copyFromUrl_authorized (cfg : HookConfig) (lib : PgchNames) (copy : CopyStmt)
    (relation url : Bytes) (scheme : Scheme) (hh : AllAuthorized h) :
    wp (copyFromUrl srv cfg lib copy relation url scheme) (fun _ => AllAuthorized)
      AllAuthorized h := by
  unfold copyFromUrl
  rw [wp_bind]
  refine wp_lift (fun _ _ => ?_) hh
  rw [wp_bind]
  refine wp_mono (Q := fun _ t => AllAuthorized t) (E := AllAuthorized)
    (wp_onlyIf (fun _ => wp_call (hh.concat rfl) (hh.concat rfl)) fun _ => hh)
    (fun _ t ht => ?_) (fun t ht => ht)
  rw [wp_bind]
  have hrole : wp (onlyIf (scheme = .file) (checkServerFilePrivileges srv copy.isFrom))
      (fun _ u => AllAuthorized u ∧ (scheme = .file → .hasPrivsOfRole copy.isFrom true ∈ u))
      AllAuthorized t := by
    refine wp_onlyIf (fun _ => ?_) fun hother => ⟨ht, fun hfile => absurd hfile hother⟩
    refine wp_mono (checkServerFilePrivileges_wp srv t copy.isFrom) (fun _ u hu => ?_)
      fun u hu => ht.checks hu
    subst hu
    exact ⟨ht.concat rfl, fun _ => by simp⟩
  refine wp_mono hrole (fun _ u hu => ?_) fun u hu => hu
  obtain ⟨hu, hfile⟩ := hu
  rw [wp_bind]
  refine wp_mono (openCopyRelation_wp srv u relation copy.attlist copy.isFrom _)
    (fun ctx v hctx => ?_) fun v hv => hu.checks hv
  obtain ⟨rel, attnums, _, rfl, rfl, hplain⟩ := hctx
  have hopened := hu.grown (t := u ++ [.tableOpen copy.isFrom rel,
    .execCheckPermissions rel copy.isFrom attnums, .checkEnableRls rel false])
    ⟨_, rfl, by simp [HookEvent.startsNone]⟩
  rw [wp_bind]
  refine wp_lift (fun ⟨ctx, storage⟩ hoptions => ?_) hopened
  -- the options leave what was checked as it is
  have hkeeps := contextualizeOptions_keeps hoptions
  have hattrs : ctx.rel = rel.attrs := congrArg ChdbCopyContext.rel hkeeps
  have hattnums : ctx.attnums = attnums := congrArg ChdbCopyContext.attnums hkeeps
  have hscheme : ctx.scheme = scheme := congrArg ChdbCopyContext.scheme hkeeps
  have hcmd : ctx.cmdType = if copy.isFrom then .select else .insert :=
    congrArg ChdbCopyContext.cmdType hkeeps
  -- the direction the checks asked for is the one of the command
  have hselect : decide (ctx.cmdType = .select) = copy.isFrom := by
    rw [hcmd]
    cases copy.isFrom <;> rfl
  have hinsert : decide (ctx.cmdType ≠ .insert) = copy.isFrom := by
    rw [hcmd]
    cases copy.isFrom <;> rfl
  rw [wp_bind]
  refine wp_mono (chdbCopy_authorized srv lib hopened (fun hs => ?_) ?_) (fun rows w hw => ?_)
    fun w hw => hw
  · rw [hinsert]
    exact List.mem_append_left _ (hfile (hscheme ▸ hs))
  · refine ⟨u, rel, by rw [hselect, hattnums], hattrs, fun hins => hplain ?_⟩
    rw [← hselect, hins]
    rfl
  · rw [wp_bind]
    have hset : AllAuthorized (w ++ [.setQueryCompletion rows]) := hw.concat rfl
    exact wp_call (wp_call (hset.concat rfl) (hset.concat rfl)) hset

end

/-! ### Every statement -/

/-- A scheme is recognised by the text before the first `://`. -/
theorem LeftToPostgres.schemeFor {cfg : HookConfig} {copy : CopyStmt}
    (h : LeftToPostgres cfg copy) (hprogram : copy.isProgram = false) :
    PgChdb.schemeFor cfg.noFileScheme copy.filename = none := by
  rcases h with hprog | hname
  · rw [hprogram] at hprog
    cases hprog
  · cases hfile : copy.filename with
    | none => rfl
    | some url =>
      unfold PgChdb.schemeFor
      cases hcut : strstr (lit "://") url with
      | none => simp [hcut]
      | some cut =>
        -- the name is that of no scheme, so none is found
        have hnone := hname url cut.1 cut.2 hfile hcut
        simpa [hcut] using hnone

/-- **No statement reaches chDB without the privileges of its command**, over every run of the
    hook: whatever the statement and its options, and whatever PostgreSQL and the helper
    answer, every helper is started with a query over a server file only for a role with the
    privileges to read or write one, and with a copy only after the checks of the relation.  A
    copy that is not chDB's is handed on, and that is all. -/
theorem chDBProcessUtilityHook_authorized (srv : HookServer) (cfg : HookConfig)
    (lib : PgchTypes T) (stmt : UtilityStmt) :
    AllAuthorized (calls (chDBProcessUtilityHook srv cfg lib stmt)) ∧
      ∀ copy, stmt = .copy copy → LeftToPostgres cfg copy →
        calls (chDBProcessUtilityHook srv cfg lib stmt) = [.prevProcessUtility stmt] := by
  have hnone : AllAuthorized [] := Permits.nil
  have hforward : wp (call srv.call (.prevProcessUtility stmt)) (fun _ => AllAuthorized)
      AllAuthorized [] := wp_call (hnone.concat rfl) (hnone.concat rfl)
  constructor
  · apply wp_calls
    unfold chDBProcessUtilityHook
    cases stmt with
    | copy copy =>
      dsimp only
      split
      · split
        · exact hforward
        · exact copyFromUrl_authorized srv cfg lib.toPgchNames copy _ _ _ hnone
      · exact hforward
    | create create =>
      dsimp only
      split
      · exact createFromUrl_authorized srv cfg lib create hnone
      · exact hforward
    | other => exact hforward
  · rintro copy rfl hleft
    have hhook : chDBProcessUtilityHook srv cfg lib (.copy copy)
        = call srv.call (.prevProcessUtility (.copy copy)) := by
      unfold chDBProcessUtilityHook
      dsimp only
      split
      · rename_i hscheme
        split
        · rfl
        · rename_i hprogram
          rw [hleft.schemeFor (by simpa using hprogram)] at hscheme
          cases hscheme
      · rfl
    rw [hhook, calls_call]

end PgChdb
