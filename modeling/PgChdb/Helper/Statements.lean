import PgChdb.Helper.Whole
import PgChdb.Hook.Contract
import PgChdb.Hook.Privileges

namespace PgChdb.Program

open CText Machine
open Process (Errno chdbHelperLostBackend)

/-!
# What libchdb is asked to do

libchdb runs whatever statement it is handed, with the rights of the server's own user.  The
helper hands it two: the settings of the session, and the query of the setup payload with its
parameters.  Nothing else ever gets there, however the process ends and whatever it was sent;
and since the payload is the backend's, what gets there is a query the hook was asked for, by a
role that may.

* `Statement`, `Call.statement`, `statements` — what a call hands to libchdb;
* `asked` — the two statements of a request;
* `Stated` — after every call, what has been handed over are the first of them;
* `calls_stated` — that holds of every run of the program;
* `statements_authorized` — from the statement of a role to what chDB is asked, over every
  interleaving of backend and helper.
-/

/-! ### Statements -/

/-- A statement for libchdb: a command with its query and parameters, or one for
    `chdb_query`. -/
structure Statement where
  cmd : Option ChdbCmdType
  text : Bytes
  params : List (Bytes × Bytes)
  deriving DecidableEq

/-- What a call hands to libchdb. -/
def Call.statement : Call → Option Statement
  | .session stmt _ => some ⟨none, stmt, []⟩
  | .query text params _ => some ⟨some .describe, text, params⟩
  | .streamQuery text params _ => some ⟨some .select, text, params⟩
  | .streamInsert text params => some ⟨some .insert, text, params⟩
  | _ => none

def statements (log : List Call) : List Statement := log.filterMap Call.statement

/-- The settings of its session. -/
def sessionStatement (x : SetupRequest) : Statement :=
  ⟨none, setupSession x.maxMem x.maxThreads x.maxParsers x.timezone, []⟩

def commandStatement (x : SetupRequest) (cmd : ChdbCmdType) : Statement :=
  ⟨some cmd, x.query, x.params⟩

/-- The statements of a request, in their order. -/
def asked (x : SetupRequest) : List Statement :=
  sessionStatement x ::
    ([ChdbCmdType.select, .insert, .describe].filter fun cmd => cmd.toByte = x.cmdType).map
      (commandStatement x)

/-- Nothing has been handed over, or what has been are the first statements of the request that
    the payload read so far makes. -/
def Stands (log : List Call) : Prop :=
  statements log = [] ∨
    ∃ x rest, parseSetup (took .setup log) = some (x, rest) ∧ statements log <+: asked x

/-- So it was after each of the calls. -/
def Stated (log : List Call) : Prop := ∀ before, before <+: log → Stands before

/-- A call that hands nothing over and reads nothing of the payload. -/
def Call.mute : Call → Bool
  | .read .setup _ => false
  | c => c.statement.isNone

section
variable {log t : List Call} {c : Call} {x : SetupRequest} {handed : List Statement}

@[simp] theorem statements_append : statements (log ++ t) = statements log ++ statements t :=
  List.filterMap_append

@[simp] theorem statements_nil : statements [] = [] := rfl

theorem statements_single : statements [c] = c.statement.toList := by
  unfold statements
  cases h : c.statement <;> simp [h]

theorem Call.mute_statement (h : c.mute = true) : c.statement = none := by
  unfold Call.mute at h
  split at h
  · cases h
  · exact Option.isNone_iff_eq_none.mp h

theorem Call.mute_took (h : c.mute = true) : c.took .setup = [] := by
  cases c with
  | read fd answer =>
    cases fd with
    | setup => cases h
    | _ => cases answer <;> rfl
  | _ => rfl

theorem Stated.concat (h : Stated log) (hc : Stands (log ++ [c])) : Stated (log ++ [c]) := by
  intro before hbefore
  rcases List.prefix_concat_iff.mp hbefore with rfl | hearlier
  · exact hc
  · exact h before hearlier

theorem stated_of_nil (h : statements log = []) : Stated log := by
  rintro before ⟨after, rfl⟩
  rw [statements_append] at h
  exact Or.inl (List.append_eq_nil_iff.mp h).1

/-- A mute call changes neither what was read of the payload nor what has been handed over. -/
theorem mute_moves (log : List Call) (h : c.mute = true) : took .setup (log ++ [c]) = took .setup log ∧
    statements (log ++ [c]) = statements log := by
  simp [Call.mute_took h, statements_single, Call.mute_statement h]

theorem Stated.mute (h : Stated log) (hc : c.mute = true) : Stated (log ++ [c]) := by
  obtain ⟨htook, hhanded⟩ := mute_moves log hc
  refine h.concat ?_
  have hlast := h log List.prefix_rfl
  unfold Stands at hlast ⊢
  rwa [htook, hhanded]

/-- The request is read, and these statements of it have been handed over. -/
structure Handing (x : SetupRequest) (handed : List Statement) (log : List Call) : Prop where
  request : ∃ rest, parseSetup (took .setup log) = some (x, rest)
  handed : statements log = handed
  stated : Stated log

theorem Handing.mute (h : Handing x handed log) (hc : c.mute = true) :
    Handing x handed (log ++ [c]) := by
  obtain ⟨htook, hhanded⟩ := mute_moves log hc
  exact ⟨by rw [htook]; exact h.request, hhanded.trans h.handed, h.stated.mute hc⟩

/-- The next of the statements is handed over. -/
theorem Handing.ask {s : Statement} (h : Handing x handed log) (hc : c.statement = some s)
    (hnext : handed ++ [s] <+: asked x) : Handing x (handed ++ [s]) (log ++ [c]) := by
  have htook : took .setup (log ++ [c]) = took .setup log := by
    cases c with
    | session | query | streamQuery | streamInsert => simp [took, Call.took]
    | _ => cases hc
  have hhanded : statements (log ++ [c]) = handed ++ [s] := by
    simp [statements_single, hc, h.handed]
  have hrequest : ∃ rest, parseSetup (took .setup (log ++ [c])) = some (x, rest) := by
    rw [htook]
    exact h.request
  obtain ⟨rest, hparse⟩ := hrequest
  exact ⟨⟨rest, hparse⟩, hhanded, h.stated.concat (Or.inr ⟨x, rest, hparse, by rwa [hhanded]⟩)⟩

end

/-! ### The functions that hand nothing over -/

section
variable {α : Type} {env : Env} {I : List Call → Prop}

/-- What every call that is mute keeps. -/
def Deaf (I : List Call → Prop) : Prop := ∀ log c, I log → c.mute = true → I (log ++ [c])

theorem keeps_record (hI : Deaf I) {c : Call} (hc : c.mute = true) : Keeps I (record c) :=
  Keeps.update fun log h => hI log c h hc

theorem keeps_sysWrite (hI : Deaf I) (fd : Fd) (text : Text) :
    Keeps I (sysWrite env fd text) := by
  refine Keeps.state.bind fun log => ?_
  split
  · exact (keeps_record hI rfl).bind fun _ => .pure _
  · exact (keeps_record hI rfl).bind fun _ => .ite (fun _ => .stop _) fun _ => .pure _

theorem keeps_say (hI : Deaf I) (text : Text) : Keeps I (say env text) := by
  refine Keeps.loop (fun rest => ?_) _ _
  refine Keeps.ite (fun _ => .pure _) fun _ => (keeps_sysWrite hI .stderr rest).bind fun answer => ?_
  cases answer <;> exact .pure _

theorem keeps_fail (hI : Deaf I) (what : Bytes) : Keeps I (fail env what : Run α) :=
  (keeps_say hI _).bind fun _ => (keeps_record hI rfl).bind fun _ => .stop _

theorem keeps_notNull (hI : Deaf I) : Keeps I (notNull env) :=
  Keeps.state.bind fun _ => (keeps_record hI rfl).bind fun _ =>
    .ite (fun _ => .pure _) fun _ => keeps_fail hI _

theorem keeps_onlyIf {c : Prop} [Decidable c] {m : Run Unit} (hm : Keeps I m) :
    Keeps I (onlyIf c m) := .ite (fun _ => hm) fun _ => .pure _

theorem keeps_obtain (hI : Deaf I) {call : Reply → Call} (hc : ∀ r, (call r).mute = true) :
    Keeps I (obtain env call) :=
  Keeps.state.bind fun _ => (keeps_record hI (hc _)).bind fun _ => .pure _

theorem keeps_resultError (hI : Deaf I) (o : Object) : Keeps I (resultError o) := by
  refine (keeps_record hI rfl).bind fun _ => ?_
  cases o.reply <;> exact .pure _

theorem keeps_resultBuffer (hI : Deaf I) (o : Object) : Keeps I (resultBuffer o) := by
  refine (keeps_record hI rfl).bind fun _ => ?_
  split
  · exact .pure _
  · exact .pure _
  · exact (keeps_record hI rfl).bind fun _ => .pure _

theorem keeps_streamInsertError (hI : Deaf I) (stream : ℕ) :
    Keeps I (streamInsertError env stream) :=
  Keeps.state.bind fun _ => (keeps_record hI rfl).bind fun _ => .pure _

theorem keeps_writeAll (hI : Deaf I) (text : Text) : Keeps I (writeAll env text) := by
  refine Keeps.loop (fun rest => ?_) _ _
  refine Keeps.ite (fun _ => .pure _) fun _ => (keeps_sysWrite hI .stdout rest).bind fun answer => ?_
  cases answer with
  | ok put => exact .pure _
  | error errno => exact .ite (fun _ => .pure _) fun _ => .pure _

end

/-! ### Before the request is read -/

section
variable {α : Type} {env : Env}

def Silent (log : List Call) : Prop := statements log = []

theorem Silent.deaf : Deaf Silent := by
  intro log c h hc
  unfold Silent at h ⊢
  simp [h, statements_single, Call.mute_statement hc]

theorem silent_readSetup : Keeps Silent (readSetup env) := by
  refine (keeps_notNull Silent.deaf).bind fun _ => Keeps.loop (fun b => ?_) _ _
  unfold readSetupTurn
  split
  · exact keeps_fail Silent.deaf _
  · refine (keeps_onlyIf (keeps_notNull Silent.deaf)).bind fun _ => ?_
    have hread : ∀ len, Keeps Silent (sysRead env .setup len) := fun len =>
      Keeps.state.bind fun log => (Keeps.update fun log h => by
        unfold Silent at h ⊢
        simp [h, statements_single, Call.statement]).bind fun _ => .pure _
    refine (hread _).bind fun answer => ?_
    cases answer with
    | ok got => exact .ite (fun _ => .pure _) fun _ => .pure _
    | error errno => exact .ite (fun _ => .pure _) fun _ => keeps_fail Silent.deaf _

theorem silent_taking (take : Cursor α) (cur : Bytes) : Keeps Silent (taking env take cur) := by
  unfold taking
  split
  · exact .pure _
  · exact keeps_fail Silent.deaf _

theorem silent_readRequest : Keeps Silent (readRequest env) := by
  have hnotNull : Keeps Silent (notNull env) := keeps_notNull Silent.deaf
  refine silent_readSetup.bind fun setup => (silent_taking _ _).bind fun r => ?_
  exact hnotNull.bind fun _ => hnotNull.bind fun _ => hnotNull.bind fun _ => hnotNull.bind fun _ =>
    (silent_taking _ _).bind fun _ => .pure _

/-- The request is that of what has been read. -/
theorem readRequest_hands : Machine.Ends (readRequest env) [] (fun x => Handing x [])
    (fun _ => Stated) := by
  have hsilent : Keeps Silent (readRequest env) := silent_readRequest
  refine ((hsilent [] rfl).and readRequest_ends).mono ?_ fun _ _ h => stated_of_nil h.1
  rintro x log ⟨hnone, p, rest, hparse, hgoing⟩
  refine ⟨⟨rest, ?_⟩, hnone, stated_of_nil hnone⟩
  rw [hgoing.setup]
  exact hparse

end

/-! ### The statements of the request -/

section
variable {env : Env} {x : SetupRequest} {handed : List Statement} {log : List Call}

theorem Handing.deaf : Deaf (Handing x handed) := fun _ _ h hc => h.mute hc

/-- A call that hands a statement over and returns a result. -/
theorem obtain_hands {call : Reply → Call} {s : Statement} (h : Handing x handed log)
    (hcall : ∀ reply, (call reply).statement = some s) (hnext : handed ++ [s] <+: asked x) :
    Machine.Ends (obtain env call) log (fun _ => Handing x (handed ++ [s])) fun _ => Stated :=
  ends_obtain fun reply => h.ask (hcall reply) hnext

theorem Keeps.stated {α : Type} {m : Run α} (hm : Keeps (Handing x handed) m)
    (h : Handing x handed log) : Machine.Ends m log (fun _ => Handing x handed) fun _ => Stated :=
  (hm log h).mono (fun _ _ ht => ht) fun _ _ ht => ht.stated

theorem connect_hands (h : Handing x handed log) :
    Machine.Ends (connect env) log (fun _ => Handing x handed) fun _ => Stated :=
  Keeps.stated ((keeps_record Handing.deaf rfl).bind fun _ => Keeps.state.bind fun _ =>
    (keeps_record Handing.deaf rfl).bind fun _ =>
      .ite (fun _ => .pure _) fun _ => keeps_fail Handing.deaf _) h

/-- The settings come first. -/
theorem openSession_hands (h : Handing x [] log) : Machine.Ends (openSession env x) log
    (fun _ => Handing x [sessionStatement x]) fun _ => Stated := by
  have hfirst : [] ++ [sessionStatement x] <+: asked x := ⟨_, rfl⟩
  refine (obtain_hands h (fun _ => rfl) hfirst).seq fun result t ht => ?_
  refine Keeps.stated ((keeps_resultError Handing.deaf result).bind fun error => ?_) ht
  cases error with
  | some error =>
    exact (keeps_say Handing.deaf error).bind fun _ =>
      (keeps_record Handing.deaf rfl).bind fun _ => .pure _
  | none => exact (keeps_record Handing.deaf rfl).bind fun _ => .pure _

section
variable {I : List Call → Prop}

/-- An error is said, the object given back, and 1 returned. -/
theorem keeps_sayDestroy {β : Type} (hI : Deaf I) (error : Text) (o : ℕ) (b : β) :
    Keeps I (do say env error; record (.destroyResult o); return b) :=
  (keeps_say hI error).bind fun _ => (keeps_record hI rfl).bind fun _ => .pure b

theorem keeps_selectTurn (hI : Deaf I) (stream : ℕ) (u : Unit) :
    Keeps I (selectTurn env stream u) := by
  refine (keeps_obtain hI fun _ => rfl).bind fun chunk =>
    (keeps_resultError hI chunk).bind fun error => ?_
  cases error with
  | some error => exact keeps_sayDestroy hI error _ _
  | none =>
    refine (keeps_resultBuffer hI chunk).bind fun buffer => ?_
    cases buffer with
    | none => exact (keeps_record hI rfl).bind fun _ => .pure _
    | some buffer =>
      exact (keeps_writeAll hI buffer).bind fun _ => (keeps_record hI rfl).bind fun _ =>
        .ite (fun _ => .pure _) fun _ => .pure _

theorem keeps_giveUp (hI : Deaf I) (stream status : ℕ) : Keeps I (giveUp stream status) :=
  (keeps_record hI rfl).bind fun _ => (keeps_record hI rfl).bind fun _ => .pure _

theorem keeps_insertTurn (hI : Deaf I) (stream : ℕ) (u : Unit) :
    Keeps I (insertTurn env stream u) := by
  have hread : Keeps I (sysRead env .stdin chdbHelperIoBytes) :=
    Keeps.state.bind fun _ => (keeps_record hI rfl).bind fun _ => .pure _
  refine hread.bind fun answer => ?_
  cases answer with
  | error errno => exact .ite (fun _ => .pure _) fun _ => keeps_giveUp hI _ _
  | ok got =>
    refine Keeps.ite (fun _ => .pure _) fun _ => Keeps.state.bind fun _ =>
      (keeps_record hI rfl).bind fun _ => .ite (fun _ => .pure _) fun _ =>
      (keeps_streamInsertError hI stream).bind fun error => ?_
    cases error with
    | some error => exact (keeps_say hI error).bind fun _ => keeps_giveUp hI _ _
    | none => exact (keeps_say hI _).bind fun _ => keeps_giveUp hI _ _

end

theorem runSelect_hands {text : Bytes} {params : List (Bytes × Bytes)}
    (h : Handing x handed log) (hnext : handed ++ [⟨some .select, text, params⟩] <+: asked x) :
    Machine.Ends (runSelect env text params) log (fun _ => Stated) fun _ => Stated := by
  refine (obtain_hands h (fun _ => rfl) hnext).seq fun stream t ht => ?_
  refine (Keeps.stated ((keeps_resultError Handing.deaf stream).bind fun error => ?_) ht).imp
    fun _ _ hu => hu.stated
  cases error with
  | some error => exact keeps_sayDestroy Handing.deaf error _ _
  | none =>
    exact (Keeps.loop (keeps_selectTurn Handing.deaf stream.name) _ _).bind fun _ =>
      (keeps_onlyIf (keeps_record Handing.deaf rfl)).bind fun _ =>
      (keeps_record Handing.deaf rfl).bind fun _ => .pure _

theorem runQuery_hands {text : Bytes} {params : List (Bytes × Bytes)}
    (h : Handing x handed log) (hnext : handed ++ [⟨some .describe, text, params⟩] <+: asked x) :
    Machine.Ends (runQuery env text params) log (fun _ => Stated) fun _ => Stated := by
  refine (obtain_hands h (fun _ => rfl) hnext).seq fun result t ht => ?_
  refine (Keeps.stated ((keeps_resultError Handing.deaf result).bind fun error => ?_) ht).imp
    fun _ _ hu => hu.stated
  cases error with
  | some error => exact keeps_sayDestroy Handing.deaf error _ _
  | none =>
    refine (keeps_resultBuffer Handing.deaf result).bind fun buffer => ?_
    cases buffer with
    | none => exact (keeps_record Handing.deaf rfl).bind fun _ => .pure _
    | some buffer =>
      exact (keeps_writeAll Handing.deaf buffer).bind fun _ =>
        (keeps_record Handing.deaf rfl).bind fun _ => .ite (fun _ => .pure _) fun _ => .pure _

theorem runInsert_hands {text : Bytes} {params : List (Bytes × Bytes)}
    (h : Handing x handed log) (hnext : handed ++ [⟨some .insert, text, params⟩] <+: asked x) :
    Machine.Ends (runInsert env text params) log (fun _ => Stated) fun _ => Stated := by
  have hasks := h.ask (c := .streamInsert text params) rfl hnext
  unfold runInsert
  rw [ends_bind, ends_get, ends_bind, ends_record]
  refine (Keeps.stated ((keeps_streamInsertError Handing.deaf _).bind fun error => ?_) hasks).imp
    fun _ _ hu => hu.stated
  cases error with
  | some error =>
    exact (keeps_say Handing.deaf error).bind fun _ =>
      (keeps_record Handing.deaf rfl).bind fun _ => .pure _
  | none =>
    refine (keeps_notNull Handing.deaf).bind fun _ =>
      (Keeps.loop (keeps_insertTurn Handing.deaf _) _ _).bind fun status => ?_
    cases status with
    | some status => exact .pure _
    | none =>
      refine (keeps_obtain Handing.deaf fun _ => rfl).bind fun result =>
        (keeps_resultError Handing.deaf result).bind fun error => ?_
      cases error with
      | some error =>
        exact (keeps_say Handing.deaf error).bind fun _ => (keeps_record Handing.deaf rfl).bind
          fun _ => (keeps_record Handing.deaf rfl).bind fun _ => .pure _
      | none =>
        exact (keeps_record Handing.deaf rfl).bind fun _ =>
          (keeps_record Handing.deaf rfl).bind fun _ => .pure _

/-- Then the command of its byte. -/
theorem runCommand_hands (h : Handing x [sessionStatement x] log) :
    Machine.Ends (runCommand env x) log (fun _ => Stated) fun _ => Stated := by
  have hnext : ∀ cmd : ChdbCmdType, x.cmdType = cmd.toByte →
      [sessionStatement x] ++ [commandStatement x cmd] <+: asked x := by
    intro cmd hcmd
    unfold asked
    rw [hcmd]
    cases cmd <;> exact ⟨[], rfl⟩
  unfold runCommand
  refine ends_ite (fun hcmd => runSelect_hands h (hnext .select hcmd)) fun _ => ?_
  refine ends_ite (fun hcmd => runInsert_hands h (hnext .insert hcmd)) fun _ => ?_
  refine ends_ite (fun hcmd => runQuery_hands h (hnext .describe hcmd)) fun _ => ?_
  exact (Keeps.stated (keeps_fail Handing.deaf _) h).imp fun _ _ hu => hu.stated

theorem main_hands : Machine.Ends (main env) [] (fun _ => Stated) fun _ => Stated := by
  refine readRequest_hands.seq fun x t₀ h₀ => ?_
  refine (connect_hands h₀).seq fun _ t₁ h₁ => ?_
  have hsession : Machine.Ends (runSession env x) t₁ (fun _ => Stated) fun _ => Stated := by
    refine (openSession_hands h₁).seq fun status t₂ h₂ => ?_
    exact ends_ite (fun _ => runCommand_hands h₂) fun _ => h₂.stated
  refine hsession.seq fun status t₂ h₂ => ?_
  exact (h₂.mute rfl).mute rfl

end

/-- Whatever libchdb and the system answer, and after each of the calls. -/
theorem calls_stated (env : Env) : Stated (calls env) := by
  have hends : Machine.Ends (main env) [] _ _ := main_hands
  unfold calls
  cases hrun : main env [] with
  | ok status log => exact hends.ok hrun
  | error stop log => exact hends.error hrun

/-! ### From the statement of a role to those of libchdb -/

section
variable {T : Type} {job : CopyJob} {s : System} {log : List Call} {env : Env} {payload : Bytes}
variable {setupCap errCap dataCap : ℕ+} {todo : Option (List Bytes)}

/-- The request is the payload's, however the backend's steps fall between the calls. -/
theorem Weave.statements (hw : Weave job (.start setupCap errCap dataCap payload todo) log s)
    (hlog : log <+: calls env) {y : SetupRequest} (hpayload : parseSetup payload = some (y, [])) :
    statements log <+: asked y := by
  rcases calls_stated env log hlog with hnone | ⟨x, rest, hparse, hasked⟩
  · rw [hnone]
    exact List.nil_prefix
  · rwa [← hw.request hpayload hparse]

end

/-- Every helper that the hook starts was authorized. -/
theorem hook_authorized {T : Type} (srv : HookServer) (cfg : HookConfig) (lib : PgchTypes T)
    (stmt : UtilityStmt) :
    AllAuthorized (Effects.calls (PgChdb.chDBProcessUtilityHook srv cfg lib stmt)) := by
  have hnone : AllAuthorized [] := Effects.Permits.nil
  have hforward : Effects.wp (Effects.call srv.call (.prevProcessUtility stmt))
      (fun _ => AllAuthorized) AllAuthorized [] :=
    Effects.wp_call (hnone.concat rfl) (hnone.concat rfl)
  apply Effects.wp_calls
  unfold PgChdb.chDBProcessUtilityHook
  cases stmt with
  | copy copy =>
    dsimp only
    split
    · split
      · exact hforward
      · exact copyFromUrl_authorized srv cfg lib.toPgchNames copy _ _ _ hnone
    · exact hforward
  | create create =>
    dsimp only
    split
    · exact createFromUrl_authorized srv cfg lib create hnone
    · exact hforward
  | other => exact hforward

/-- **What chDB runs is what a role with the privileges asked for.**  Of every helper that a run
    of the hook starts, and of every interleaving of the backend that started it with the helper's
    own calls: the privileges of its query were granted, and libchdb is asked to apply the
    settings of the session and to run that query, with these parameters and no others, and
    nothing else, in this order. -/
theorem statements_authorized {T : Type} (srv : HookServer) (cfg : HookConfig)
    (lib : PgchTypes T) (stmt : UtilityStmt) {pre post : List HookEvent}
    {hcx : ChdbHelperContext} {query : ChQuery}
    (hstart : Effects.calls (PgChdb.chDBProcessUtilityHook srv cfg lib stmt)
      = pre ++ .startHelper hcx query :: post)
    {timezone payload : Bytes}
    (hbuild : buildSetup hcx timezone query.text query.params = .ok payload)
    (hfits : (setupRequest hcx timezone query.text query.params).Fits)
    (job : CopyJob) (setupCap errCap dataCap : ℕ+) (todo : Option (List Bytes))
    {log : List Call} {s : System} {env : Env}
    (hw : Weave job (.start setupCap errCap dataCap payload todo) log s)
    (hlog : log <+: calls env) :
    Authorized pre hcx query ∧ statements log <+:
      [⟨none, setupSession hcx.maxMemory hcx.maxThreads hcx.maxParsers timezone, []⟩,
        ⟨some hcx.cmd, query.text, query.params⟩] := by
  refine ⟨hook_authorized srv cfg lib stmt pre _ post hstart hcx query rfl, ?_⟩
  have hasked := hw.statements hlog (parseSetup_buildSetup hbuild hfits).1
  have hcommand : asked (setupRequest hcx timezone query.text query.params) =
      [⟨none, setupSession hcx.maxMemory hcx.maxThreads hcx.maxParsers timezone, []⟩,
        ⟨some hcx.cmd, query.text, query.params⟩] := by
    unfold asked
    cases hcmd : hcx.cmd <;> simp [setupRequest, hcmd, sessionStatement, commandStatement,
      ChdbCmdType.toByte] <;> decide
  rwa [hcommand] at hasked

/-! ### One copy -/

/-- The helper that an event starts. -/
def startedBy : HookEvent → Option (ChdbHelperContext × ChQuery)
  | .startHelper hcx query => some (hcx, query)
  | _ => none

theorem eq_of_startedBy {e : HookEvent} {hcx : ChdbHelperContext} {query : ChQuery}
    (h : startedBy e = some (hcx, query)) : e = .startHelper hcx query := by
  cases e with
  | startHelper hcx' query' => cases h; rfl
  | _ => cases h

/-- The query of `COPY t FROM 'https://h/t.json'`. -/
def urlQuery : ChQuery where
  text := lit "SELECT * FROM url(\x7burl:String\x7d, \x7bformat:String\x7d, " ++
    lit "\x7bstructure:String\x7d) SETTINGS http_connection_timeout=30, http_max_tries=1"
  params := [(lit "url", lit "https://h/t.json"), (lit "format", lit "auto"),
    (lit "structure", lit "id Int32")]

theorem started_url :
    ((Effects.calls (PgChdb.chDBProcessUtilityHook (plainServer []) plainConfig (textTypes some)
      (.copy InPlace.copyStmt)))[5]?.bind startedBy) = some (selectSeven, urlQuery) := by
  decide +kernel

def urlPayload : Bytes := setupBytes selectSeven (lit "UTC") urlQuery.text urlQuery.params

theorem urlPayload_room : urlPayload.length ≤ ((512 : ℕ+) : ℕ) := by decide +kernel

/-- A helper that is sent it. -/
def urlEnv : Env :=
  { oneChunk with
    read := fun log => .ok (if log.any fun c => c matches .read _ _ then [] else urlPayload) }

/-- Its calls up to the query. -/
def urlOpening : List Call :=
  [.alloc true, .alloc true, .alloc true, .alloc true, .setSignalHandlersEnabled false,
    .connect true, .session (setupSession 0 0 0 (lit "UTC")) (.ok (lit "7.")), .look 9,
    .destroyResult 9, .streamQuery urlQuery.text urlQuery.params (.ok (lit "7."))]

def urlCalls : List Call :=
  .alloc true :: .read .setup (.ok urlPayload) :: .read .setup (.ok []) :: urlOpening

theorem urlCalls_isPrefix : urlCalls <+: calls urlEnv := by
  decide +kernel

theorem urlPayload_builds :
    buildSetup selectSeven (lit "UTC") urlQuery.text urlQuery.params = .ok urlPayload := by
  decide +kernel

theorem urlQuery_fits :
    (setupRequest selectSeven (lit "UTC") urlQuery.text urlQuery.params).Fits where
  timezone := by decide +kernel
  query := by decide +kernel
  params := by decide +kernel
  count := by decide +kernel

/-- The backend has written the payload, and the helper has read it. -/
theorem weave_payload {p : Bytes} {cap : ℕ+} {t : List Call} (hsome : p ≠ [])
    (hroom : p.length ≤ cap) (hquiet : ∀ c ∈ t, c.quiet = true) :
    ∃ s, Weave fourBytes (.start cap 1 1 p none)
      (.alloc true :: .read .setup (.ok p) :: .read .setup (.ok []) :: t) s := by
  have h₀ : Weave fourBytes (.start cap 1 1 p none) [] _ := .start
  have hat : (System.start cap 1 1 p none).backend.pc = .head (.setup (p ++ [])) := by
    rw [List.append_nil]
    rfl
  have h₁ := h₀.backend (.setupWrite hat hsome rfl ((Nat.zero_add _).trans_le hroom))
  have h₂ := h₁.backend (.setupWritten rfl)
  have h₃ := h₂.call rfl rfl (.quiet (c := .alloc true) rfl)
  have h₄ := h₃.call rfl rfl (.setupRead (n := p.length) (b := p)
    (List.length_pos_iff.mpr hsome) (le_refl p.length) List.take_length)
  have h₅ := h₄.call rfl rfl (.setupEnd ⟨List.drop_length, rfl⟩)
  exact ⟨_, h₅.quiets rfl rfl hquiet⟩

/-- The two statements of that copy. -/
theorem statements_authorized_url : ∃ pre s,
    Weave fourBytes (.start 512 1 1 urlPayload none) urlCalls s ∧
    Authorized pre selectSeven urlQuery ∧ (statements urlCalls).length = 2 ∧
    statements urlCalls <+: [⟨none, setupSession 0 0 0 (lit "UTC"), []⟩,
      ⟨some .select, urlQuery.text, urlQuery.params⟩] := by
  obtain ⟨e, he, hstarted⟩ := Option.bind_eq_some_iff.mp started_url
  obtain ⟨hlt, rfl⟩ := List.getElem?_eq_some_iff.mp he
  have hsplit := (List.take_append_drop 5 (Effects.calls (PgChdb.chDBProcessUtilityHook
    (plainServer []) plainConfig (textTypes some) (.copy InPlace.copyStmt)))).symm
  rw [List.drop_eq_getElem_cons hlt, eq_of_startedBy hstarted] at hsplit
  obtain ⟨s, hw⟩ : ∃ s, Weave fourBytes (.start 512 1 1 urlPayload none) urlCalls s :=
    weave_payload nofun urlPayload_room (by decide)
  obtain ⟨hauthorized, hasked⟩ := statements_authorized (plainServer []) plainConfig
    (textTypes some) (.copy InPlace.copyStmt) hsplit urlPayload_builds urlQuery_fits fourBytes
    512 1 1 none hw urlCalls_isPrefix
  exact ⟨_, s, hw, hauthorized, by decide +kernel, hasked⟩

end PgChdb.Program
