import PgChdb.Helper.Statements
import PgChdb.Native.Accounting
import PgChdb.Native.Select
import PgChdb.Setup.Session

namespace PgChdb.Program

open CText Fallible Machine Channels Effects

/-!
# From the query to the rows

The bytes of a result are Native blocks.  The vendored reader makes rows of what
`chdb_helper_recv` returns, and `chdb_query` puts these into a tuplestore, `chdb_copy_receive`
into a relation.  Both rest on the one fact that a stream that has ended was the whole of it.

* `QueryCall`, `chdbQuery` — the SQL function: the checks of its caller, the helper, the rows;
* `Weave.streamEnded` — `chdb_helper_recv` tells the end of the stream of a program that has
  exited with 0, and has returned all that libchdb produced;
* `Reading` — a reader over what it has returned so far;
* `chdbQuery_whole` — `chdb_query` from its text to its tuples;
* `copyFrom_rows` — COPY FROM from its query to the rows of the relation.
-/

variable {γ κ δ : Type}

/-! ### `chdb_query` -/

/-- What `chdb_query` finds in its call: whether there is a `ReturnSetInfo`, whether it allows
    `SFRM_Materialize`, and the row type when that is composite. -/
structure QueryCall where
  acceptsSet : Bool
  materialize : Bool
  tupdesc : Option (List FormPgAttribute)

/-- The checks of the caller, with the columns of its definition list. -/
def QueryCall.check (call : QueryCall) : Raises (List FormPgAttribute) := do
  raiseIf (!call.acceptsSet)
    { errcode := .featureNotSupported
      errmsg := lit "chdb: set-valued function called in context that cannot accept a set" }
  raiseIf (!call.materialize)
    { errcode := .featureNotSupported
      errmsg := lit "chdb: materialize mode required, but it is not allowed in this context" }
  match call.tupdesc with
  | some tupdesc => return tupdesc
  | none =>
    .error { errcode := .featureNotSupported
             errmsg := lit "chdb: a column definition list is required for chdb_query" }

/-- `chdb_query`, as the tuplestore it returns with.  `start` is `chdb_helper_start`, without
    parameters, and what the reader then makes of the helper's output. -/
def chdbQuery (conv : PgchConvert γ κ δ) (gucs : ChdbGucs)
    (start : ChdbHelperContext → Bytes → Raises (PgchReader γ)) (call : QueryCall) (sql : Bytes) :
    Raises (List (List (Option δ))) := do
  let tupdesc ← call.check
  let rd ← start (helperContext .chdbQuery gucs) sql
  chdbSelectReceive conv tupdesc rd

theorem chdbQuery_eq_ok {conv : PgchConvert γ κ δ} {gucs : ChdbGucs}
    {start : ChdbHelperContext → Bytes → Raises (PgchReader γ)} {call : QueryCall} {sql : Bytes}
    {stored : List (List (Option δ))} (h : chdbQuery conv gucs start call sql = .ok stored) :
    ∃ tupdesc rd, call.check = .ok tupdesc ∧ start (helperContext .chdbQuery gucs) sql = .ok rd ∧
      chdbSelectReceive conv tupdesc rd = .ok stored := by
  simp only [chdbQuery, bind_eq_ok] at h
  obtain ⟨tupdesc, hcheck, rd, hstart, hselect⟩ := h
  exact ⟨tupdesc, rd, hcheck, hstart, hselect⟩

/-- The rows of a normal return are those of the stream up to where the reader stopped. -/
theorem chdbSelectReceive_stored {conv : PgchConvert γ κ δ} {tupdesc : List FormPgAttribute}
    {rd : PgchReader γ} {input : List (BlockRead γ)} (hread : rd.Reads (sourceFor input))
    {stored : List (List (Option δ))} (h : chdbSelectReceive conv tupdesc rd = .ok stored) :
    Stored conv tupdesc (streamRows input) stored := by
  obtain ⟨hrows, hcols, -, -⟩ := hread.stream
  obtain ⟨-, ⟨hzero, rfl⟩ | ⟨-, -, states, hstates, hall⟩⟩ :=
    (chdbSelectReceive_ok_iff hread.width).mp h
  · -- without a column there is no block
    have hnone : streamBlocks input = [] := by
      cases hb : streamBlocks input with
      | nil => rfl
      | cons b bs =>
        rw [hcols, hb] at hzero
        exact absurd hzero b.nCols_pos.ne'
    rw [streamRows, hnone]
    exact List.Forall₂.nil
  · rw [← hrows]
    exact hall.imp fun row tup htup => ⟨states, hstates, htup⟩

/-! ### The end of the stream -/

section
variable {job : CopyJob} {s : System} {log : List Call} {env : Env} {payload : Bytes}
variable {setupCap errCap dataCap : ℕ+} {todo : Option (List Bytes)}
variable {ctx : ChdbHelperContext} {timezone query : Bytes} {params : List (Bytes × Bytes)}

/-- Nothing but what libchdb has produced has been returned, in any state. -/
theorem Weave.received (hw : Weave job (.start setupCap errCap dataCap payload todo) log s)
    (hlog : log <+: calls env) (hcmd : job.cmd ≠ .insert) (hreader : ReaderFaithful job)
    (hcrash : ¬ job.crashes (.exited 0)) (hhead : payload.head? = some job.cmd.toByte) :
    s.backend.received.flatten <+: produced log := by
  obtain ⟨h, hrun⟩ := hw.runs hhead hlog
  have hc := runs_copies hcmd hreader hcrash hrun
  calc s.backend.received.flatten = s.data.taken := hc.taken
    _ <+: s.data.sent := List.prefix_append _ _
    _ = put .stdout log := (hw.carries.output hcmd).symm
    _ <+: produced log := (crossed_of_isPrefix hlog).1

/-- A stream that has ended was the whole, and its program has succeeded. -/
theorem Weave.streamEnded (hw : Weave job (.start setupCap errCap dataCap payload todo) log s)
    (hlog : log <+: calls env) (hcmd : job.cmd ≠ .insert) (hreader : ReaderFaithful job)
    (hcrash : ¬ job.crashes (.exited 0)) (hhead : payload.head? = some job.cmd.toByte)
    (hnil : [] ∈ s.backend.received) :
    log = calls env ∧ exitStatus env = some 0 ∧
      s.backend.received.flatten = produced (calls env) := by
  obtain ⟨h, hrun⟩ := hw.runs hhead hlog
  have hc := runs_copies hcmd hreader hcrash hrun
  obtain ⟨-, hstatus, hcontent⟩ := hc.ended hnil
  obtain ⟨rfl, hzero⟩ := hw.reaped_exited hlog hcrash hstatus
  refine ⟨rfl, hzero, ?_⟩
  calc s.backend.received.flatten = s.data.taken := hc.taken
    _ = s.data.sent := Pipe.taken_eq_sent hcontent
    _ = put .stdout (calls env) := (hw.carries.output hcmd).symm
    _ = produced (calls env) := (succeeded_of_exit hzero).written

/-- So it has when `chdb_copy` returns. -/
theorem Weave.returnedEnd (hw : Weave job (.start setupCap errCap dataCap payload todo) log s)
    (hlog : log <+: calls env) (hcmd : job.cmd ≠ .insert) (hreader : ReaderFaithful job)
    (hcrash : ¬ job.crashes (.exited 0)) (hhead : payload.head? = some job.cmd.toByte)
    (hreturn : s.backend.pc = .returned) : [] ∈ s.backend.received := by
  obtain ⟨h, hrun⟩ := hw.runs hhead hlog
  have hpc := (runs_copies hcmd hreader hcrash hrun).pc
  rwa [show (beside s h).backend.pc = .returned from hreturn] at hpc

/-- Of a SELECT that has succeeded libchdb was asked both statements. -/
theorem statements_of_ran {x : SetupRequest} (hcmd : x.cmdType = ChdbCmdType.toByte .select)
    (hran : Ran x log) (hasked : statements log <+: asked x) :
    statements log = [sessionStatement x, commandStatement x .select] := by
  have hboth : asked x = [sessionStatement x, commandStatement x .select] := by
    unfold asked
    rw [hcmd]
    rfl
  obtain ⟨reply, hquery⟩ : ∃ reply, Call.streamQuery x.query x.params reply ∈ log := by
    rcases hran with ⟨-, _, reply, hquery, -⟩ | ⟨hinsert, -⟩ | ⟨hdescribe, -⟩
    · exact ⟨reply, hquery⟩
    · exact absurd (hcmd.symm.trans hinsert) (by decide)
    · exact absurd (hcmd.symm.trans hdescribe) (by decide)
  have hmem : commandStatement x .select ∈ statements log :=
    List.mem_filterMap.mpr ⟨_, hquery, rfl⟩
  rw [hboth] at hasked
  -- a shorter beginning does not hold the second of them
  have hlen : 2 ≤ (statements log).length := by
    rcases List.prefix_cons_iff.mp hasked with hnone | ⟨t, ht, hrest⟩
    · rw [hnone] at hmem
      exact absurd hmem List.not_mem_nil
    · rcases List.prefix_cons_iff.mp hrest with rfl | ⟨u, rfl, -⟩
      · rw [ht] at hmem
        cases List.mem_singleton.mp hmem
      · rw [ht]
        simp
  exact hasked.eq_of_length_le hlen

/-! ### A result of one row -/

/-- The Native block of `SELECT 7`: one column and one row, the name and the type of the column, and the value. -/
def sevenBlock : Bytes := 1 :: 1 :: 1 :: (lit "7" ++ 5 :: (lit "UInt8" ++ [7]))

def decodeSeven (b : Bytes) : List (BlockRead ℕ) :=
  if b = sevenBlock then
    [.block { nCols := 1, rows := [[7]], nCols_pos := Nat.one_pos }, .eos]
  else if b = [] then [.eos] else [.failed []]

/-- The block comes in one chunk, and goes out in one write. -/
def blockEnv : Env :=
  { oneChunk with
    write := fun _ => .ok 10
    reply := fun log => .ok (if log.any (fun c => c matches .write _ _ _) then [] else
      if log.any (fun c => c matches .streamQuery _ _ _) then sevenBlock else []) }

/-- The calls from the payload to the block, and after it. -/
def rowOpening : List Call :=
  [.alloc true, .alloc true, .alloc true, .alloc true, .setSignalHandlersEnabled false,
    .connect true, .session (setupSession 0 0 0 (lit "UTC")) (.ok []), .look 9, .destroyResult 9,
    .streamQuery (lit "SELECT 7") [] (.ok []), .look 12, .fetchResult 12 (.ok sevenBlock),
    .look 14, .look 14, .look 14]

def rowClosing : List Call :=
  [.destroyResult 14, .fetchResult 12 (.ok []), .look 20, .look 20, .destroyResult 20,
    .destroyResult 12, .closeConn]

theorem calls_blockEnv : calls blockEnv =
    .alloc true :: .read .setup (.ok sevenPayload) :: .read .setup (.ok []) :: (rowOpening ++
      .write .stdout (some 14) (.ok sevenBlock) :: (rowClosing ++ [.exit 0])) := by
  decide +kernel

/-- What the backend receives of it, four bytes at a time. -/
def sevenPieces : List Bytes :=
  [sevenBlock.take 4, (sevenBlock.drop 4).take 4, sevenBlock.drop 8, []]

/-- The backend has had the end of the stream, and has reaped the helper. -/
theorem weave_blockEnv : ∃ s, Weave fourBytes (.start 64 1 16 sevenPayload none) (calls blockEnv) s ∧
    s.backend.pc = .calling ∧ s.backend.received = sevenPieces ∧ s.err.readOpen = false ∧
    s.backend.status = some (some (.exited 0)) := by
  have h₀ : Weave fourBytes (.start 64 1 16 sevenPayload none) [] _ := .start
  have h₁ := h₀.backend (.setupWrite (k := sevenPayload) rfl nofun rfl (by decide))
  have h₂ := h₁.backend (.setupWritten rfl)
  -- the helper reads the payload, asks libchdb, and writes the block
  have h₃ := h₂.call rfl rfl (.quiet (c := .alloc true) rfl)
  have h₄ := h₃.call rfl rfl (.setupRead (n := 28) (b := sevenPayload) (by decide) (by decide) rfl)
  have h₅ := (h₄.call rfl rfl (.setupEnd ⟨rfl, rfl⟩)).quiets (t := rowOpening) rfl rfl (by decide)
  have h₆ := h₅.call rfl rfl (.dataWrite (o := some 14) (b := sevenBlock) (by decide) (by decide)
    rfl (by decide))
  have h₇ := (h₆.quiets (t := rowClosing) rfl rfl (by decide)).call rfl rfl (.exit 0)
  -- it has exited when the backend begins to read
  have h₈ := (h₇.backend (.recvCall rfl nofun rfl)).backend
    (.recvGot (n := 4) rfl (by decide) (by decide) (by decide) rfl)
  have h₉ := (h₈.backend (.recvCall rfl nofun rfl)).backend
    (.recvGot (n := 4) rfl (by decide) (by decide) (by decide) rfl)
  have h₁₀ := (h₉.backend (.recvCall rfl nofun rfl)).backend
    (.recvGot (n := 3) rfl (by decide) (by decide) (by decide) rfl)
  have h₁₁ := (h₁₀.backend (.recvCall rfl nofun rfl)).backend (.recvEnd rfl rfl (Or.inr ⟨rfl, rfl⟩))
  have h₁₂ := (h₁₁.backend (.again rfl rfl)).backend (.drainEnd rfl rfl ⟨rfl, rfl⟩)
  have h₁₃ := (h₁₂.backend (.drainedAll rfl rfl)).backend (.errEnded rfl rfl)
  have h₁₄ := h₁₃.backend (.reap rfl rfl rfl)
  rw [calls_blockEnv]
  exact ⟨_, h₁₄, rfl, rfl, rfl, rfl⟩

theorem sevenPieces_flatten : sevenPieces.flatten = sevenBlock := by decide

theorem decodeSeven_block :
    (readerOver (decodeSeven sevenBlock)).Reads (sourceFor (decodeSeven sevenBlock)) :=
  readerOver_reads (by decide)

/-! ### The rows -/

/-- What the code relies on in the vendored reader: it reads, with `decode`, what
    `chdb_helper_recv` has returned, and stops without an error at the end of the stream only. -/
structure Reading (decode : Bytes → List (BlockRead γ)) (s : System) (rd : PgchReader γ) :
    Prop where
  reads : rd.Reads (sourceFor (decode s.backend.received.flatten))
  ended : rd.error = none → [] ∈ s.backend.received

/-- **What `chdb_query` returns is the result of its query.**  In every order of the helper's
    calls and the backend's steps: libchdb is asked to apply the settings and to run that text,
    and nothing else; the tuples are rows of what it produced up to some byte; and when the
    reader has stopped without an error, the program has exited with 0 and they are the rows of
    all it produced. -/
theorem chdbQuery_whole (conv : PgchConvert γ κ δ) (gucs : ChdbGucs)
    (start : ChdbHelperContext → Bytes → Raises (PgchReader γ)) (call : QueryCall) (sql : Bytes)
    {stored : List (List (Option δ))} (hquery : chdbQuery conv gucs start call sql = .ok stored)
    (decode : Bytes → List (BlockRead γ))
    (hread : ∀ rd, start (helperContext .chdbQuery gucs) sql = .ok rd → Reading decode s rd)
    (hbuild : buildSetup (helperContext .chdbQuery gucs) timezone sql [] = .ok payload)
    (hfits : (setupRequest (helperContext .chdbQuery gucs) timezone sql []).Fits)
    (job : CopyJob) (hcmd : job.cmd = .select) (hreader : ReaderFaithful job)
    (hcrash : ¬ job.crashes (.exited 0)) (setupCap errCap dataCap : ℕ+)
    (hw : Weave job (.start setupCap errCap dataCap payload todo) log s)
    (hlog : log <+: calls env) :
    ∃ tupdesc rd, call.check = .ok tupdesc ∧
      start (helperContext .chdbQuery gucs) sql = .ok rd ∧
      (∃ before, before <+: produced log ∧ Stored conv tupdesc (streamRows (decode before)) stored) ∧
      statements log <+: asked (setupRequest (helperContext .chdbQuery gucs) timezone sql []) ∧
      (rd.error = none → log = calls env ∧ exitStatus env = some 0 ∧
        statements log = [sessionStatement (setupRequest (helperContext .chdbQuery gucs) timezone
          sql []), ⟨some .select, sql, []⟩] ∧
        Stored conv tupdesc (streamRows (decode (produced log))) stored) := by
  obtain ⟨tupdesc, rd, hcheck, hstart, hselect⟩ := chdbQuery_eq_ok hquery
  have hsel : job.cmd ≠ .insert := by
    rw [hcmd]
    exact nofun
  obtain ⟨hparse, hfirst⟩ := parseSetup_buildSetup hbuild hfits
  have hhead : payload.head? = some job.cmd.toByte := by
    rw [hfirst, hcmd]
    rfl
  have hstored := chdbSelectReceive_stored (hread rd hstart).reads hselect
  have hasked := hw.statements hlog hparse
  refine ⟨tupdesc, rd, hcheck, hstart,
    ⟨_, hw.received hlog hsel hreader hcrash hhead, hstored⟩, hasked, fun hnone => ?_⟩
  obtain ⟨rfl, hzero, hwhole⟩ :=
    hw.streamEnded hlog hsel hreader hcrash hhead ((hread rd hstart).ended hnone)
  have hran := hw.ran hbuild hfits (succeeded_of_exit hzero)
  rw [hwhole] at hstored
  exact ⟨rfl, hzero, statements_of_ran rfl hran hasked, hstored⟩

/-- The row of `SELECT 7`, into a column `n integer`, without limits. -/
theorem chdbQuery_whole_seven : ∃ s rd, Weave fourBytes (.start 64 1 16 sevenPayload none)
      (calls blockEnv) s ∧ rd.error = none ∧
    chdbQuery cellsAsIs (gucsWithMemory 0 (by decide)) (fun _ _ => .ok rd)
      ⟨true, true, some oneColumn⟩ (lit "SELECT 7") = .ok [[some 7]] ∧
    exitStatus blockEnv = some 0 ∧
    Stored cellsAsIs oneColumn (streamRows (decodeSeven (produced (calls blockEnv)))) [[some 7]] := by
  obtain ⟨s, hw, -, hreceived, -⟩ := weave_blockEnv
  have hread : Reading decodeSeven s (readerOver (decodeSeven sevenBlock)) := by
    refine ⟨?_, fun _ => ?_⟩
    · rw [hreceived, sevenPieces_flatten]
      exact decodeSeven_block
    · rw [hreceived]
      decide
  have hquery : chdbQuery cellsAsIs (gucsWithMemory 0 (by decide))
      (fun _ _ => .ok (readerOver (decodeSeven sevenBlock))) ⟨true, true, some oneColumn⟩
      (lit "SELECT 7") = .ok [[some 7]] := by
    decide
  obtain ⟨tupdesc, rd, hcheck, hstart, -, -, hwhole⟩ := chdbQuery_whole cellsAsIs
    (gucsWithMemory 0 (by decide)) (fun _ _ => .ok (readerOver (decodeSeven sevenBlock)))
    ⟨true, true, some oneColumn⟩ (lit "SELECT 7") hquery decodeSeven
    (by rintro _ ⟨⟩; exact hread) rfl seven_fits fourBytes rfl fourBytes_faithful
    (by simp [fourBytes]) 64 1 16 hw List.prefix_rfl
  cases hcheck
  cases hstart
  obtain ⟨-, hzero, -, hstored⟩ := hwhole (by decide)
  exact ⟨s, _, hw, by decide, hquery, hzero, hstored⟩

/-- The part of `chdb_copy_receive` before `CopyFrom` adds that a stream without a block is a
    copy of nothing. -/
theorem chdbCopyReceive_rows (ex : Executor δ) (conv : PgchConvert γ κ δ) (tgt : CopyTarget)
    {input : List (BlockRead γ)} {rd : PgchReader γ} (hread : rd.Reads (sourceFor input)) :
    wp (chdbCopyReceive ex conv tgt rd) (fun count trace => streamError input = none ∧
      ((streamBlocks input = [] ∧ count = 0 ∧ trace = []) ∨
        Accounted tgt (streamRows input).length count trace)) (fun _ => True) [] := by
  obtain ⟨hrows, hcols, hinit, herr⟩ := hread.stream
  unfold chdbCopyReceive
  rw [wp_bind]
  refine wp_lift (fun _ hraise => ?_) trivial
  cases hb : streamBlocks input with
  | nil =>
    rw [if_pos (by rw [hcols, hb]; rfl)]
    have hnone := raiseSome_eq_ok.mp hraise
    rw [hinit, hb] at hnone
    exact ⟨hnone, Or.inl ⟨rfl, rfl, rfl⟩⟩
  | cons b bs =>
    have hpos : rd.columns ≠ 0 := by
      rw [hcols, hb]
      exact b.nCols_pos.ne'
    rw [if_neg hpos, wp_bind]
    refine wp_lift (fun _ _ => ?_) trivial
    rw [wp_bind]
    refine wp_lift (fun states _ => ?_) trivial
    rw [← hrows, ← herr]
    exact wp_mono copyFrom_accounted (fun _ _ ht => ⟨ht.1, Or.inr ht.2.1⟩) fun _ _ => trivial

/-- **COPY FROM inserts the rows that libchdb's result holds.**  In every order of the helper's
    calls and the backend's steps, for every behaviour of the executor: when `chdb_copy` has
    returned, libchdb has run the query with its parameters to its end, and each row of the
    result has been suppressed, declined or handed over once and in order, the count being that
    of the rows handed over. -/
theorem copyFrom_rows (ex : Executor δ) (conv : PgchConvert γ κ δ) (tgt : CopyTarget)
    (decode : Bytes → List (BlockRead γ)) {rd : PgchReader γ}
    (hread : rd.Reads (sourceFor (decode s.backend.received.flatten)))
    (hbuild : buildSetup ctx timezone query params = .ok payload)
    (hfits : (setupRequest ctx timezone query params).Fits) (hctx : ctx.cmd = .select)
    (job : CopyJob) (hcmd : job.cmd = .select) (hreader : ReaderFaithful job)
    (hcrash : ¬ job.crashes (.exited 0)) (setupCap errCap dataCap : ℕ+)
    (hw : Weave job (.start setupCap errCap dataCap payload todo) log s)
    (hlog : log <+: calls env) (hreturn : s.backend.pc = .returned) :
    statements log = [sessionStatement (setupRequest ctx timezone query params),
        ⟨some .select, query, params⟩] ∧
      Ran (setupRequest ctx timezone query params) log ∧
      wp (chdbCopyReceive ex conv tgt rd) (fun count trace =>
        streamError (decode (produced log)) = none ∧
        ((streamBlocks (decode (produced log)) = [] ∧ count = 0 ∧ trace = []) ∨
          Accounted tgt (streamRows (decode (produced log))).length count trace))
        (fun _ => True) [] := by
  have hsel : job.cmd ≠ .insert := by
    rw [hcmd]
    exact nofun
  obtain ⟨hparse, hfirst⟩ := parseSetup_buildSetup hbuild hfits
  have hhead : payload.head? = some job.cmd.toByte := by rw [hfirst, hctx, hcmd]
  have hnil := hw.returnedEnd hlog hsel hreader hcrash hhead hreturn
  obtain ⟨rfl, hzero, hwhole⟩ := hw.streamEnded hlog hsel hreader hcrash hhead hnil
  have hran := hw.ran hbuild hfits (succeeded_of_exit hzero)
  have hselect : (setupRequest ctx timezone query params).cmdType = ChdbCmdType.toByte .select :=
    congrArg ChdbCmdType.toByte hctx
  rw [hwhole] at hread
  exact ⟨statements_of_ran hselect hran (hw.statements hlog hparse), hran,
    chdbCopyReceive_rows ex conv tgt hread⟩

end

/-- The row of `SELECT 7`, inserted. -/
theorem copyFrom_rows_seven : ∃ s,
    Weave fourBytes (.start 64 1 16 sevenPayload none) (calls blockEnv) s ∧
      s.backend.pc = .returned ∧
      statements (calls blockEnv) = [sessionStatement (setupRequest selectSeven (lit "UTC")
        (lit "SELECT 7") []), ⟨some .select, lit "SELECT 7", []⟩] ∧
      Ran (setupRequest selectSeven (lit "UTC") (lit "SELECT 7") []) (calls blockEnv) ∧
      wp (chdbCopyReceive (plainExecutor (plainRelation 1)) cellsAsIs plainTarget
          (readerOver (decodeSeven sevenBlock))) (fun count trace =>
        streamError (decodeSeven (produced (calls blockEnv))) = none ∧
        ((streamBlocks (decodeSeven (produced (calls blockEnv))) = [] ∧ count = 0 ∧ trace = []) ∨
          Accounted plainTarget (streamRows (decodeSeven (produced (calls blockEnv)))).length count
            trace)) (fun _ => True) [] := by
  obtain ⟨s, hw, hpc, hreceived, herr, hstatus⟩ := weave_blockEnv
  have hreader : fourBytes.reader s.backend.received = .finished := by
    rw [hreceived]
    rfl
  have hfinished := hw.backend (.readerFinished hpc nofun hreader)
  have hreap := (hfinished.backend (.errEnded rfl herr)).backend (.reapAgain rfl hstatus)
  obtain ⟨t, ht, hreturned, hpieces⟩ : ∃ t,
      Weave fourBytes (.start 64 1 16 sevenPayload none) (calls blockEnv) t ∧
        t.backend.pc = .returned ∧ t.backend.received = sevenPieces := ⟨_, hreap, rfl, hreceived⟩
  have hread : (readerOver (decodeSeven sevenBlock)).Reads
      (sourceFor (decodeSeven t.backend.received.flatten)) := by
    rw [hpieces, sevenPieces_flatten]
    exact decodeSeven_block
  exact ⟨t, ht, hreturned, copyFrom_rows (plainExecutor (plainRelation 1)) cellsAsIs plainTarget
    decodeSeven hread rfl seven_fits rfl fourBytes rfl fourBytes_faithful (by simp [fourBytes])
    64 1 16 ht List.prefix_rfl hreturned⟩

end PgChdb.Program
