import PgChdb.Native.Insert

namespace PgChdb

open CText Fallible Effects

/-!
# Statement-level effects of `chdb_copy_receive`

`CopyFrom` validates its target and fires the statement triggers whatever the length of its
input.  `chdb_copy_receive` does so on every path but one: a stream with no block, which is
how chDB answers a query that has no row, ends it before the executor is set up.

* `StatementEffects` — validated, then `BEFORE STATEMENT`, then `AFTER STATEMENT`, once each;
* `copyFrom_logs` — the part that follows `CopyFrom` always does this;
* `chdbCopyReceive_statementEffects_iff` — the function does exactly when a block arrived.
-/

variable {γ κ δ : Type}

/-- The events that concern the statement as a whole. -/
def Event.isStatement : Event δ → Bool
  | .checkValidResultRel _ | .execBSInsertTriggers _ | .execASInsertTriggers _ => true
  | _ => false

/-- The others. -/
def Event.isOther (e : Event δ) : Bool := !e.isStatement

/-- A procedure that makes only other calls logs no statement event. -/
theorem silent {α : Type} {m : Exec δ α} (hm : Only Event.isOther m) :
    Logs Event.isStatement m [] :=
  hm.logs fun e he => by simpa [Event.isOther] using he

/-- The target was validated, then its `BEFORE STATEMENT` triggers fired, then its
    `AFTER STATEMENT` triggers, each exactly once. -/
def StatementEffects (tgt : CopyTarget) (trace : List (Event δ)) : Prop :=
  trace.filter Event.isStatement =
    [.checkValidResultRel tgt.resultRelInfo, .execBSInsertTriggers tgt.resultRelInfo,
      .execASInsertTriggers tgt.resultRelInfo]

section
variable (ex : Executor δ) (conv : PgchConvert γ κ δ) (tgt : CopyTarget)

/-! ### No row makes a statement event -/

theorem flushBuffer_only (ins : NativeInsert δ) :
    Only Event.isOther (flushBuffer ex ins) := by
  unfold flushBuffer
  refine Only.ite (fun _ => Only.pure _) fun _ => ?_
  refine Only.bind (Only.call rfl) fun _ => ?_
  exact Only.bind (Only.forM (fun _ => afterInsert_only rfl rfl) _) fun _ => Only.pure _

theorem insertRow_only (rri : ResultRelInfo) (slot : TupleTableSlot δ) :
    Only Event.isOther (insertRow ex rri slot) := by
  unfold insertRow
  refine Only.ite (fun _ => ?_) fun _ => ?_
  · refine Only.bind (Only.ask fun _ => rfl) fun stored => ?_
    cases stored with
    | none => exact Only.pure _
    | some values => exact Only.bind (Only.call rfl) fun _ => Only.pure _
  · refine Only.bind (Only.call rfl) fun _ => ?_
    exact Only.bind (afterInsert_only rfl rfl) fun _ => Only.pure _

theorem routeRow_only (st : LoopState δ) (slot : TupleTableSlot δ) :
    Only Event.isOther (routeRow ex tgt st slot) := by
  unfold routeRow
  refine Only.ite (fun _ => ?_) fun _ => Only.pure _
  refine Only.bind (Only.ask fun _ => rfl) fun rri => ?_
  refine Only.bind (Only.onlyIf fun _ => ?_) fun _ => Only.pure _
  exact Only.bind (Only.note rfl) fun _ => Only.note rfl

theorem checkRow_only (beforeRow : Bool) (rri : ResultRelInfo) (slot : TupleTableSlot δ) :
    Only Event.isOther (checkRow ex tgt beforeRow rri slot) := by
  unfold checkRow computeGenerated
  refine Only.bind ?_ fun slot => ?_
  · refine Only.ite (fun _ => ?_) fun _ => Only.pure _
    exact Only.bind (Only.ask fun _ => rfl) fun _ => Only.pure _
  · refine Only.bind (Only.onlyIf fun _ => Only.call rfl) fun _ => ?_
    exact Only.bind (Only.onlyIf fun _ => Only.call rfl) fun _ => Only.pure _

theorem storeRow_only (st : LoopState δ) (rri : ResultRelInfo) (slot : TupleTableSlot δ) :
    Only Event.isOther (storeRow ex tgt st rri slot) := by
  unfold storeRow fireBeforeRow
  refine Only.bind (Only.note rfl) fun _ => ?_
  refine Only.bind ?_ fun kept => ?_
  · refine Only.ite (fun _ => ?_) fun _ => Only.pure _
    exact Only.bind (Only.ask fun _ => rfl) fun _ => Only.pure _
  · cases kept with
    | none => exact Only.pure _
    | some slot =>
      refine Only.ite (fun _ => Only.bind (Only.call rfl) fun _ => Only.pure _) fun _ => ?_
      refine Only.bind (checkRow_only ex tgt st.beforeRow rri slot) fun slot => ?_
      unfold placeRow
      refine Only.ite (fun _ => Only.bind ?_ fun _ => Only.pure _)
        fun _ => Only.bind (insertRow_only ex rri slot) fun _ => Only.pure _
      exact Only.ite (fun _ => flushBuffer_only ex _) fun _ => Only.pure _

theorem copyRows_only (states : List κ) (rows : List (List γ)) (st : LoopState δ) :
    Only Event.isOther (copyRows ex conv tgt states rows st) := by
  refine Only.bind (Only.foldlM (fun st p => ?_) _ _) fun st => turnHead_only rfl rfl
  refine Only.bind (turnHead_only rfl rfl) fun st => ?_
  refine Only.bind (Only.lift _) fun values => ?_
  refine Only.bind (fillDefaults_only fun _ => rfl) fun values => ?_
  exact Only.bind (routeRow_only ex tgt st _) fun r => storeRow_only ex tgt r.st r.rri r.slot

theorem copyInto_only (states : List κ) (rd : PgchReader γ) (buffered : Bool) :
    Only Event.isOther (copyInto ex conv tgt states rd buffered) := by
  refine Only.bind (copyRows_only ex conv tgt states rd.rows _) fun st => ?_
  refine Only.bind (Only.lift _) fun _ => ?_
  exact Only.bind (flushBuffer_only ex st.ins) fun _ => Only.pure _

/-! ### The statement events of a whole copy -/

/-- The set-up validates the target, then fires its `BEFORE STATEMENT` triggers. -/
theorem openTarget_logs : Logs Event.isStatement (openTarget ex tgt)
    [.checkValidResultRel tgt.resultRelInfo, .execBSInsertTriggers tgt.resultRelInfo] := by
  unfold openTarget
  refine Logs.bind (Logs.call rfl) fun _ => ?_
  refine Logs.bind (silent (Only.call rfl)) fun _ => ?_
  refine Logs.bind (silent (Only.onlyIf fun _ => Only.call rfl)) fun _ => ?_
  refine Logs.bind (silent (Only.call rfl)) fun _ => ?_
  refine Logs.bind (silent (Only.onlyIf fun _ => Only.call rfl)) fun _ => ?_
  exact Logs.call rfl

/-- The clean-up fires the `AFTER STATEMENT` triggers. -/
theorem closeTarget_logs (buffered : Bool) : Logs Event.isStatement
    (closeTarget ex tgt buffered) [.execASInsertTriggers tgt.resultRelInfo] := by
  unfold closeTarget
  refine Logs.bind (silent (Only.onlyIf fun _ => Only.call rfl)) fun _ => ?_
  refine Logs.bind (Logs.call rfl) fun _ => silent ?_
  refine Only.bind (Only.call rfl) fun _ => ?_
  exact Only.bind (Only.onlyIf fun _ => Only.call rfl) fun _ =>
    Only.onlyIf fun _ => Only.call rfl

/-- Whatever rows arrive, the part that follows `CopyFrom` has the statement's effects. -/
theorem copyFrom_logs (states : List κ) (rd : PgchReader γ) :
    Logs Event.isStatement (copyFrom ex conv tgt states rd)
      [.checkValidResultRel tgt.resultRelInfo, .execBSInsertTriggers tgt.resultRelInfo,
        .execASInsertTriggers tgt.resultRelInfo] := by
  unfold copyFrom
  refine Logs.bind (openTarget_logs ex tgt) fun _ => ?_
  refine Logs.bind (silent (copyInto_only ex conv tgt states rd tgt.buffered)) fun st => ?_
  exact Logs.bind (closeTarget_logs ex tgt tgt.buffered) fun _ => silent (Only.pure st.rows)

end

/-! ### The stream with no block -/

/-- Without a first block, and without an error in its place, the function returns before
    it has made any call. -/
theorem chdbCopyReceive_of_no_columns {ex : Executor δ} {conv : PgchConvert γ κ δ}
    {tgt : CopyTarget} {rd : PgchReader γ} (hinit : rd.initError = none)
    (hcols : rd.columns = 0) : chdbCopyReceive ex conv tgt rd [] = .ok 0 [] := by
  unfold chdbCopyReceive
  rw [hinit, if_pos hcols]
  rfl

/-- A stream with a first block has the statement's effects whenever the copy returns. -/
theorem chdbCopyReceive_logs (ex : Executor δ) (conv : PgchConvert γ κ δ) (tgt : CopyTarget)
    {rd : PgchReader γ} (hcols : rd.columns ≠ 0) :
    Logs Event.isStatement (chdbCopyReceive ex conv tgt rd)
      [.checkValidResultRel tgt.resultRelInfo, .execBSInsertTriggers tgt.resultRelInfo,
        .execASInsertTriggers tgt.resultRelInfo] := by
  unfold chdbCopyReceive
  rw [if_neg hcols]
  refine Logs.bind (silent (Only.lift _)) fun _ => Logs.bind (silent (Only.lift _)) fun _ => ?_
  exact Logs.bind (silent (Only.lift _)) fun states => copyFrom_logs ex conv tgt states rd

/-- **The statement-level effects happen exactly when a first block arrives.**  A stream that
    ends before its first block returns without validating the target or firing a trigger;
    one that breaks off there raises. -/
theorem chdbCopyReceive_statementEffects_iff (ex : Executor δ) (conv : PgchConvert γ κ δ)
    (tgt : CopyTarget) (input : List (BlockRead γ)) (rd : PgchReader γ)
    (hread : rd.Reads (sourceFor input)) :
    (∀ n trace, chdbCopyReceive ex conv tgt rd [] = .ok n trace → StatementEffects tgt trace)
      ↔ streamBlocks input ≠ [] ∨ streamError input ≠ none := by
  obtain ⟨-, hcols, hinit, -⟩ := hread.stream
  constructor
  · intro hall
    by_contra hnone
    rw [not_or, not_not, not_not] at hnone
    obtain ⟨hblocks, herr⟩ := hnone
    have hzero : rd.columns = 0 := by rw [hcols, hblocks]; rfl
    have hnoerr : rd.initError = none := by rw [hinit, hblocks, herr]; rfl
    -- the empty trace has none of the three events
    exact absurd (hall 0 [] (chdbCopyReceive_of_no_columns hnoerr hzero))
      (List.cons_ne_nil _ _).symm
  · intro harrived n trace hok
    by_cases hblocks : streamBlocks input = []
    · -- no block: the reader has the error, and its first check raises
      have herr := harrived.resolve_left fun hne => hne hblocks
      obtain ⟨msg, hmsg⟩ := Option.ne_none_iff_exists'.mp herr
      have hraise : rd.initError = some msg := by rw [hinit, hblocks, hmsg]; rfl
      unfold chdbCopyReceive at hok
      rw [hraise] at hok
      exact absurd hok (by intro hc; cases hc)
    · have hpos : rd.columns ≠ 0 := by
        obtain ⟨b, bs, hb⟩ := List.exists_cons_of_ne_nil hblocks
        rw [hcols, hb]
        exact b.nCols_pos.ne'
      have hevents := wp_ok (chdbCopyReceive_logs ex conv tgt hpos []) hok
      exact hevents

/-- A query with no row: neither the validation nor a trigger happens. -/
theorem chdbCopyReceive_skips_statement :
    (readerOver ([] : List (BlockRead ℕ))).Reads (sourceFor []) ∧
      chdbCopyReceive (plainExecutor (plainRelation 1)) cellsAsIs plainTarget
        (readerOver ([] : List (BlockRead ℕ))) [] = .ok 0 [] ∧
      ¬ StatementEffects plainTarget ([] : List (Event ℕ)) :=
  ⟨readerOver_reads (by decide), rfl, fun h => List.cons_ne_nil _ _ h.symm⟩

/-- A block with rows: all three events. -/
theorem chdbCopyReceive_statementEffects_twoRows :
    streamRows [.block twoRows] = [[1], [2]] ∧
      ∀ n trace, chdbCopyReceive (plainExecutor (plainRelation 1)) cellsAsIs plainTarget
        (readerOver [.block twoRows]) [] = .ok n trace → StatementEffects plainTarget trace :=
  ⟨rfl, (chdbCopyReceive_statementEffects_iff (plainExecutor (plainRelation 1)) cellsAsIs
    plainTarget [.block twoRows] (readerOver [.block twoRows]) (readerOver_reads (by decide))).mpr
    (Or.inl (List.cons_ne_nil _ _))⟩

end PgChdb
