import PgChdb.Lib.Effects
import PgChdb.Native.Convert

namespace PgChdb

open CText Fallible Effects

/-!
# `chdb_copy_receive`: rows into a relation

The function replays `CopyFrom` over the rows the reader stops at: defaults, partition
routing, triggers, generated columns, constraints and the four ways a row can be stored,
with a buffer in front of the heap when the target allows one.

Everything it asks of PostgreSQL is an `Event`, and what PostgreSQL does is an `Executor`,
whose answers may depend on all the events so far.  A row carries its position in the
stream, which the code does not keep, so that events can be told apart by row.

* `ResultRelInfo`, `CopyTarget`, `TupleTableSlot` — the data;
* `NativeInsert`, `bufferSlot`, `bufferStore`, `flushBuffer`, `insertRow` — the buffer and
  the two ways around it;
* `routeRow`, `checkRow`, `placeRow`, `storeRow`, `copyRow`, `copyRows` — the loop;
* `chdbCopyReceive` — the function.
-/

variable {γ κ δ : Type}

/-! ### Relations and rows -/

/-- The trigger kinds of `TriggerDesc` the code reads. -/
structure TriggerDesc where
  trigInsertBeforeRow : Bool
  trigInsertInsteadRow : Bool
  deriving DecidableEq, Repr

/-- `TupleConstr`, which a relation has when it has any constraint. -/
structure TupleConstr where
  hasGeneratedStored : Bool
  deriving DecidableEq, Repr

/-- Which of the optional callbacks an FDW provides. -/
structure FdwRoutine where
  beginForeignInsert : Bool
  endForeignInsert : Bool
  deriving DecidableEq, Repr

/-- A result relation.  The executor keeps one for each relation and does not change it
    during the copy, so comparing two of them is comparing the pointers. -/
structure ResultRelInfo where
  relid : ℕ
  relispartition : Bool
  constr : Option TupleConstr
  fdwRoutine : Option FdwRoutine
  trigDesc : Option TriggerDesc
  numIndices : ℕ
  deriving DecidableEq, Repr

/-- `ri_TrigDesc && ri_TrigDesc->trig_insert_before_row`. -/
def ResultRelInfo.beforeRow (rri : ResultRelInfo) : Bool :=
  rri.trigDesc.any (·.trigInsertBeforeRow)

/-- `ri_TrigDesc && ri_TrigDesc->trig_insert_instead_row`. -/
def ResultRelInfo.insteadRow (rri : ResultRelInfo) : Bool :=
  rri.trigDesc.any (·.trigInsertInsteadRow)

/-- `constr && constr->has_generated_stored`. -/
def ResultRelInfo.hasGeneratedStored (rri : ResultRelInfo) : Bool :=
  rri.constr.any (·.hasGeneratedStored)

/-- The relation a copy is into: its own result relation, whether it is partitioned, its
    attributes and which of them have a default, the copied columns (from 1), and whether
    its triggers capture transition tuples. -/
structure CopyTarget where
  resultRelInfo : ResultRelInfo
  partitioned : Bool
  attrs : List FormPgAttribute
  hasDefault : ℕ → Bool
  attnums : List ℕ
  transition : Bool

/-- A tuple on its way, and the position in the stream of the row it came from. -/
structure TupleTableSlot (δ : Type) where
  values : List (Option δ)
  tableOid : ℕ
  row : ℕ
  deriving DecidableEq, Repr

/-! ### What is asked of PostgreSQL -/

/-- The calls into PostgreSQL, named after it.  Three are not calls: the interrupt check
    carries the row it comes before, and `slotRequest` and `flagsRead` record the buffer
    and the cached trigger flags at the moment the code uses them. -/
inductive Event (δ : Type) where
  | checkValidResultRel (rri : ResultRelInfo)
  | execOpenIndices (rri : ResultRelInfo)
  | beginForeignInsert (rri : ResultRelInfo)
  | afterTriggerBeginQuery
  | execSetupPartitionTupleRouting
  | execBSInsertTriggers (rri : ResultRelInfo)
  | checkForInterrupts (row : ℕ)
  | slotRequest (nused : ℕ) (allocated : List ℕ)
  | execEvalDefault (row : ℕ) (att : ℕ)
  | execFindPartition (rri : ResultRelInfo) (slot : TupleTableSlot δ)
  | originalInsertTuple (slot : Option (TupleTableSlot δ))
  | flagsRead (rri : ResultRelInfo) (beforeRow insteadRow : Bool)
  | execBRInsertTriggers (rri : ResultRelInfo) (slot : TupleTableSlot δ)
      (result : Option (List (Option δ)))
  | execIRInsertTriggers (rri : ResultRelInfo) (slot : TupleTableSlot δ)
  | execComputeStoredGenerated (rri : ResultRelInfo) (slot : TupleTableSlot δ)
      (result : List (Option δ))
  | execConstraints (rri : ResultRelInfo) (slot : TupleTableSlot δ)
  | execPartitionCheck (rri : ResultRelInfo) (slot : TupleTableSlot δ)
  | tableMultiInsert (rri : ResultRelInfo) (slots : List (TupleTableSlot δ))
  | tableTupleInsert (rri : ResultRelInfo) (slot : TupleTableSlot δ)
  | execForeignInsert (rri : ResultRelInfo) (slot : TupleTableSlot δ) (stored : Bool)
  | execInsertIndexTuples (rri : ResultRelInfo) (slot : TupleTableSlot δ)
  | execARInsertTriggers (rri : ResultRelInfo) (slot : TupleTableSlot δ)
  | tableFinishBulkInsert
  | execASInsertTriggers (rri : ResultRelInfo)
  | afterTriggerEndQuery
  | endForeignInsert (rri : ResultRelInfo)
  | execCleanupTupleRouting
  deriving DecidableEq, Repr

/-- What PostgreSQL does: which calls raise, and the answers of those that have one.  A
    suppressed row and a declined one are answered by none. -/
structure Executor (δ : Type) where
  call : List (Event δ) → Event δ → Raises Unit
  evalDefault : List (Event δ) → ℕ → Raises (Option δ)
  findPartition : List (Event δ) → TupleTableSlot δ → Raises ResultRelInfo
  rootToChildMap : ResultRelInfo → Option (List ℕ)
  brInsertTriggers : List (Event δ) → ResultRelInfo → TupleTableSlot δ →
    Raises (Option (List (Option δ)))
  computeStoredGenerated : List (Event δ) → ResultRelInfo → TupleTableSlot δ →
    Raises (List (Option δ))
  foreignInsert : List (Event δ) → ResultRelInfo → TupleTableSlot δ →
    Raises (Option (List (Option δ)))
  dataSize : List (Option δ) → ℕ

/-- The code, over those calls. -/
abbrev Exec (δ : Type) := Proc Ereport (Event δ)

/-! ### The buffer -/

/-- `CHDB_MAX_BUFFERED_TUPLES`. -/
def maxBufferedTuples : ℕ := 1000

/-- `CHDB_MAX_BUFFERED_BYTES`. -/
def maxBufferedBytes : ℕ := 64 * 1024

/-- `nativeInsert`; a slot that has not been created is none. -/
structure NativeInsert (δ : Type) where
  target : ResultRelInfo
  buffered : Bool
  nused : ℕ
  bytes : ℕ
  slots : ℕ → Option (TupleTableSlot δ)

/-- The slots created so far. -/
def NativeInsert.allocated (ins : NativeInsert δ) : List ℕ :=
  (List.range maxBufferedTuples).filter fun i => (ins.slots i).isSome

/-- A slot with nothing in it. -/
def clearedSlot : TupleTableSlot δ := { values := [], tableOid := 0, row := 0 }

/-- `after_insert`. -/
def afterInsert (ex : Executor δ) (rri : ResultRelInfo) (slot : TupleTableSlot δ) :
    Exec δ PUnit := do
  onlyIf (0 < rri.numIndices) (call ex.call (.execInsertIndexTuples rri slot))
  call ex.call (.execARInsertTriggers rri slot)

/-- The buffered rows, in order. -/
def NativeInsert.filled (ins : NativeInsert δ) : List (TupleTableSlot δ) :=
  (List.range ins.nused).filterMap ins.slots

/-- The buffer after a flush: the used slots are kept, cleared. -/
def NativeInsert.emptied (ins : NativeInsert δ) : NativeInsert δ :=
  { ins with
    nused := 0
    bytes := 0
    slots := fun i => if i < ins.nused then (ins.slots i).map fun _ => clearedSlot
      else ins.slots i }

/-- `flush_buffer`. -/
def flushBuffer (ex : Executor δ) (ins : NativeInsert δ) : Exec δ (NativeInsert δ) :=
  if ins.nused = 0 then
    return ins
  else do
    call ex.call (.tableMultiInsert ins.target ins.filled)
    forM ins.filled (afterInsert ex ins.target)
    return ins.emptied

/-- `buffer_slot`, as the buffer it leaves: the slot at `nused` exists. -/
def bufferSlot (ins : NativeInsert δ) : NativeInsert δ :=
  if (ins.slots ins.nused).isNone then
    { ins with slots := Function.update ins.slots ins.nused (some clearedSlot) }
  else ins

/-- The buffer with one more row in it. -/
def NativeInsert.push (ins : NativeInsert δ) (size : ℕ) (slot : TupleTableSlot δ) :
    NativeInsert δ :=
  { ins with
    nused := ins.nused + 1
    bytes := ins.bytes + size
    slots := Function.update ins.slots ins.nused (some slot) }

/-- `buffer_store`. -/
def bufferStore (ex : Executor δ) (ins : NativeInsert δ) (slot : TupleTableSlot δ) :
    Exec δ (NativeInsert δ) :=
  let ins := ins.push (ex.dataSize slot.values) slot
  if maxBufferedTuples ≤ ins.nused ∨ maxBufferedBytes ≤ ins.bytes then flushBuffer ex ins
  else return ins

/-- `insert_row`: false when an FDW took the row and stored nothing. -/
def insertRow (ex : Executor δ) (rri : ResultRelInfo) (slot : TupleTableSlot δ) :
    Exec δ Bool :=
  if rri.fdwRoutine.isSome then do
    let stored ← ask (fun h => ex.foreignInsert h rri slot)
      (fun r => .execForeignInsert rri slot r.isSome)
    match stored with
    | none => return false
    | some values =>
      call ex.call (.execARInsertTriggers rri { slot with values, tableOid := rri.relid })
      return true
  else do
    call ex.call (.tableTupleInsert rri slot)
    afterInsert ex rri slot
    return true

/-! ### Defaults -/

/-- `defaults_for`: the offsets a default fills, those of the columns that are neither
    dropped nor generated nor copied and have one. -/
def CopyTarget.defaults (tgt : CopyTarget) : List ℕ :=
  (tgt.attrs.zipIdx.filter fun p => !p.1.attisdropped && !p.1.attgenerated &&
    !tgt.attnums.contains (p.2 + 1) && tgt.hasDefault p.2).map Prod.snd

/-- `fill_defaults`. -/
def fillDefaults (ex : Executor δ) (row : ℕ) (defaults : List ℕ) (values : List (Option δ)) :
    Exec δ (List (Option δ)) :=
  defaults.foldlM (fun values att => do
    let v ← ask (fun h => ex.evalDefault h att) (fun _ => .execEvalDefault row att)
    return values.set att v) values

/-! ### The loop -/

/-- What the loop carries from row to row. -/
structure LoopState (δ : Type) where
  ins : NativeInsert δ
  beforeRow : Bool
  insteadRow : Bool
  routed : Option ResultRelInfo
  rows : ℕ

/-- The head of a turn, before row `k` or the end of the stream: an interrupt or a failure
    to read may raise, and the slot the row will be built in exists. -/
def turnHead (ex : Executor δ) (st : LoopState δ) (k : ℕ) : Exec δ (LoopState δ) := do
  call ex.call (.checkForInterrupts k)
  if st.ins.buffered then do
    note (.slotRequest st.ins.nused st.ins.allocated)
    return { st with ins := bufferSlot st.ins }
  else return st

/-- A routed row: where to, as which tuple, and the loop's flags from here on. -/
structure Routed (δ : Type) where
  rri : ResultRelInfo
  slot : TupleTableSlot δ
  st : LoopState δ

/-- `execute_attr_map_slot`: the values in the child's order, null where it has none. -/
def attrMapSlot (attrMap : List ℕ) (values : List (Option δ)) : List (Option δ) :=
  attrMap.map fun j => if j = 0 then none else values.getD (j - 1) none

/-- The cached flags, refreshed when the routed relation changes. -/
def LoopState.routeTo (st : LoopState δ) (rri : ResultRelInfo) : LoopState δ :=
  if st.routed = some rri then st
  else { st with beforeRow := rri.beforeRow, insteadRow := rri.insteadRow, routed := some rri }

/-- The tuple as the partition stores it. -/
def childSlot (ex : Executor δ) (rri : ResultRelInfo) (slot : TupleTableSlot δ) :
    TupleTableSlot δ :=
  match ex.rootToChildMap rri with
  | some m => { slot with values := attrMapSlot m slot.values, tableOid := rri.relid }
  | none => { slot with tableOid := rri.relid }

/-- The routing part of a turn. -/
def routeRow (ex : Executor δ) (tgt : CopyTarget) (st : LoopState δ)
    (slot : TupleTableSlot δ) : Exec δ (Routed δ) :=
  if tgt.partitioned then do
    let rri ← ask (fun h => ex.findPartition h slot) (fun r => .execFindPartition r slot)
    let st := st.routeTo rri
    onlyIf tgt.transition (do
      note (.flagsRead rri st.beforeRow st.insteadRow)
      note (.originalInsertTuple (if st.beforeRow then none else some slot)))
    return { rri, slot := childSlot ex rri slot, st }
  else return { rri := tgt.resultRelInfo, slot, st }

/-- `ExecComputeStoredGenerated`, where the relation has generated columns. -/
def computeGenerated (ex : Executor δ) (rri : ResultRelInfo) (slot : TupleTableSlot δ) :
    Exec δ (TupleTableSlot δ) :=
  if rri.hasGeneratedStored then do
    let values ← ask (fun h => ex.computeStoredGenerated h rri slot)
      (fun values => .execComputeStoredGenerated rri slot values)
    return { slot with values }
  else return slot

/-- The checks of the storing part of a turn, as the tuple that passed them. -/
def checkRow (ex : Executor δ) (tgt : CopyTarget) (beforeRow : Bool) (rri : ResultRelInfo)
    (slot : TupleTableSlot δ) : Exec δ (TupleTableSlot δ) := do
  let slot ← computeGenerated ex rri slot
  onlyIf (rri.fdwRoutine.isNone && rri.constr.isSome) (call ex.call (.execConstraints rri slot))
  -- routing already proved the partition constraint, unless a trigger had the tuple since
  onlyIf (rri.relispartition && (!tgt.partitioned || beforeRow))
    (call ex.call (.execPartitionCheck rri slot))
  return slot

/-- The tuple the `BEFORE ROW` triggers leave, none when they suppress the row. -/
def fireBeforeRow (ex : Executor δ) (beforeRow : Bool) (rri : ResultRelInfo)
    (slot : TupleTableSlot δ) : Exec δ (Option (TupleTableSlot δ)) :=
  if beforeRow then do
    let result ← ask (fun h => ex.brInsertTriggers h rri slot)
      (fun result => .execBRInsertTriggers rri slot result)
    return result.map fun values => { slot with values }
  else return some slot

/-- A checked tuple, into the buffer or past it. -/
def placeRow (ex : Executor δ) (st : LoopState δ) (rri : ResultRelInfo)
    (slot : TupleTableSlot δ) : Exec δ (LoopState δ) :=
  if st.ins.buffered then do
    let ins ← bufferStore ex st.ins slot
    return { st with ins, rows := st.rows + 1 }
  else do
    let stored ← insertRow ex rri slot
    return if stored then { st with rows := st.rows + 1 } else st

/-- The storing part of a turn. -/
def storeRow (ex : Executor δ) (tgt : CopyTarget) (st : LoopState δ) (rri : ResultRelInfo)
    (slot : TupleTableSlot δ) : Exec δ (LoopState δ) := do
  note (.flagsRead rri st.beforeRow st.insteadRow)
  let kept ← fireBeforeRow ex st.beforeRow rri slot
  match kept with
  | none => return st
  | some slot =>
    if st.insteadRow then do
      call ex.call (.execIRInsertTriggers rri slot)
      return { st with rows := st.rows + 1 }
    else do
      let slot ← checkRow ex tgt st.beforeRow rri slot
      placeRow ex st rri slot

/-- The offsets the stream's columns land at. -/
def CopyTarget.dest (tgt : CopyTarget) : List ℕ := tgt.attnums.map (· - 1)

/-- The attributes the stream's columns land in. -/
def CopyTarget.copied (tgt : CopyTarget) : List FormPgAttribute :=
  tgt.dest.filterMap (tgt.attrs[·]?)

/-- The values a streamed row gives the tuple; the others stay null. -/
def fillRow (conv : PgchConvert γ κ δ) (tgt : CopyTarget) (states : List κ) (row : List γ) :
    Raises (List (Option δ)) :=
  fillMap conv states tgt.dest row (List.replicate tgt.attrs.length none)

/-- One turn of the loop, on row `k`. -/
def copyRow (ex : Executor δ) (conv : PgchConvert γ κ δ) (tgt : CopyTarget) (states : List κ)
    (st : LoopState δ) (p : List γ × ℕ) : Exec δ (LoopState δ) := do
  let st ← turnHead ex st p.2
  let values ← lift (fillRow conv tgt states p.1)
  let values ← fillDefaults ex p.2 tgt.defaults values
  let r ← routeRow ex tgt st { values, tableOid := tgt.resultRelInfo.relid, row := p.2 }
  storeRow ex tgt r.st r.rri r.slot

/-- The loop; its last turn ends at `pgch_reader_next`. -/
def copyRows (ex : Executor δ) (conv : PgchConvert γ κ δ) (tgt : CopyTarget) (states : List κ)
    (rows : List (List γ)) (st : LoopState δ) : Exec δ (LoopState δ) := do
  let st ← rows.zipIdx.foldlM (copyRow ex conv tgt states) st
  turnHead ex st rows.length

/-! ### The function -/

/-- `ins.buffered`: a buffer belongs to one local relation, and rows a trigger may see
    cannot sit in one. -/
def CopyTarget.buffered (tgt : CopyTarget) : Bool :=
  !tgt.partitioned && tgt.resultRelInfo.fdwRoutine.isNone && !tgt.resultRelInfo.beforeRow &&
    !tgt.resultRelInfo.insteadRow

/-- The loop's state before the first row. -/
def CopyTarget.loopState (tgt : CopyTarget) (buffered : Bool) : LoopState δ where
  ins := { target := tgt.resultRelInfo, buffered, nused := 0, bytes := 0, slots := fun _ => none }
  beforeRow := tgt.resultRelInfo.beforeRow
  insteadRow := tgt.resultRelInfo.insteadRow
  routed := none
  rows := 0

/-- The executor set-up, up to the `BEFORE STATEMENT` triggers. -/
def openTarget (ex : Executor δ) (tgt : CopyTarget) : Exec δ PUnit := do
  call ex.call (.checkValidResultRel tgt.resultRelInfo)
  call ex.call (.execOpenIndices tgt.resultRelInfo)
  onlyIf (tgt.resultRelInfo.fdwRoutine.any (·.beginForeignInsert))
    (call ex.call (.beginForeignInsert tgt.resultRelInfo))
  call ex.call .afterTriggerBeginQuery
  onlyIf tgt.partitioned (call ex.call .execSetupPartitionTupleRouting)
  call ex.call (.execBSInsertTriggers tgt.resultRelInfo)

/-- From the first row to the last flush. -/
def copyInto (ex : Executor δ) (conv : PgchConvert γ κ δ) (tgt : CopyTarget) (states : List κ)
    (rd : PgchReader γ) (buffered : Bool) : Exec δ (LoopState δ) := do
  let st ← copyRows ex conv tgt states rd.rows (tgt.loopState buffered)
  -- the loop ends on a reader error the same way it ends on no rows
  lift (raiseSome rd.error reportReaderError)
  let ins ← flushBuffer ex st.ins
  return { st with ins }

/-- From the `AFTER STATEMENT` triggers on. -/
def closeTarget (ex : Executor δ) (tgt : CopyTarget) (buffered : Bool) : Exec δ PUnit := do
  onlyIf buffered (call ex.call .tableFinishBulkInsert)
  call ex.call (.execASInsertTriggers tgt.resultRelInfo)
  call ex.call .afterTriggerEndQuery
  onlyIf (tgt.resultRelInfo.fdwRoutine.any (·.endForeignInsert))
    (call ex.call (.endForeignInsert tgt.resultRelInfo))
  onlyIf tgt.partitioned (call ex.call .execCleanupTupleRouting)

/-- The part of the function that follows `CopyFrom`. -/
def copyFrom (ex : Executor δ) (conv : PgchConvert γ κ δ) (tgt : CopyTarget) (states : List κ)
    (rd : PgchReader γ) : Exec δ ℕ := do
  openTarget ex tgt
  let st ← copyInto ex conv tgt states rd tgt.buffered
  closeTarget ex tgt tgt.buffered
  return st.rows

/-- `chdb_copy_receive`: the number of rows inserted. -/
def chdbCopyReceive (ex : Executor δ) (conv : PgchConvert γ κ δ) (tgt : CopyTarget)
    (rd : PgchReader γ) : Exec δ ℕ := do
  lift (raiseSome rd.initError reportReaderError)
  if rd.columns = 0 then
    -- Nothing streamed at all, so there is no schema to check.
    return 0
  else do
    lift (raiseIf (rd.columns ≠ tgt.attnums.length)
      { errcode := .badCopyFileFormat
        errmsg := lit "chdb: chDB returned " ++ decimal rd.columns ++ lit " columns, expected " ++
          decimal tgt.attnums.length })
    let states ← lift (convertStates conv tgt.copied)
    copyFrom ex conv tgt states rd

/-! ### What the buffer holds -/

/-- Changing the slots from `n` on does not change what the first `n` hold. -/
theorem filterMap_range_update (slots : ℕ → Option (TupleTableSlot δ)) (n : ℕ)
    (v : Option (TupleTableSlot δ)) :
    (List.range n).filterMap (Function.update slots n v) = (List.range n).filterMap slots := by
  refine List.filterMap_congr fun i hi => ?_
  exact Function.update_of_ne (List.mem_range.mp hi).ne v slots

@[simp] theorem filled_push (ins : NativeInsert δ) (size : ℕ) (slot : TupleTableSlot δ) :
    (ins.push size slot).filled = ins.filled ++ [slot] := by
  unfold NativeInsert.push NativeInsert.filled
  rw [List.range_succ, List.filterMap_append, filterMap_range_update]
  simp

@[simp] theorem filled_bufferSlot (ins : NativeInsert δ) :
    (bufferSlot ins).filled = ins.filled := by
  unfold bufferSlot NativeInsert.filled
  by_cases h : (ins.slots ins.nused).isNone
  · rw [if_pos h]; exact filterMap_range_update ins.slots ins.nused (some clearedSlot)
  · rw [if_neg h]

@[simp] theorem filled_emptied (ins : NativeInsert δ) : ins.emptied.filled = [] := rfl

theorem filled_nil {ins : NativeInsert δ} (h : ins.nused = 0) : ins.filled = [] := by
  unfold NativeInsert.filled
  rw [h]
  rfl

/-- A slot that is made to exist changes nothing else. -/
@[simp] theorem bufferSlot_nused (ins : NativeInsert δ) : (bufferSlot ins).nused = ins.nused := by
  unfold bufferSlot
  split <;> rfl

@[simp] theorem bufferSlot_buffered (ins : NativeInsert δ) :
    (bufferSlot ins).buffered = ins.buffered := by
  unfold bufferSlot
  split <;> rfl

@[simp] theorem bufferSlot_target (ins : NativeInsert δ) :
    (bufferSlot ins).target = ins.target := by
  unfold bufferSlot
  split <;> rfl

/-- Routing changes the flags and the relation routed to. -/
@[simp] theorem routeTo_ins (st : LoopState δ) (rri : ResultRelInfo) :
    (st.routeTo rri).ins = st.ins := by
  unfold LoopState.routeTo
  split <;> rfl

@[simp] theorem routeTo_rows (st : LoopState δ) (rri : ResultRelInfo) :
    (st.routeTo rri).rows = st.rows := by
  unfold LoopState.routeTo
  split <;> rfl

@[simp] theorem routeTo_routed (st : LoopState δ) (rri : ResultRelInfo) :
    (st.routeTo rri).routed = some rri := by
  unfold LoopState.routeTo
  split
  · assumption
  · rfl

@[simp] theorem childSlot_row (ex : Executor δ) (rri : ResultRelInfo) (slot : TupleTableSlot δ) :
    (childSlot ex rri slot).row = slot.row := by
  unfold childSlot
  split <;> rfl

/-! ### The calls of the small parts -/

/-- The events before the first row and after the last. -/
def Event.isSetup : Event δ → Bool
  | .checkValidResultRel _ | .execOpenIndices _ | .beginForeignInsert _ | .afterTriggerBeginQuery
  | .execSetupPartitionTupleRouting | .execBSInsertTriggers _ | .tableFinishBulkInsert
  | .execASInsertTriggers _ | .afterTriggerEndQuery | .endForeignInsert _
  | .execCleanupTupleRouting => true
  | _ => false

section
variable {ex : Executor δ} {p : Event δ → Bool}

theorem afterInsert_only {rri : ResultRelInfo} {slot : TupleTableSlot δ}
    (hidx : p (.execInsertIndexTuples rri slot) = true)
    (har : p (.execARInsertTriggers rri slot) = true) : Only p (afterInsert ex rri slot) :=
  Only.bind (Only.onlyIf fun _ => Only.call hidx) fun _ => Only.call har

theorem turnHead_only {st : LoopState δ} {k : ℕ} (hint : p (.checkForInterrupts k) = true)
    (hreq : p (.slotRequest st.ins.nused st.ins.allocated) = true) :
    Only p (turnHead ex st k) := by
  unfold turnHead
  refine Only.bind (Only.call hint) fun _ => ?_
  exact Only.ite (fun _ => Only.bind (Only.note hreq) fun _ => Only.pure _) fun _ => Only.pure _

theorem fillDefaults_only {row : ℕ} {defaults : List ℕ} {values : List (Option δ)}
    (heval : ∀ att, p (.execEvalDefault row att) = true) :
    Only p (fillDefaults ex row defaults values) :=
  Only.foldlM (fun _ att => Only.bind (Only.ask fun _ => heval att) fun _ => Only.pure _) _ _

theorem openTarget_only {tgt : CopyTarget} : Only Event.isSetup (openTarget ex tgt) := by
  unfold openTarget
  refine Only.bind (Only.call rfl) fun _ => Only.bind (Only.call rfl) fun _ => ?_
  refine Only.bind (Only.onlyIf fun _ => Only.call rfl) fun _ => ?_
  refine Only.bind (Only.call rfl) fun _ => ?_
  exact Only.bind (Only.onlyIf fun _ => Only.call rfl) fun _ => Only.call rfl

theorem closeTarget_only {tgt : CopyTarget} {buffered : Bool} :
    Only Event.isSetup (closeTarget ex tgt buffered) := by
  unfold closeTarget
  refine Only.bind (Only.onlyIf fun _ => Only.call rfl) fun _ => ?_
  refine Only.bind (Only.call rfl) fun _ => Only.bind (Only.call rfl) fun _ => ?_
  exact Only.bind (Only.onlyIf fun _ => Only.call rfl) fun _ => Only.onlyIf fun _ => Only.call rfl

end

/-! ### The simplest executor and target -/

/-- An executor that raises nothing, changes nothing and routes every row to `child`. -/
def plainExecutor (child : ResultRelInfo) : Executor δ where
  call _ _ := .ok ()
  evalDefault _ _ := .ok none
  findPartition _ _ := .ok child
  rootToChildMap _ := none
  brInsertTriggers _ _ slot := .ok (some slot.values)
  computeStoredGenerated _ _ slot := .ok slot.values
  foreignInsert _ _ slot := .ok (some slot.values)
  dataSize values := 8 * values.length

/-- A table with no constraint, trigger or index. -/
def plainRelation (relid : ℕ) : ResultRelInfo where
  relid := relid
  relispartition := false
  constr := none
  fdwRoutine := none
  trigDesc := none
  numIndices := 0

/-- Such a table, of one column. -/
def plainTarget : CopyTarget where
  resultRelInfo := plainRelation 1
  partitioned := false
  attrs := [intAttribute (lit "n")]
  hasDefault _ := false
  attnums := [1]
  transition := false

end PgChdb
