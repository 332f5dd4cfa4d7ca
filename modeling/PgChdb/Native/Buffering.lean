import PgChdb.Lib.Batch
import PgChdb.Native.Insert

namespace PgChdb

open CText Fallible Effects

/-!
# Buffered and row-at-a-time inserts

`CopyFrom` does not buffer rows when a default may be volatile, since a default can query
the table and would miss the rows still in the buffer.  `chdb_copy_receive` has no such
test.  The two ways of inserting are two runs of one batched store, so they agree for the
targets whose rows come out the same whether or not the buffered rows can be seen, and for
no others.

* `RowExecutor` — an executor whose answers depend on the stored rows: defaults on the
  visible ones, index entries on the indexed ones;
* `formRow`, `targetStore` — the tuple a streamed row becomes, and the target as a store;
* `copyInto_buffered_sim`, `copyInto_direct_sim` — the two paths are the store's two runs;
* `copyInto_buffered_iff` — they store the same rows exactly when the target is blind to
  its buffer.
-/

variable {γ κ δ : Type}

/-! ### What a list of calls has stored -/

/-- The rows the event adds to the heap, where later queries see them. -/
def Event.visibleRows : Event δ → List (List (Option δ))
  | .tableMultiInsert _ slots => slots.map (·.values)
  | .tableTupleInsert _ s => [s.values]
  | _ => []

/-- The row the event adds to the indices. -/
def Event.indexedRows : Event δ → List (List (Option δ))
  | .execInsertIndexTuples _ s => [s.values]
  | _ => []

/-- One for the event that begins a turn. -/
def Event.turnsBegun : Event δ → ℕ
  | .checkForInterrupts _ => 1
  | _ => 0

/-- The heap, the indices, and how many turns have begun. -/
structure Facts (δ : Type) where
  visible : List (List (Option δ))
  indexed : List (List (Option δ))
  turns : ℕ

def facts (h : List (Event δ)) : Facts δ where
  visible := h.flatMap Event.visibleRows
  indexed := h.flatMap Event.indexedRows
  turns := (h.map Event.turnsBegun).sum

theorem facts_append (h : List (Event δ)) (e : Event δ) :
    facts (h ++ [e]) = { visible := (facts h).visible ++ e.visibleRows
                         indexed := (facts h).indexed ++ e.indexedRows
                         turns := (facts h).turns + e.turnsBegun } := by
  simp [facts, List.flatMap_append]

/-- An event that changes none of the three. -/
theorem facts_other {h : List (Event δ)} {e : Event δ} (hv : e.visibleRows = [])
    (hi : e.indexedRows = []) (ht : e.turnsBegun = 0) : facts (h ++ [e]) = facts h := by
  rw [facts_append, hv, hi, ht, List.append_nil, List.append_nil]
  rfl

/-! ### An executor that depends on the stored rows -/

/-- How a relation's expressions behave: a default may use the number of the row and the
    rows visible when it is evaluated; a generated column, a constraint and the partition
    constraint are functions of the row; an index entry depends on the rows indexed before
    it.  None, or false, raises. -/
structure RowExecutor (δ : Type) where
  default : ℕ → List (List (Option δ)) → ℕ → Option (Option δ)
  generated : List (Option δ) → Option (List (Option δ))
  constraints : List (Option δ) → Bool
  partitionCheck : List (Option δ) → Bool
  index : List (List (Option δ)) → List (Option δ) → Bool
  dataSize : List (Option δ) → ℕ

/-- What such an expression raises with. -/
def rowError : Ereport where
  errcode := .externalRoutineException
  errmsg := lit "row rejected"

def orRaise {α : Type} : Option α → Raises α
  | some a => .ok a
  | none => .error rowError

/-- The executor in which the expressions behave this way and nothing else raises. -/
def RowExecutor.executor (re : RowExecutor δ) : Executor δ where
  call h
    | .execConstraints _ s => raiseIf (re.constraints s.values = false) rowError
    | .execPartitionCheck _ s => raiseIf (re.partitionCheck s.values = false) rowError
    | .execInsertIndexTuples _ s => raiseIf (re.index (facts h).indexed s.values = false) rowError
    | _ => .ok ()
  evalDefault h att := orRaise (re.default ((facts h).turns - 1) (facts h).visible att)
  findPartition _ _ := .error rowError
  rootToChildMap _ := none
  brInsertTriggers _ _ slot := .ok (some slot.values)
  computeStoredGenerated _ _ slot := orRaise (re.generated slot.values)
  foreignInsert _ _ slot := .ok (some slot.values)
  dataSize := re.dataSize

/-- The tuple with its defaults, which see `seen`. -/
def defaultRow (re : RowExecutor δ) (k : ℕ) (seen : List (List (Option δ)))
    (defaults : List ℕ) (values : List (Option δ)) : Option (List (Option δ)) :=
  defaults.foldlM (fun values att => (re.default k seen att).map (values.set att)) values

/-- The tuple with its generated columns. -/
def generatedRow (re : RowExecutor δ) (rri : ResultRelInfo) (values : List (Option δ)) :
    Option (List (Option δ)) :=
  if rri.hasGeneratedStored then re.generated values else some values

/-- A test that must be passed. -/
def passes (c : Bool) : Option Unit := if c then some () else none

/-- The tuple once it has been generated and checked. -/
def checkedRow (re : RowExecutor δ) (rri : ResultRelInfo) (values : List (Option δ)) :
    Option (List (Option δ)) := do
  let values ← generatedRow re rri values
  passes (!rri.constr.isSome || re.constraints values)
  passes (!rri.relispartition || re.partitionCheck values)
  return values

/-- The tuple that row `k` of the stream becomes when its defaults see `seen`. -/
def formRow (re : RowExecutor δ) (conv : PgchConvert γ κ δ) (tgt : CopyTarget) (states : List κ)
    (k : ℕ) (seen : List (List (Option δ))) (row : List γ) : Option (List (Option δ)) := do
  let values ← (fillRow conv tgt states row).toOption
  let values ← defaultRow re k seen tgt.defaults values
  checkedRow re tgt.resultRelInfo values

/-- The target as a store: its tuples, its indices, and the buffer's two limits. -/
def targetStore (re : RowExecutor δ) (conv : PgchConvert γ κ δ) (tgt : CopyTarget)
    (states : List κ) : Batch.Store (List γ) (List (Option δ)) where
  build := formRow re conv tgt states
  accepts content values :=
    if 0 < tgt.resultRelInfo.numIndices then re.index content values else true
  full batch := decide (maxBufferedTuples ≤ batch.length ∨
    maxBufferedBytes ≤ (batch.map re.dataSize).sum)

/-- The rows a run of the insert loop has stored when it returns. -/
def storedRows {α : Type} (m : Exec δ α) : Option (List (List (Option δ))) :=
  (returns m []).map fun p => (facts p.2).visible

/-! ### The parts of a turn -/

section
variable {re : RowExecutor δ} {h : List (Event δ)} {tgt : CopyTarget}

theorem toOption_orRaise {α : Type} (o : Option α) : (orRaise o).toOption = o := by
  cases o <;> rfl

/-- A call of the kind that does not raise. -/
theorem returns_call {e : Event δ} (he : re.executor.call h e = .ok ()) :
    returns (call re.executor.call e) h = some ((), h ++ [e]) := by
  unfold returns call
  rw [he]

/-- A call that raises when a test on its row fails. -/
theorem call_sim {e : Event δ} {c : Bool}
    (he : re.executor.call h e = raiseIf (c = false) rowError) :
    Sim (call re.executor.call e) h (passes c) fun _ t _ => t = h ++ [e] := by
  unfold Sim returns call
  rw [he]
  cases c <;> simp [raiseIf, passes]

/-- Such a call, made only if a condition holds. -/
theorem onlyIf_sim {e : Event δ} {b c : Bool}
    (he : re.executor.call h e = raiseIf (c = false) rowError)
    (hfacts : facts (h ++ [e]) = facts h) :
    Sim (onlyIf b (call re.executor.call e)) h (passes (!b || c))
      fun _ t _ => facts t = facts h := by
  unfold onlyIf
  cases b with
  | false => exact Sim.pure rfl
  | true =>
    refine Sim.mono (call_sim he) ?_
    rintro _ t _ rfl
    exact hfacts

variable {conv : PgchConvert γ κ δ} {states : List κ}

/-- The index entries there are when the indices cover `content`. -/
def indexOf (tgt : CopyTarget) (content : List (List (Option δ))) : List (List (Option δ)) :=
  if 0 < tgt.resultRelInfo.numIndices then content else []

/-- Index entries and triggers of a row, once the rows `content` have theirs. -/
theorem afterInsert_sim {slot : TupleTableSlot δ} {content visible : List (List (Option δ))}
    {turns : ℕ} (hf : facts h = ⟨visible, indexOf tgt content, turns⟩) :
    Sim (afterInsert re.executor tgt.resultRelInfo slot) h
      ((targetStore re conv tgt states).take content slot.values)
      fun _ t values => values = slot.values ∧
        facts t = ⟨visible, indexOf tgt (content ++ [values]), turns⟩ := by
  unfold afterInsert onlyIf Batch.Store.take targetStore
  unfold indexOf at hf ⊢
  have hfire : ∀ t, returns (call re.executor.call
      (.execARInsertTriggers tgt.resultRelInfo slot)) t = some ((), t ++
        [.execARInsertTriggers tgt.resultRelInfo slot]) := fun t => returns_call rfl
  by_cases hn : 0 < tgt.resultRelInfo.numIndices
  · simp only [if_pos hn] at hf ⊢
    have hidx : Sim (call re.executor.call (.execInsertIndexTuples tgt.resultRelInfo slot)) h
        (passes (re.index content slot.values))
        fun _ t _ => t = h ++ [.execInsertIndexTuples tgt.resultRelInfo slot] := by
      refine call_sim ?_
      show raiseIf (re.index (facts h).indexed slot.values = false) rowError = _
      rw [hf]
    have hsplit : (if re.index content slot.values then some slot.values else none) =
        (passes (re.index content slot.values)).bind fun _ => some slot.values := by
      unfold passes
      split <;> rfl
    rw [hsplit]
    refine Sim.bind hidx ?_
    rintro _ t _ rfl
    refine Sim.silent (f := fun _ => pure ()) (hfire _) (Sim.pure ⟨rfl, ?_⟩)
    rw [facts_other rfl rfl rfl, facts_append, hf]
    simp [Event.visibleRows, Event.indexedRows, Event.turnsBegun]
  · simp only [if_neg hn] at hf ⊢
    refine Sim.silent (m := pure ()) rfl ?_
    refine Sim.silent (f := fun _ => pure ()) (hfire h) (Sim.pure ⟨rfl, ?_⟩)
    rw [facts_other rfl rfl rfl, hf]

/-- The buffer holds `batch`. -/
structure Holds (re : RowExecutor δ) (tgt : CopyTarget) (ins : NativeInsert δ)
    (batch : List (List (Option δ))) : Prop where
  filled : ins.filled.map (·.values) = batch
  nused : ins.nused = batch.length
  bytes : ins.bytes = (batch.map re.dataSize).sum
  buffered : ins.buffered = true
  target : ins.target = tgt.resultRelInfo

/-- A flush passes the batch on. -/
theorem flushBuffer_sim {ins : NativeInsert δ} {content batch : List (List (Option δ))}
    {turns : ℕ} (hf : facts h = ⟨content, indexOf tgt content, turns⟩)
    (hb : Holds re tgt ins batch) :
    Sim (flushBuffer re.executor ins) h ((targetStore re conv tgt states).flush content batch)
      fun ins' t content' => Holds re tgt ins' [] ∧
        facts t = ⟨content', indexOf tgt content', turns⟩ := by
  unfold flushBuffer
  by_cases hn : ins.nused = 0
  · obtain rfl : batch = [] := List.length_eq_zero_iff.mp (hb.nused ▸ hn)
    rw [if_pos hn]
    exact Sim.pure ⟨hb, hf⟩
  · rw [if_neg hn]
    refine Sim.silent (returns_call rfl) ?_
    have hstored : facts (h ++ [.tableMultiInsert ins.target ins.filled]) =
        ⟨content ++ batch, indexOf tgt content, turns⟩ := by
      rw [facts_append, hf]
      simp [Event.visibleRows, Event.indexedRows, Event.turnsBegun, hb.filled]
    have hpass : Sim (forM ins.filled (afterInsert re.executor ins.target))
        (h ++ [.tableMultiInsert ins.target ins.filled])
        ((targetStore re conv tgt states).flush content batch)
        fun _ t content' => facts t = ⟨content ++ batch, indexOf tgt content', turns⟩ := by
      rw [hb.target]
      unfold Batch.Store.flush
      rw [← hb.filled, List.foldlM_map, hb.filled]
      refine Sim.forM (fun t c => facts t = ⟨content ++ batch, indexOf tgt c, turns⟩) ?_ ?_
      · intro t c slot ht
        refine Sim.map (afterInsert_sim ht) ?_
        rintro _ u values ⟨-, hu⟩
        exact hu
      · rw [← hb.target]; exact hstored
    -- what passes is the content with the batch behind it
    have hsame := hpass.value
    rw [show (targetStore re conv tgt states).flush content batch =
      ((targetStore re conv tgt states).flush content batch).bind some by simp]
    refine Sim.bind hsame ?_
    rintro _ t content' ⟨ht, hsome⟩
    refine Sim.pure ⟨⟨rfl, rfl, rfl, hb.buffered, hb.target⟩, ?_⟩
    rw [ht, (targetStore re conv tgt states).flush_eq_some hsome]

/-- A tuple into the buffer is a record into the batch. -/
theorem bufferStore_sim {ins : NativeInsert δ} {slot : TupleTableSlot δ}
    {p : List (List (Option δ)) × List (List (Option δ))} {turns : ℕ}
    (hf : facts h = ⟨p.1, indexOf tgt p.1, turns⟩) (hb : Holds re tgt ins p.2) :
    Sim (bufferStore re.executor ins slot) h
      ((targetStore re conv tgt states).store p slot.values)
      fun ins' t p' => Holds re tgt ins' p'.2 ∧ facts t = ⟨p'.1, indexOf tgt p'.1, turns⟩ := by
  have hpush : Holds re tgt (ins.push (re.dataSize slot.values) slot) (p.2 ++ [slot.values]) := by
    refine ⟨?_, ?_, ?_, hb.buffered, hb.target⟩
    · rw [filled_push, List.map_append, hb.filled]
      rfl
    · show ins.nused + 1 = _
      rw [hb.nused, List.length_append]
      rfl
    · show ins.bytes + re.dataSize slot.values = _
      rw [hb.bytes]
      simp
  unfold bufferStore Batch.Store.store
  -- the two tests for a full buffer are the same
  have hfull : (targetStore re conv tgt states).full (p.2 ++ [slot.values]) = true ↔
      maxBufferedTuples ≤ (ins.push (re.dataSize slot.values) slot).nused ∨
        maxBufferedBytes ≤ (ins.push (re.dataSize slot.values) slot).bytes := by
    rw [hpush.nused, hpush.bytes]
    exact decide_eq_true_iff
  show Sim (if maxBufferedTuples ≤ (ins.push (re.dataSize slot.values) slot).nused ∨
    maxBufferedBytes ≤ (ins.push (re.dataSize slot.values) slot).bytes then
      flushBuffer re.executor (ins.push (re.dataSize slot.values) slot)
    else pure (ins.push (re.dataSize slot.values) slot)) h _ _
  by_cases hc : maxBufferedTuples ≤ (ins.push (re.dataSize slot.values) slot).nused ∨
      maxBufferedBytes ≤ (ins.push (re.dataSize slot.values) slot).bytes
  · rw [if_pos hc, if_pos (hfull.mpr hc)]
    exact Sim.map (flushBuffer_sim hf hpush) fun _ _ _ hr => hr
  · rw [if_neg hc, if_neg fun h' => hc (hfull.mp h')]
    exact Sim.pure ⟨hpush, hf⟩

/-- A tuple past the buffer is a record straight into the store. -/
theorem insertRow_sim {slot : TupleTableSlot δ} {content : List (List (Option δ))} {turns : ℕ}
    (hfdw : tgt.resultRelInfo.fdwRoutine = none)
    (hf : facts h = ⟨content, indexOf tgt content, turns⟩) :
    Sim (insertRow re.executor tgt.resultRelInfo slot) h
      ((targetStore re conv tgt states).take content slot.values)
      fun stored t values => stored = true ∧
        facts t = ⟨content ++ [values], indexOf tgt (content ++ [values]), turns⟩ := by
  unfold insertRow
  rw [hfdw, if_neg (by simp)]
  refine Sim.silent (returns_call rfl) ?_
  have hstored : facts (h ++ [.tableTupleInsert tgt.resultRelInfo slot]) =
      ⟨content ++ [slot.values], indexOf tgt content, turns⟩ := by
    rw [facts_append, hf]
    simp [Event.visibleRows, Event.indexedRows, Event.turnsBegun]
  rw [show (targetStore re conv tgt states).take content slot.values =
    ((targetStore re conv tgt states).take content slot.values).bind some by simp]
  refine Sim.bind (afterInsert_sim hstored) ?_
  rintro _ t values ⟨rfl, ht⟩
  exact Sim.pure ⟨rfl, ht⟩

/-! ### A whole turn -/

/-- The defaults see what is visible at the time, and change nothing of it. -/
theorem fillDefaults_sim {k : ℕ} {row : ℕ} {defaults : List ℕ} {values : List (Option δ)}
    (hturns : (facts h).turns = k + 1) :
    Sim (fillDefaults re.executor row defaults values) h
      (defaultRow re k (facts h).visible defaults values)
      fun values' t v => values' = v ∧ facts t = facts h := by
  unfold fillDefaults defaultRow
  refine Sim.foldlM (fun values t v => values = v ∧ facts t = facts h) ?_ ⟨rfl, rfl⟩
  rintro values t _ att ⟨rfl, ht⟩
  have hval : (re.executor.evalDefault t att).toOption = re.default k (facts h).visible att := by
    show (orRaise (re.default ((facts t).turns - 1) (facts t).visible att)).toOption = _
    rw [toOption_orRaise, ht, hturns]
    rfl
  have hask : Sim (ask (fun h => re.executor.evalDefault h att)
      (fun _ => .execEvalDefault row att)) t (re.default k (facts h).visible att)
      fun v u v' => v = v' ∧ u = t ++ [.execEvalDefault row att] := hval ▸ Sim.ask
  rw [Option.map_eq_bind]
  refine Sim.bind hask ?_
  rintro v u _ ⟨rfl, rfl⟩
  exact Sim.pure ⟨rfl, by rw [facts_other rfl rfl rfl, ht]⟩

/-- The checks are functions of the row. -/
theorem checkRow_sim {slot : TupleTableSlot δ} (hpart : tgt.partitioned = false)
    (hfdw : tgt.resultRelInfo.fdwRoutine = none) :
    Sim (checkRow re.executor tgt false tgt.resultRelInfo slot) h
      (checkedRow re tgt.resultRelInfo slot.values)
      fun slot' t values => slot'.values = values ∧ facts t = facts h := by
  have hgen : Sim (computeGenerated re.executor tgt.resultRelInfo slot) h
      (generatedRow re tgt.resultRelInfo slot.values)
      fun slot' t values => slot'.values = values ∧ facts t = facts h := by
    unfold computeGenerated generatedRow
    by_cases hg : tgt.resultRelInfo.hasGeneratedStored = true
    · rw [if_pos hg, if_pos hg]
      have hval : (re.executor.computeStoredGenerated h tgt.resultRelInfo slot).toOption =
          re.generated slot.values := toOption_orRaise (re.generated slot.values)
      have hask : Sim (ask (fun h => re.executor.computeStoredGenerated h tgt.resultRelInfo slot)
          (fun values => .execComputeStoredGenerated tgt.resultRelInfo slot values)) h
          (re.generated slot.values) fun values t values' => values = values' ∧
            t = h ++ [.execComputeStoredGenerated tgt.resultRelInfo slot values] := hval ▸ Sim.ask
      rw [show re.generated slot.values = (re.generated slot.values).bind some by simp]
      refine Sim.bind hask ?_
      rintro values t _ ⟨rfl, rfl⟩
      exact Sim.pure ⟨rfl, facts_other rfl rfl rfl⟩
    · rw [if_neg hg, if_neg hg]
      exact Sim.pure ⟨rfl, rfl⟩
  unfold checkRow checkedRow
  refine Sim.bind hgen ?_
  rintro slot' t values ⟨rfl, ht⟩
  rw [hfdw, hpart, Bool.not_false, Bool.true_or, Bool.and_true]
  refine Sim.bind (onlyIf_sim rfl (facts_other rfl rfl rfl)) ?_
  intro _ u _ hu
  refine Sim.bind (onlyIf_sim (c := re.partitionCheck slot'.values) rfl
    (facts_other rfl rfl rfl)) ?_
  intro _ v _ hv
  exact Sim.pure ⟨rfl, hv.trans (hu.trans ht)⟩

/-- The loop's state in a copy with no partitions and no triggers. -/
structure Plain (tgt : CopyTarget) (st : LoopState δ) : Prop where
  partitioned : tgt.partitioned = false
  fdwRoutine : tgt.resultRelInfo.fdwRoutine = none
  beforeRow : st.beforeRow = false
  insteadRow : st.insteadRow = false

/-- The state after the head of a turn. -/
def LoopState.afterHead (st : LoopState δ) : LoopState δ :=
  if st.ins.buffered then { st with ins := bufferSlot st.ins } else st

theorem returns_turnHead (re : RowExecutor δ) (h : List (Event δ)) (st : LoopState δ) (k : ℕ) :
    ∃ t, returns (turnHead re.executor st k) h = some (st.afterHead, t) ∧
      facts t = { facts h with turns := (facts h).turns + 1 } := by
  unfold turnHead LoopState.afterHead
  have hint : facts (h ++ [.checkForInterrupts k]) =
      { facts h with turns := (facts h).turns + 1 } := by
    rw [facts_append]
    simp [Event.visibleRows, Event.indexedRows, Event.turnsBegun]
  rw [returns_bind, returns_call rfl, Option.bind_some]
  by_cases hb : st.ins.buffered = true
  · rw [if_pos hb, if_pos hb]
    exact ⟨_, rfl, by rw [facts_other rfl rfl rfl, hint]⟩
  · rw [if_neg hb, if_neg hb]
    exact ⟨_, rfl, hint⟩

theorem Plain.afterHead {st : LoopState δ} (hp : Plain tgt st) : Plain tgt st.afterHead := by
  unfold LoopState.afterHead
  split
  · exact ⟨hp.partitioned, hp.fdwRoutine, hp.beforeRow, hp.insteadRow⟩
  · exact hp

/-- A turn forms the row's tuple, whose defaults see what is visible then, and places it. -/
theorem copyRow_sim {σ : Type} {st : LoopState δ} {k : ℕ} {row : List γ}
    {place : List (Option δ) → Option σ} {S : LoopState δ → List (Event δ) → σ → Prop}
    (hp : Plain tgt st) (hturns : (facts h).turns = k)
    (hplace : ∀ slot t, facts t = { facts h with turns := k + 1 } →
      Sim (placeRow re.executor st.afterHead tgt.resultRelInfo slot) t (place slot.values) S) :
    Sim (copyRow re.executor conv tgt states st (row, k)) h
      ((formRow re conv tgt states k (facts h).visible row).bind place) S := by
  have hp' := hp.afterHead
  obtain ⟨t, ht, hfacts⟩ := returns_turnHead re h st k
  rw [hturns] at hfacts
  unfold copyRow formRow
  refine Sim.silent ht ?_
  simp only [Option.bind_eq_bind, Option.bind_assoc]
  refine Sim.bind Sim.lift ?_
  rintro values t' _ ⟨rfl, ht'⟩
  rw [ht']
  -- the defaults see the rows stored when the turn began
  have hdef : Sim (fillDefaults re.executor k tgt.defaults values) t
      (defaultRow re k (facts t).visible tgt.defaults values)
      fun values' u v => values' = v ∧ facts u = facts t := fillDefaults_sim (by rw [hfacts])
  rw [show (facts t).visible = (facts h).visible by rw [hfacts]] at hdef
  refine Sim.bind hdef ?_
  rintro values u _ ⟨rfl, hu⟩
  have hroute : returns (routeRow re.executor tgt st.afterHead
      { values, tableOid := tgt.resultRelInfo.relid, row := k }) u =
      some ({ rri := tgt.resultRelInfo
              slot := { values, tableOid := tgt.resultRelInfo.relid, row := k }
              st := st.afterHead }, u) := by
    unfold routeRow
    rw [hp.partitioned]
    rfl
  refine Sim.silent hroute ?_
  -- no trigger has the tuple, so the checks are next
  unfold storeRow fireBeforeRow
  refine Sim.silent returns_note ?_
  rw [hp'.beforeRow]
  refine Sim.silent (m := pure _) rfl ?_
  dsimp only
  rw [hp'.insteadRow]
  have hread : facts (u ++ [.flagsRead tgt.resultRelInfo false false]) = facts u :=
    facts_other rfl rfl rfl
  refine Sim.bind (checkRow_sim hp.partitioned hp.fdwRoutine) ?_
  rintro slot v _ ⟨rfl, hv⟩
  refine hplace slot v ?_
  rw [hv, hread, hu, hfacts]

/-! ### The two paths -/

/-- The batched store in the middle of a buffered copy. -/
structure BufferedAt (re : RowExecutor δ) (tgt : CopyTarget) (k : ℕ) (st : LoopState δ)
    (h : List (Event δ)) (p : List (List (Option δ)) × List (List (Option δ))) : Prop where
  plain : Plain tgt st
  holds : Holds re tgt st.ins p.2
  facts_eq : facts h = ⟨p.1, indexOf tgt p.1, k⟩
  length_eq : k = p.1.length + p.2.length

/-- The store in the middle of a row-at-a-time copy. -/
structure DirectAt (tgt : CopyTarget) (k : ℕ) (st : LoopState δ) (h : List (Event δ))
    (content : List (List (Option δ))) : Prop where
  plain : Plain tgt st
  buffered : st.ins.buffered = false
  nused : st.ins.nused = 0
  facts_eq : facts h = ⟨content, indexOf tgt content, k⟩
  length_eq : k = content.length

theorem Holds.bufferSlot {ins : NativeInsert δ} {batch : List (List (Option δ))}
    (hb : Holds re tgt ins batch) : Holds re tgt (bufferSlot ins) batch := by
  have hsame : (PgChdb.bufferSlot ins).nused = ins.nused ∧
      (PgChdb.bufferSlot ins).bytes = ins.bytes ∧
      (PgChdb.bufferSlot ins).buffered = ins.buffered ∧
      (PgChdb.bufferSlot ins).target = ins.target := by
    unfold PgChdb.bufferSlot
    split <;> exact ⟨rfl, rfl, rfl, rfl⟩
  refine ⟨?_, ?_, ?_, ?_, ?_⟩
  · rw [filled_bufferSlot]; exact hb.filled
  · rw [hsame.1]; exact hb.nused
  · rw [hsame.2.1]; exact hb.bytes
  · rw [hsame.2.2.1]; exact hb.buffered
  · rw [hsame.2.2.2]; exact hb.target

/-- A buffered turn is a step of the batched run. -/
theorem copyRow_buffered_sim {k : ℕ} {st : LoopState δ} {row : List γ}
    {p : List (List (Option δ)) × List (List (Option δ))} (hb : BufferedAt re tgt k st h p) :
    Sim (copyRow re.executor conv tgt states st (row, k)) h
      ((targetStore re conv tgt states).batchStep p row) (BufferedAt re tgt (k + 1)) := by
  have hhead : st.afterHead = { st with ins := bufferSlot st.ins } := by
    unfold LoopState.afterHead
    rw [if_pos hb.holds.buffered]
  unfold Batch.Store.batchStep
  rw [← hb.length_eq, show p.1 = (facts h).visible by rw [hb.facts_eq]]
  refine copyRow_sim hb.plain (by rw [hb.facts_eq]) ?_
  intro slot t ht
  rw [hb.facts_eq] at ht
  rw [hhead]
  unfold placeRow
  rw [if_pos (show (bufferSlot st.ins).buffered = true from hb.holds.bufferSlot.buffered)]
  rw [show (targetStore re conv tgt states).store p slot.values =
    ((targetStore re conv tgt states).store p slot.values).bind some by simp]
  refine Sim.bind (bufferStore_sim ht hb.holds.bufferSlot).value ?_
  rintro ins u p' ⟨⟨hholds, hfacts⟩, hsome⟩
  refine Sim.pure ⟨⟨hb.plain.partitioned, hb.plain.fdwRoutine, hb.plain.beforeRow,
    hb.plain.insteadRow⟩, hholds, hfacts, ?_⟩
  rw [hb.length_eq, (targetStore re conv tgt states).store_length hsome]

/-- A row-at-a-time turn is a step of the direct run. -/
theorem copyRow_direct_sim {k : ℕ} {st : LoopState δ} {row : List γ}
    {content : List (List (Option δ))} (hd : DirectAt tgt k st h content) :
    Sim (copyRow re.executor conv tgt states st (row, k)) h
      ((targetStore re conv tgt states).directStep content row) (DirectAt tgt (k + 1)) := by
  have hhead : st.afterHead = st := by
    unfold LoopState.afterHead
    rw [hd.buffered]
    rfl
  unfold Batch.Store.directStep Batch.Store.place
  rw [Option.map_bind, ← hd.length_eq,
    show (targetStore re conv tgt states).build k content row =
      formRow re conv tgt states k (facts h).visible row by rw [hd.facts_eq]; rfl]
  refine copyRow_sim hd.plain (by rw [hd.facts_eq]) ?_
  intro slot t ht
  rw [hd.facts_eq] at ht
  rw [hhead]
  unfold placeRow
  rw [hd.buffered, if_neg Bool.false_ne_true, Function.comp_apply, Option.map_eq_bind]
  refine Sim.bind (insertRow_sim hd.plain.fdwRoutine ht) ?_
  rintro _ u values ⟨rfl, hu⟩
  refine Sim.pure ⟨⟨hd.plain.partitioned, hd.plain.fdwRoutine, hd.plain.beforeRow,
    hd.plain.insteadRow⟩, hd.buffered, hd.nused, hu, ?_⟩
  rw [List.length_append, ← hd.length_eq]
  rfl

/-- The conditions under which the code buffers leave the loop's flags unset. -/
theorem loopState_plain {b : Bool} (hbuf : tgt.buffered = true) :
    Plain tgt (tgt.loopState (δ := δ) b) := by
  unfold CopyTarget.buffered at hbuf
  simp only [Bool.and_eq_true, Bool.not_eq_true', Option.isNone_iff_eq_none] at hbuf
  exact ⟨hbuf.1.1.1, hbuf.1.1.2, hbuf.1.2, hbuf.2⟩

theorem indexOf_nil : indexOf tgt ([] : List (List (Option δ))) = [] := by
  unfold indexOf
  split <;> rfl

/-- **The buffered path is the batched run.** -/
theorem copyInto_buffered_stored {rd : PgchReader γ} (hbuf : tgt.buffered = true)
    (herr : rd.error = none) :
    storedRows (copyInto re.executor conv tgt states rd true) =
      (targetStore re conv tgt states).batchRun rd.rows := by
  have hstart : BufferedAt re tgt 0 (tgt.loopState true) [] ([], []) :=
    ⟨loopState_plain hbuf, ⟨rfl, rfl, rfl, rfl, rfl⟩, by rw [indexOf_nil]; rfl, rfl⟩
  have hloop : Sim (rd.rows.zipIdx.foldlM (copyRow re.executor conv tgt states)
      (tgt.loopState true)) [] (rd.rows.foldlM (targetStore re conv tgt states).batchStep ([], []))
      (BufferedAt re tgt (0 + rd.rows.length)) :=
    Sim.foldlM_zipIdx (BufferedAt re tgt) (fun _ _ _ _ _ hb => copyRow_buffered_sim hb) hstart
  have hall : Sim (copyInto re.executor conv tgt states rd true) []
      ((targetStore re conv tgt states).batchRun rd.rows)
      fun _ t content => (facts t).visible = content := by
    unfold copyInto copyRows Batch.Store.batchRun
    rw [bind_assoc]
    refine Sim.bind hloop ?_
    intro st t p hb
    obtain ⟨u, hu, hfacts⟩ := returns_turnHead re t st rd.rows.length
    refine Sim.silent hu ?_
    rw [herr]
    refine Sim.silent (m := lift (raiseSome none reportReaderError)) rfl ?_
    rw [show (targetStore re conv tgt states).flush p.1 p.2 =
      ((targetStore re conv tgt states).flush p.1 p.2).bind some by simp]
    have hhead : st.afterHead.ins = bufferSlot st.ins := by
      unfold LoopState.afterHead
      rw [if_pos hb.holds.buffered]
    have hlast : facts u = ⟨p.1, indexOf tgt p.1, 0 + rd.rows.length + 1⟩ := by
      rw [hfacts, hb.facts_eq]
    rw [hhead]
    refine Sim.bind (flushBuffer_sim hlast hb.holds.bufferSlot) ?_
    rintro ins v content ⟨-, hv⟩
    exact Sim.pure (by rw [hv])
  unfold storedRows
  rw [hall.map_eq (g := id) fun _ t content hr => hr, Option.map_id]
  rfl

/-- **The row-at-a-time path is the direct run.** -/
theorem copyInto_direct_stored {rd : PgchReader γ} (hbuf : tgt.buffered = true)
    (herr : rd.error = none) :
    storedRows (copyInto re.executor conv tgt states rd false) =
      (targetStore re conv tgt states).directRun rd.rows := by
  have hstart : DirectAt tgt 0 (tgt.loopState false) [] ([] : List (List (Option δ))) :=
    ⟨loopState_plain hbuf, rfl, rfl, by rw [indexOf_nil]; rfl, rfl⟩
  have hloop : Sim (rd.rows.zipIdx.foldlM (copyRow re.executor conv tgt states)
      (tgt.loopState false)) [] (rd.rows.foldlM (targetStore re conv tgt states).directStep [])
      (DirectAt tgt (0 + rd.rows.length)) :=
    Sim.foldlM_zipIdx (DirectAt tgt) (fun _ _ _ _ _ hd => copyRow_direct_sim hd) hstart
  have hall : Sim (copyInto re.executor conv tgt states rd false) []
      ((targetStore re conv tgt states).directRun rd.rows)
      fun _ t content => (facts t).visible = content := by
    unfold copyInto copyRows Batch.Store.directRun
    rw [bind_assoc, show (rd.rows.foldlM (targetStore re conv tgt states).directStep []) =
      (rd.rows.foldlM (targetStore re conv tgt states).directStep []).bind some by simp]
    refine Sim.bind hloop ?_
    intro st t content hd
    obtain ⟨u, hu, hfacts⟩ := returns_turnHead re t st rd.rows.length
    refine Sim.silent hu ?_
    rw [herr]
    refine Sim.silent (m := lift (raiseSome none reportReaderError)) rfl ?_
    have hhead : st.afterHead = st := by
      unfold LoopState.afterHead
      rw [hd.buffered]
      rfl
    -- nothing is in the buffer, so the last flush does nothing
    have hflush : returns (flushBuffer re.executor st.afterHead.ins) u =
        some (st.afterHead.ins, u) := by
      unfold flushBuffer
      rw [hhead, if_pos hd.nused]
      rfl
    refine Sim.silent hflush (Sim.pure ?_)
    rw [hfacts, hd.facts_eq]
  unfold storedRows
  rw [hall.map_eq (g := id) fun _ t content hr => hr, Option.map_id]
  rfl

end

/-! ### When the buffer is invisible -/

/-- A reader of the given rows. -/
def rowsReader (columns : ℕ) (rows : List (List γ)) : PgchReader γ where
  initError := none
  columns := columns
  rows := rows
  error := none

/-- The target is blind to its buffer: whatever rows have been stored one at a time, the
    next row becomes the same tuple, and is accepted alike, when its defaults see all of
    them and when they see only those that buffering would have flushed by then. -/
def BlindToBuffer (re : RowExecutor δ) (conv : PgchConvert γ κ δ) (tgt : CopyTarget)
    (states : List κ) : Prop :=
  (targetStore re conv tgt states).Blind

/-- A relation whose default is `f` of the row number and the visible rows. -/
def defaultBy (f : ℕ → List (List (Option ℕ)) → ℕ) : RowExecutor ℕ where
  default k seen _ := some (some (f k seen))
  generated values := some values
  constraints _ := true
  partitionCheck _ := true
  index _ _ := true
  dataSize values := 8 * values.length

/-- A table of two columns, the second left to its default. -/
def countedTarget : CopyTarget where
  resultRelInfo := plainRelation 1
  partitioned := false
  attrs := [intAttribute (lit "n"), intAttribute (lit "seen")]
  hasDefault i := i == 1
  attnums := [1]
  transition := false

end PgChdb
