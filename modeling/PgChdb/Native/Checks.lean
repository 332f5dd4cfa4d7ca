import PgChdb.Native.Insert

namespace PgChdb

open CText Fallible Effects

/-!
# Checks before storage in `chdb_copy_receive`

Every tuple that reaches local heap storage has been checked, in the form it is stored in
and against the relation it is stored in, after the last trigger had it.  The trigger flags
the loop caches are those of the relation the row is routed to whenever they are read.

* `Checked` — what the events about one row must have been before it is stored;
* `StoresChecked`, `FlagsDescribed` — the two properties of a list of events;
* `During`, `LoopInv` — the invariants within a turn and at the head of one;
* `chdbCopyReceive_checked` — however the function ends, both properties hold.
-/

variable {γ κ δ : Type}

/-! ### Checked rows -/

/-- The row an event routes, changes or checks. -/
def Event.rowOf : Event δ → Option ℕ
  | .execFindPartition _ s | .execBRInsertTriggers _ s _ | .execIRInsertTriggers _ s
  | .execComputeStoredGenerated _ s _ | .execConstraints _ s | .execPartitionCheck _ s =>
    some s.row
  | _ => none

/-- The events that do so to the row at position `i`. -/
def Event.about (i : ℕ) (e : Event δ) : Bool := e.rowOf == some i

/-- The calls in which a trigger has a tuple before it is stored. -/
def Event.isTrigger : Event δ → Bool
  | .execBRInsertTriggers _ _ _ | .execIRInsertTriggers _ _ => true
  | _ => false

/-- What a call passes to local heap storage, and of which relation. -/
def Event.toHeap : Event δ → List (ResultRelInfo × TupleTableSlot δ)
  | .tableMultiInsert rri slots => slots.map fun s => (rri, s)
  | .tableTupleInsert rri s => [(rri, s)]
  | _ => []

/-- The checks that turn `slot₀` into `slot`: generated columns, then constraints, then the
    partition constraint when it is checked again. -/
def checkEvents (rri : ResultRelInfo) (slot₀ slot : TupleTableSlot δ) (recheck : Bool) :
    List (Event δ) :=
  (if rri.hasGeneratedStored then [.execComputeStoredGenerated rri slot₀ slot.values] else []) ++
  (if rri.constr.isSome then [.execConstraints rri slot] else []) ++
  (if recheck then [.execPartitionCheck rri slot] else [])

/-- `slot` may be stored in `rri` after the events `evs` about its row: they end with the
    checks of `slot` itself, and a partition's constraint is among them unless routing
    found the partition for this tuple and no trigger had it since. -/
def Checked (ex : Executor δ) (rri : ResultRelInfo) (slot : TupleTableSlot δ)
    (evs : List (Event δ)) : Prop :=
  ∃ before slot₀ recheck, evs = before ++ checkEvents rri slot₀ slot recheck ∧
    (rri.relispartition = true → recheck = true ∨
      (∀ e ∈ before, e.isTrigger = false) ∧
        ∃ s, .execFindPartition rri s ∈ before ∧ slot₀ = childSlot ex rri s)

/-- Every tuple passed to local heap storage was checked by then. -/
def StoresChecked (ex : Executor δ) (trace : List (Event δ)) : Prop :=
  ∀ pre e post, trace = pre ++ e :: post → ∀ p ∈ e.toHeap,
    Checked ex p.1 p.2 (pre.filter (Event.about p.2.row))

/-- The cached trigger flags are the routed relation's whenever they are read. -/
def FlagsDescribed (trace : List (Event δ)) : Prop :=
  ∀ rri beforeRow insteadRow, .flagsRead rri beforeRow insteadRow ∈ trace →
    beforeRow = rri.beforeRow ∧ insteadRow = rri.insteadRow

/-- Both properties. -/
def Good (ex : Executor δ) (trace : List (Event δ)) : Prop :=
  StoresChecked ex trace ∧ FlagsDescribed trace

section
variable {ex : Executor δ} {h : List (Event δ)}

theorem Good.nil : Good ex ([] : List (Event δ)) := by
  refine ⟨fun pre e post heq => ?_, fun _ _ _ hmem => absurd hmem List.not_mem_nil⟩
  exact absurd heq (by simp)

/-- One more event keeps them when what it stores is checked and what it reads is right. -/
theorem Good.append {e : Event δ} (hh : Good ex h)
    (hstore : ∀ p ∈ e.toHeap, Checked ex p.1 p.2 (h.filter (Event.about p.2.row)))
    (hflags : ∀ rri b i, e = .flagsRead rri b i → b = rri.beforeRow ∧ i = rri.insteadRow) :
    Good ex (h ++ [e]) := by
  refine ⟨fun pre e' post heq p hp => ?_, fun rri b i hmem => ?_⟩
  · rcases List.append_eq_append_iff.mp heq with ⟨as, hpre, has⟩ | ⟨bs, hbs, hpost⟩
    · -- the event is the new one, as nothing but it lies beyond `h`
      cases as with
      | nil =>
        simp only [List.nil_append, List.cons.injEq] at has
        rw [List.append_nil] at hpre
        rw [hpre]
        exact hstore p (has.1 ▸ hp)
      | cons a as => simp at has
    · cases bs with
      | nil =>
        simp only [List.nil_append, List.cons.injEq] at hpost
        rw [List.append_nil] at hbs
        rw [← hbs]
        exact hstore p (hpost.1 ▸ hp)
      | cons b bs =>
        rw [List.cons_append, List.cons.injEq] at hpost
        obtain ⟨rfl, -⟩ := hpost
        exact hh.1 pre e' bs hbs p hp
  · rcases List.mem_append.mp hmem with hl | hr
    · exact hh.2 rri b i hl
    · exact hflags rri b i (List.mem_singleton.mp hr).symm

end

/-! ### The invariant within a turn -/

/-- In the turn of row `k`, with the buffer `ins`, once `evs` is what has happened to the
    row: both properties hold, nothing has happened to later rows, and the rows in the
    buffer are earlier ones, checked against the target. -/
structure During (ex : Executor δ) (tgt : CopyTarget) (k : ℕ) (ins : NativeInsert δ)
    (evs : List (Event δ)) (h : List (Event δ)) : Prop where
  good : Good ex h
  current : h.filter (Event.about k) = evs
  fresh : ∀ i, k < i → h.filter (Event.about i) = []
  held : ∀ s ∈ ins.filled, s.row < k ∧
    Checked ex tgt.resultRelInfo s (h.filter (Event.about s.row))
  target : ins.target = tgt.resultRelInfo

/-- The events that neither are about a row, nor store one, nor read a flag. -/
def Event.isPlain : Event δ → Bool
  | .execFindPartition _ _ | .execBRInsertTriggers _ _ _ | .execIRInsertTriggers _ _
  | .execComputeStoredGenerated _ _ _ | .execConstraints _ _ | .execPartitionCheck _ _
  | .tableMultiInsert _ _ | .tableTupleInsert _ _ | .flagsRead _ _ _ => false
  | _ => true

section
variable {ex : Executor δ} {tgt : CopyTarget} {k : ℕ} {ins : NativeInsert δ}
  {evs h : List (Event δ)} {e : Event δ}

/-- An event about no row, storing only checked rows and reading only right flags. -/
theorem During.other (hd : During ex tgt k ins evs h) (hrow : e.rowOf = none)
    (hstore : ∀ p ∈ e.toHeap, Checked ex p.1 p.2 (h.filter (Event.about p.2.row)))
    (hflags : ∀ rri b i, e = .flagsRead rri b i → b = rri.beforeRow ∧ i = rri.insteadRow) :
    During ex tgt k ins evs (h ++ [e]) := by
  have hsame : ∀ i, (h ++ [e]).filter (Event.about i) = h.filter (Event.about i) := by
    intro i
    rw [List.filter_append]
    simp [Event.about, hrow]
  refine ⟨hd.good.append hstore hflags, ?_, fun i hi => ?_, fun s hs => ?_, hd.target⟩
  · rw [hsame]; exact hd.current
  · rw [hsame]; exact hd.fresh i hi
  · rw [hsame]; exact hd.held s hs

theorem Event.isPlain.spec {e : Event δ} (he : e.isPlain = true) : e.rowOf = none ∧
    e.toHeap = [] ∧ ∀ rri b i, e ≠ .flagsRead rri b i := by
  cases e <;> simp_all [Event.isPlain, Event.rowOf, Event.toHeap]

theorem Good.plain (hh : Good ex h) (he : e.isPlain = true) : Good ex (h ++ [e]) := by
  obtain ⟨-, hheap, hflags⟩ := Event.isPlain.spec he
  refine hh.append (fun p hp => ?_) fun rri b i heq => absurd heq (hflags rri b i)
  rw [hheap] at hp
  exact absurd hp List.not_mem_nil

/-- A plain event changes nothing. -/
theorem During.plain (hd : During ex tgt k ins evs h) (he : e.isPlain = true) :
    During ex tgt k ins evs (h ++ [e]) := by
  obtain ⟨hrow, hheap, hflags⟩ := Event.isPlain.spec he
  refine hd.other hrow (fun p hp => ?_) fun rri b i heq => absurd heq (hflags rri b i)
  rw [hheap] at hp
  exact absurd hp List.not_mem_nil

/-- An event about the current row. -/
theorem During.step (hd : During ex tgt k ins evs h) (hrow : e.rowOf = some k) :
    During ex tgt k ins (evs ++ [e]) (h ++ [e]) := by
  have hother : ∀ i, i ≠ k → (h ++ [e]).filter (Event.about i) = h.filter (Event.about i) := by
    intro i hi
    rw [List.filter_append]
    simp [Event.about, hrow, hi.symm]
  refine ⟨hd.good.append ?_ ?_, ?_, fun i hi => ?_, fun s hs => ?_, hd.target⟩
  · have hnil : e.toHeap = [] := by cases e <;> first | rfl | cases hrow
    rw [hnil]
    exact fun p hp => absurd hp List.not_mem_nil
  · rintro rri b i rfl
    cases hrow
  · rw [List.filter_append, hd.current]
    simp [Event.about, hrow]
  · rw [hother i hi.ne']; exact hd.fresh i hi
  · rw [hother s.row (hd.held s hs).1.ne]; exact hd.held s hs

/-- Only what the buffer holds and whose buffer it is matter. -/
theorem During.rebuffer {ins' : NativeInsert δ} (hd : During ex tgt k ins evs h)
    (hfilled : ins'.filled = ins.filled) (htarget : ins'.target = ins.target) :
    During ex tgt k ins' evs h where
  good := hd.good
  current := hd.current
  fresh := hd.fresh
  held := hfilled ▸ hd.held
  target := htarget.trans hd.target

/-- The turn of the next row begins where this one ends. -/
theorem During.next (hd : During ex tgt k ins evs h) : During ex tgt (k + 1) ins [] h where
  good := hd.good
  current := hd.fresh (k + 1) (Nat.lt_succ_self k)
  fresh i hi := hd.fresh i (Nat.lt_of_succ_lt hi)
  held s hs := ⟨Nat.lt_succ_of_lt (hd.held s hs).1, (hd.held s hs).2⟩
  target := hd.target

/-- A procedure that makes only plain calls keeps it. -/
theorem During.keep {α : Type} {m : Exec δ α} (hm : Only Event.isPlain m)
    (hd : During ex tgt k ins evs h) :
    wp m (fun _ => During ex tgt k ins evs) (Good ex) h :=
  wp_mono (hm.keeps (fun _ _ he hh => hh.plain he) hd) (fun _ _ ht => ht) fun _ ht => ht.good

/-! ### The parts of a turn -/

/-- A call about the row that is made under a condition. -/
theorem onlyIf_during {c : Prop} [Decidable c] (hd : During ex tgt k ins evs h)
    (hrow : e.rowOf = some k) :
    wp (onlyIf c (call ex.call e))
      (fun _ => During ex tgt k ins (evs ++ if c then [e] else [])) (Good ex) h := by
  refine wp_onlyIf (fun hc => ?_) (fun hc => ?_)
  · rw [if_pos hc]
    exact wp_call (hd.step hrow) (hd.step hrow).good
  · rw [if_neg hc, List.append_nil]
    exact hd

theorem computeGenerated_during {rri : ResultRelInfo} {slot : TupleTableSlot δ}
    (hd : During ex tgt k ins evs h) (hrow : slot.row = k) :
    wp (computeGenerated ex rri slot) (fun slot' t => slot'.row = k ∧
      During ex tgt k ins (evs ++ if rri.hasGeneratedStored then
        [.execComputeStoredGenerated rri slot slot'.values] else []) t) (Good ex) h := by
  unfold computeGenerated
  by_cases hg : rri.hasGeneratedStored = true
  · simp only [if_pos hg, wp_bind]
    refine wp_ask (fun values _ => ⟨hrow, hd.step ?_⟩) hd.good
    exact congrArg some hrow
  · simp only [if_neg hg, List.append_nil, wp_pure]
    exact ⟨hrow, hd⟩

/-- The checks of a turn, for a relation with local storage. -/
theorem checkRow_during {rri : ResultRelInfo} {slot : TupleTableSlot δ} {beforeRow : Bool}
    (hd : During ex tgt k ins evs h) (hrow : slot.row = k) :
    wp (checkRow ex tgt beforeRow rri slot) (fun slot' t => slot'.row = k ∧
      ∃ checks, During ex tgt k ins (evs ++ checks) t ∧ (rri.fdwRoutine = none →
        checks = checkEvents rri slot slot'
          (rri.relispartition && (!tgt.partitioned || beforeRow)))) (Good ex) h := by
  unfold checkRow
  rw [wp_bind]
  refine wp_mono (computeGenerated_during hd hrow) ?_ fun _ ht => ht
  intro slot' t ht
  obtain ⟨hrow', ht⟩ := ht
  rw [wp_bind]
  refine wp_mono (onlyIf_during ht (congrArg some hrow')) ?_ fun _ hu => hu
  intro _ u hu
  rw [wp_bind]
  refine wp_mono (onlyIf_during hu (congrArg some hrow')) ?_ fun _ hv => hv
  intro _ v hv
  rw [List.append_assoc, List.append_assoc] at hv
  refine ⟨hrow', _, hv, fun hfdw => ?_⟩
  simp [checkEvents, hfdw]

/-- One row into the routed relation. -/
theorem insertRow_during {rri : ResultRelInfo} {slot : TupleTableSlot δ}
    (hd : During ex tgt k ins evs h) (hrow : slot.row = k)
    (hchecked : rri.fdwRoutine = none → Checked ex rri slot evs) :
    wp (insertRow ex rri slot) (fun _ => During ex tgt k ins evs) (Good ex) h := by
  unfold insertRow
  by_cases hfdw : rri.fdwRoutine.isSome
  · -- a foreign table: none of the events passes a tuple to local storage
    rw [if_pos hfdw]
    refine During.keep (Only.bind (Only.ask fun _ => rfl) fun stored => ?_) hd
    cases stored with
    | none => exact Only.pure _
    | some values => exact Only.bind (Only.call rfl) fun _ => Only.pure _
  · rw [if_neg hfdw, wp_bind]
    have hnone : rri.fdwRoutine = none := Option.not_isSome_iff_eq_none.mp hfdw
    have hstored : During ex tgt k ins evs (h ++ [.tableTupleInsert rri slot]) := by
      refine hd.other rfl (fun p hp => ?_) (fun _ _ _ heq => by cases heq)
      obtain rfl := List.mem_singleton.mp hp
      rw [show (rri, slot).2.row = k from hrow, hd.current]
      exact hchecked hnone
    refine wp_call ?_ hstored.good
    exact hstored.keep (Only.bind (afterInsert_only rfl rfl) fun _ => Only.pure _)

/-- A flush stores what the buffer holds. -/
theorem flushBuffer_during (hd : During ex tgt k ins evs h) :
    wp (flushBuffer ex ins) (fun ins' t => During ex tgt k ins' evs t ∧
      ins'.buffered = ins.buffered) (Good ex) h := by
  unfold flushBuffer
  by_cases hn : ins.nused = 0
  · rw [if_pos hn]
    exact ⟨hd, rfl⟩
  · rw [if_neg hn, wp_bind]
    have hstored : During ex tgt k ins evs (h ++ [.tableMultiInsert ins.target ins.filled]) := by
      refine hd.other rfl (fun p hp => ?_) (fun _ _ _ heq => by cases heq)
      obtain ⟨s, hs, rfl⟩ := List.mem_map.mp hp
      rw [hd.target]
      exact (hd.held s hs).2
    refine wp_call ?_ hstored.good
    rw [wp_bind]
    refine wp_mono (hstored.keep (Only.forM (fun _ => afterInsert_only rfl rfl) _)) ?_
      fun _ ht => ht
    intro _ t ht
    refine ⟨⟨ht.good, ht.current, ht.fresh, ?_, ht.target⟩, rfl⟩
    rw [filled_emptied]
    exact fun s hs => absurd hs List.not_mem_nil

/-- A checked row into the buffer ends the turn. -/
theorem bufferStore_during {slot : TupleTableSlot δ} (hd : During ex tgt k ins evs h)
    (hrow : slot.row = k) (hchecked : Checked ex tgt.resultRelInfo slot evs) :
    wp (bufferStore ex ins slot) (fun ins' t => During ex tgt (k + 1) ins' [] t ∧
      ins'.buffered = ins.buffered) (Good ex) h := by
  have hpushed : During ex tgt (k + 1) (ins.push (ex.dataSize slot.values) slot) [] h := by
    have hnext := hd.next
    refine ⟨hnext.good, hnext.current, hnext.fresh, fun s hs => ?_, hd.target⟩
    rw [filled_push, List.mem_append, List.mem_singleton] at hs
    rcases hs with hs | rfl
    · exact hnext.held s hs
    · rw [hrow, hd.current]
      exact ⟨Nat.lt_succ_self k, hchecked⟩
  unfold bufferStore
  by_cases hfull : maxBufferedTuples ≤ (ins.push (ex.dataSize slot.values) slot).nused ∨
      maxBufferedBytes ≤ (ins.push (ex.dataSize slot.values) slot).bytes
  · rw [if_pos hfull]
    exact flushBuffer_during hpushed
  · rw [if_neg hfull]
    exact ⟨hpushed, rfl⟩

/-! ### A whole turn -/

/-- The loop's cached flags are those of the relation rows go to until the next routing. -/
def Cached (tgt : CopyTarget) (st : LoopState δ) : Prop :=
  ∀ rri, (if tgt.partitioned then st.routed = some rri else rri = tgt.resultRelInfo) →
    st.beforeRow = rri.beforeRow ∧ st.insteadRow = rri.insteadRow

/-- The invariant at the head of turn `k`. -/
structure LoopInv (ex : Executor δ) (tgt : CopyTarget) (k : ℕ) (st : LoopState δ)
    (h : List (Event δ)) : Prop where
  during : During ex tgt k st.ins [] h
  cached : Cached tgt st
  buffered : st.ins.buffered = true →
    tgt.partitioned = false ∧ tgt.resultRelInfo.fdwRoutine = none

variable {st : LoopState δ}

theorem turnHead_loopInv {j : ℕ} (hl : LoopInv ex tgt k st h) :
    wp (turnHead ex st j) (fun st' => LoopInv ex tgt k st') (Good ex) h := by
  unfold turnHead
  have hint := hl.during.plain (e := .checkForInterrupts j) rfl
  rw [wp_bind]
  refine wp_call ?_ hint.good
  by_cases hb : st.ins.buffered = true
  · rw [if_pos hb, wp_bind, wp_note]
    have hreq := hint.plain (e := .slotRequest st.ins.nused st.ins.allocated) rfl
    refine ⟨hreq.rebuffer (filled_bufferSlot st.ins) (bufferSlot_target st.ins), hl.cached,
      fun h' => ?_⟩
    exact hl.buffered (bufferSlot_buffered st.ins ▸ h')
  · rw [if_neg hb]
    exact ⟨hint, hl.cached, hl.buffered⟩

/-- Routing: the flags are refreshed, and what has happened to the row is that its
    partition was found, if the target is partitioned. -/
theorem routeRow_during {slot : TupleTableSlot δ} (hl : LoopInv ex tgt k st h)
    (hrow : slot.row = k) :
    wp (routeRow ex tgt st slot) (fun r t => r.slot.row = k ∧ r.st.ins = st.ins ∧
      Cached tgt r.st ∧ (r.st.beforeRow = r.rri.beforeRow ∧ r.st.insteadRow = r.rri.insteadRow) ∧
      ∃ evs, During ex tgt k st.ins evs t ∧ (∀ e ∈ evs, e.isTrigger = false) ∧
        (if tgt.partitioned then .execFindPartition r.rri slot ∈ evs ∧
          r.slot = childSlot ex r.rri slot else r.rri = tgt.resultRelInfo)) (Good ex) h := by
  unfold routeRow
  by_cases hp : tgt.partitioned = true
  · simp only [hp, if_true]
    rw [wp_bind]
    refine wp_ask (fun rri _ => ?_) hl.during.good
    have hfound := hl.during.step (e := .execFindPartition rri slot) (congrArg some hrow)
    -- whether or not the relation changed, the flags are now its flags
    have hflags : (st.routeTo rri).beforeRow = rri.beforeRow ∧
        (st.routeTo rri).insteadRow = rri.insteadRow := by
      unfold LoopState.routeTo
      by_cases hr : st.routed = some rri
      · rw [if_pos hr]
        refine hl.cached rri ?_
        rw [if_pos hp]
        exact hr
      · rw [if_neg hr]
        exact ⟨rfl, rfl⟩
    have hchild : (childSlot ex rri slot).row = k := (childSlot_row ex rri slot).trans hrow
    have hpost : ∀ t, During ex tgt k st.ins [.execFindPartition rri slot] t →
        (childSlot ex rri slot).row = k ∧ (st.routeTo rri).ins = st.ins ∧
        Cached tgt (st.routeTo rri) ∧ ((st.routeTo rri).beforeRow = rri.beforeRow ∧
          (st.routeTo rri).insteadRow = rri.insteadRow) ∧
        ∃ evs, During ex tgt k st.ins evs t ∧ (∀ e ∈ evs, e.isTrigger = false) ∧
          .execFindPartition rri slot ∈ evs ∧ childSlot ex rri slot = childSlot ex rri slot := by
      intro t ht
      refine ⟨hchild, routeTo_ins st rri, fun rri' hr => ?_, hflags, _, ht, ?_,
        List.mem_singleton_self _, rfl⟩
      · rw [if_pos hp, routeTo_routed, Option.some.injEq] at hr
        exact hr ▸ hflags
      · intro e he
        rw [List.mem_singleton.mp he]
        rfl
    rw [wp_bind]
    refine wp_onlyIf (fun _ => ?_) (fun _ => ?_)
    · rw [wp_bind, wp_note, wp_note]
      refine hpost _ (During.plain (hfound.other rfl ?_ ?_) rfl)
      · exact fun p hmem => absurd hmem List.not_mem_nil
      · rintro r b i heq
        cases heq
        exact hflags
    · exact hpost _ hfound
  · simp only [hp]
    have hflags : st.beforeRow = tgt.resultRelInfo.beforeRow ∧
        st.insteadRow = tgt.resultRelInfo.insteadRow := by
      refine hl.cached tgt.resultRelInfo ?_
      rw [if_neg hp]
    exact ⟨hrow, rfl, hl.cached, hflags, [], hl.during, by simp, rfl⟩

/-- What may happen to a routed row, up to the `BEFORE ROW` triggers. -/
structure RoutedRow (ex : Executor δ) (tgt : CopyTarget) (rri : ResultRelInfo)
    (slot : TupleTableSlot δ) (evs : List (Event δ)) : Prop where
  untriggered : ∀ e ∈ evs, e.isTrigger = false
  found : tgt.partitioned = true →
    ∃ s, .execFindPartition rri s ∈ evs ∧ slot = childSlot ex rri s
  root : tgt.partitioned = false → rri = tgt.resultRelInfo

/-- The triggers, if any, then leave a tuple whose partition constraint is known to hold
    when none of them fired. -/
theorem fireBeforeRow_during {rri : ResultRelInfo} {slot : TupleTableSlot δ} {b : Bool}
    (hd : During ex tgt k ins evs h) (hrow : slot.row = k)
    (hr : RoutedRow ex tgt rri slot evs) :
    wp (fireBeforeRow ex b rri slot) (fun kept t => ∃ evs', During ex tgt k ins evs' t ∧
      ∀ slot', kept = some slot' → slot'.row = k ∧
        (b = false → RoutedRow ex tgt rri slot' evs')) (Good ex) h := by
  unfold fireBeforeRow
  by_cases hb : b = true
  · rw [if_pos hb, wp_bind]
    refine wp_ask (fun result _ => ⟨_, hd.step (congrArg some hrow), ?_⟩) hd.good
    intro slot' hsome
    obtain ⟨values, -, rfl⟩ := Option.map_eq_some_iff.mp hsome
    exact ⟨hrow, fun hf => absurd hb (by rw [hf]; exact Bool.false_ne_true)⟩
  · rw [if_neg hb]
    refine ⟨evs, hd, fun slot' hsome => ?_⟩
    cases hsome
    exact ⟨hrow, fun _ => hr⟩

/-- The checks make a routed row one that may be stored. -/
theorem RoutedRow.checked {rri : ResultRelInfo} {slot slot' : TupleTableSlot δ} {b : Bool}
    (hr : b = false → RoutedRow ex tgt rri slot evs) :
    Checked ex rri slot' (evs ++ checkEvents rri slot slot'
      (rri.relispartition && (!tgt.partitioned || b))) := by
  refine ⟨evs, slot, _, rfl, fun hpart => ?_⟩
  by_cases hagain : (!tgt.partitioned || b) = true
  · left
    rw [hpart, hagain]
    rfl
  · -- routed and not triggered: routing itself has proved the constraint
    right
    rw [Bool.not_eq_true, Bool.or_eq_false_iff, Bool.not_eq_false'] at hagain
    have hrouted := hr hagain.2
    exact ⟨hrouted.untriggered, hrouted.found hagain.1⟩

/-- A checked row is buffered or stored. -/
theorem placeRow_loopInv {rri : ResultRelInfo} {slot : TupleTableSlot δ}
    (hd : During ex tgt k st.ins evs h) (hrow : slot.row = k) (hcached : Cached tgt st)
    (hbuf : st.ins.buffered = true →
      tgt.partitioned = false ∧ tgt.resultRelInfo.fdwRoutine = none)
    (hroot : tgt.partitioned = false → rri = tgt.resultRelInfo)
    (hchecked : rri.fdwRoutine = none → Checked ex rri slot evs) :
    wp (placeRow ex st rri slot) (fun st' t => LoopInv ex tgt (k + 1) st' t) (Good ex) h := by
  unfold placeRow
  by_cases hb : st.ins.buffered = true
  · -- a buffered target is not partitioned, so the row is checked against the target
    have htarget : rri = tgt.resultRelInfo := hroot (hbuf hb).1
    rw [if_pos hb, wp_bind]
    refine wp_mono (bufferStore_during hd hrow ?_) ?_ fun _ hv => hv
    · exact htarget ▸ hchecked (htarget ▸ (hbuf hb).2)
    · intro ins' v ⟨hv, hsame⟩
      exact ⟨hv, hcached, fun h' => hbuf (hsame ▸ h')⟩
  · rw [if_neg hb, wp_bind]
    refine wp_mono (insertRow_during hd hrow hchecked) ?_ fun _ hv => hv
    intro stored v hv
    rw [wp_pure]
    by_cases hs : stored = true
    · rw [if_pos hs]; exact ⟨hv.next, hcached, hbuf⟩
    · rw [if_neg hs]; exact ⟨hv.next, hcached, hbuf⟩

/-- The storing part ends the turn. -/
theorem storeRow_loopInv {rri : ResultRelInfo} {slot : TupleTableSlot δ}
    (hd : During ex tgt k st.ins evs h) (hrow : slot.row = k) (hcached : Cached tgt st)
    (hflags : st.beforeRow = rri.beforeRow ∧ st.insteadRow = rri.insteadRow)
    (hbuf : st.ins.buffered = true →
      tgt.partitioned = false ∧ tgt.resultRelInfo.fdwRoutine = none)
    (hr : RoutedRow ex tgt rri slot evs) :
    wp (storeRow ex tgt st rri slot) (fun st' t => LoopInv ex tgt (k + 1) st' t) (Good ex) h := by
  unfold storeRow
  rw [wp_bind, wp_note]
  have hread : During ex tgt k st.ins evs (h ++ [.flagsRead rri st.beforeRow st.insteadRow]) := by
    refine hd.other rfl (fun p hmem => absurd hmem List.not_mem_nil) fun r b i heq => ?_
    cases heq
    exact hflags
  rw [wp_bind]
  refine wp_mono (fireBeforeRow_during hread hrow hr) ?_ fun _ ht => ht
  intro kept t ⟨evs', ht, hkept⟩
  cases kept with
  | none => exact ⟨ht.next, hcached, hbuf⟩
  | some slot' =>
    obtain ⟨hrow', hr'⟩ := hkept slot' rfl
    by_cases hinstead : st.insteadRow = true
    · dsimp only
      rw [if_pos hinstead]
      have hfired := ht.step (e := .execIRInsertTriggers rri slot') (congrArg some hrow')
      rw [wp_bind]
      exact wp_call ⟨hfired.next, hcached, hbuf⟩ hfired.good
    · dsimp only
      rw [if_neg hinstead, wp_bind]
      refine wp_mono (checkRow_during ht hrow') ?_ fun _ hu => hu
      intro slot'' u ⟨hrow'', checks, hu, hchecks⟩
      have hchecked : rri.fdwRoutine = none → Checked ex rri slot'' (evs' ++ checks) :=
        fun hfdw => hchecks hfdw ▸ RoutedRow.checked hr'
      exact placeRow_loopInv hu hrow'' hcached hbuf hr.root hchecked

/-! ### A whole copy -/

variable {conv : PgchConvert γ κ δ} {states : List κ}

/-- One turn keeps the invariant. -/
theorem copyRow_loopInv {row : List γ} (hl : LoopInv ex tgt k st h) :
    wp (copyRow ex conv tgt states st (row, k)) (fun st' t => LoopInv ex tgt (k + 1) st' t)
      (Good ex) h := by
  unfold copyRow
  rw [wp_bind]
  refine wp_mono (turnHead_loopInv hl) ?_ fun _ ht => ht
  intro st₁ t ht
  rw [wp_bind]
  refine wp_lift (fun values _ => ?_) ht.during.good
  rw [wp_bind]
  refine wp_mono (ht.during.keep (fillDefaults_only fun _ => rfl)) ?_ fun _ hu => hu
  intro values u hu
  rw [wp_bind]
  refine wp_mono (routeRow_during ⟨hu, ht.cached, ht.buffered⟩ rfl) ?_ fun _ hv => hv
  intro r v ⟨hrow, hins, hcached, hflags, evs', hv, hnotrig, hroute⟩
  refine storeRow_loopInv (hins ▸ hv) hrow hcached hflags (hins ▸ ht.buffered) ⟨hnotrig, ?_, ?_⟩
  · intro hp
    rw [if_pos hp] at hroute
    exact ⟨_, hroute⟩
  · intro hp
    rw [hp] at hroute
    exact hroute

/-- So does the loop, over any rows, and the flush after it. -/
theorem copyInto_good {rd : PgchReader γ} {buffered : Bool}
    (hl : LoopInv ex tgt 0 (tgt.loopState buffered) h) :
    wp (copyInto ex conv tgt states rd buffered) (fun _ => Good ex) (Good ex) h := by
  unfold copyInto copyRows
  rw [wp_bind, wp_bind]
  have hloop := wp_foldlM_zipIdx (f := copyRow ex conv tgt states) (E := Good ex)
    (fun k st => LoopInv ex tgt k st) (l := rd.rows) (n := 0)
    (fun k st h hI row _ => copyRow_loopInv hI) hl
  refine wp_mono hloop ?_ fun _ ht => ht
  intro st t ht
  refine wp_mono (turnHead_loopInv ht) ?_ fun _ hu => hu
  intro st₁ u hu
  rw [wp_bind]
  refine wp_lift (fun _ _ => ?_) hu.during.good
  rw [wp_bind]
  exact wp_mono (flushBuffer_during hu.during) (fun _ _ hv => hv.1.good) fun _ hv => hv

theorem Event.isSetup.plain (e : Event δ) (he : e.isSetup = true) : e.isPlain = true := by
  cases e <;> simp_all [Event.isSetup, Event.isPlain]

/-- Before the first row nothing is held and the flags are the target's. -/
theorem loopState_loopInv {buffered : Bool}
    (hd : During ex tgt 0 (tgt.loopState (δ := δ) buffered).ins [] h)
    (hb : buffered = true → tgt.partitioned = false ∧ tgt.resultRelInfo.fdwRoutine = none) :
    LoopInv ex tgt 0 (tgt.loopState buffered) h := by
  refine ⟨hd, fun rri hr => ?_, hb⟩
  by_cases hp : tgt.partitioned = true
  · rw [if_pos hp] at hr
    cases hr
  · rw [if_neg hp] at hr
    rw [hr]
    exact ⟨rfl, rfl⟩

theorem During.start (ex : Executor δ) (tgt : CopyTarget) (buffered : Bool) :
    During ex tgt 0 (tgt.loopState (δ := δ) buffered).ins [] [] where
  good := Good.nil
  current := rfl
  fresh _ _ := rfl
  held _ hs := absurd hs List.not_mem_nil
  target := rfl

/-- The code buffers for unpartitioned local targets only. -/
theorem CopyTarget.buffered_spec (hb : tgt.buffered = true) :
    tgt.partitioned = false ∧ tgt.resultRelInfo.fdwRoutine = none := by
  unfold CopyTarget.buffered at hb
  simp only [Bool.and_eq_true, Bool.not_eq_true', Option.isNone_iff_eq_none] at hb
  exact ⟨hb.1.1.1, hb.1.1.2⟩

/-- The part that follows `CopyFrom` has both properties, however it ends. -/
theorem copyFrom_good {rd : PgchReader γ} :
    wp (copyFrom ex conv tgt states rd) (fun _ => Good ex) (Good ex) [] := by
  unfold copyFrom
  rw [wp_bind]
  refine wp_mono ((During.start ex tgt tgt.buffered).keep
    (openTarget_only.mono Event.isSetup.plain)) ?_ fun _ ht => ht
  intro _ t ht
  rw [wp_bind]
  refine wp_mono (copyInto_good (loopState_loopInv ht tgt.buffered_spec)) ?_ fun _ hu => hu
  intro st u hu
  rw [wp_bind]
  exact (closeTarget_only.mono Event.isSetup.plain).keeps (fun _ _ he hh => hh.plain he) hu

end

/-- **Every stored row was checked in its final form against the relation it lands in**, and
    the trigger flags are the routed relation's whenever they are read, in every list of
    calls the function can make, whether it returns or raises. -/
theorem chdbCopyReceive_checked (ex : Executor δ) (conv : PgchConvert γ κ δ) (tgt : CopyTarget)
    (rd : PgchReader γ) :
    wp (chdbCopyReceive ex conv tgt rd)
      (fun _ trace => StoresChecked ex trace ∧ FlagsDescribed trace)
      (fun trace => StoresChecked ex trace ∧ FlagsDescribed trace) [] := by
  unfold chdbCopyReceive
  rw [wp_bind]
  refine wp_lift (fun _ _ => ?_) Good.nil
  by_cases hcols : rd.columns = 0
  · rw [if_pos hcols]
    exact Good.nil
  · rw [if_neg hcols, wp_bind]
    refine wp_lift (fun _ _ => ?_) Good.nil
    rw [wp_bind]
    exact wp_lift (fun states _ => copyFrom_good) Good.nil

end PgChdb
