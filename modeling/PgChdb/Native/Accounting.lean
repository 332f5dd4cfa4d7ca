import Mathlib.Data.List.Nodup
import PgChdb.Native.Statement

namespace PgChdb

open CText Fallible Effects

/-!
# Row accounting in `chdb_copy_receive`

Every streamed row is suppressed by a trigger, declined by an FDW, or handed to one of the
four ways of storing it, once and in stream order, and the returned count is the number of
rows handed over.

* `Event.settled`, `Event.handed`, `Event.multi`, `Event.indexed`, `Event.fired` — what an
  event does to the account, as positions in the stream;
* `Tally` — the account in the middle of a copy: the settled rows and the buffered ones are
  the rows read so far;
* `Accounted` — the account at the end;
* `chdbCopyReceive_accounted` — every normal return is accounted for, and no slot is ever
  requested outside the slot array.
-/

variable {γ κ δ : Type}

/-! ### The ledger -/

/-- The rows whose fate the event decides. -/
def Event.settled : Event δ → List ℕ
  | .execBRInsertTriggers _ s none => [s.row]
  | .execForeignInsert _ s _ => [s.row]
  | .execIRInsertTriggers _ s => [s.row]
  | .tableMultiInsert _ slots => slots.map (·.row)
  | .tableTupleInsert _ s => [s.row]
  | _ => []

/-- Those among them that are neither suppressed nor declined. -/
def Event.handed : Event δ → List ℕ
  | .execForeignInsert _ s true => [s.row]
  | .execIRInsertTriggers _ s => [s.row]
  | .tableMultiInsert _ slots => slots.map (·.row)
  | .tableTupleInsert _ s => [s.row]
  | _ => []

/-- The rows given to `table_multi_insert`. -/
def Event.multi : Event δ → List ℕ
  | .tableMultiInsert _ slots => slots.map (·.row)
  | _ => []

/-- The rows given index entries. -/
def Event.indexed : Event δ → List ℕ
  | .execInsertIndexTuples _ s => [s.row]
  | _ => []

/-- The rows whose `AFTER ROW` triggers fire. -/
def Event.fired : Event δ → List ℕ
  | .execARInsertTriggers _ s => [s.row]
  | _ => []

/-- The events that leave all five as they are and request no slot. -/
def Event.isIdle : Event δ → Bool
  | .execBRInsertTriggers _ _ none | .execForeignInsert _ _ _ | .execIRInsertTriggers _ _
  | .tableMultiInsert _ _ | .tableTupleInsert _ _ | .execInsertIndexTuples _ _
  | .execARInsertTriggers _ _ | .slotRequest _ _ => false
  | _ => true

/-- Every slot requested was inside the slot array, and the created ones were a prefix. -/
def Requests (trace : List (Event δ)) : Prop :=
  ∀ nused allocated, .slotRequest nused allocated ∈ trace →
    nused ≤ 999 ∧ ∃ m, allocated = List.range m

/-- Everything the account is about, at one moment. -/
structure Ledger where
  settled : List ℕ
  handed : List ℕ
  multi : List ℕ
  indexed : List ℕ
  fired : List ℕ

/-- The ledger of a list of events. -/
def ledger (h : List (Event δ)) : Ledger where
  settled := h.flatMap Event.settled
  handed := h.flatMap Event.handed
  multi := h.flatMap Event.multi
  indexed := h.flatMap Event.indexed
  fired := h.flatMap Event.fired

theorem ledger_append (h : List (Event δ)) (e : Event δ) :
    ledger (h ++ [e]) = { settled := (ledger h).settled ++ e.settled
                          handed := (ledger h).handed ++ e.handed
                          multi := (ledger h).multi ++ e.multi
                          indexed := (ledger h).indexed ++ e.indexed
                          fired := (ledger h).fired ++ e.fired } := by
  simp [ledger, List.flatMap_append]

theorem Event.isIdle.spec {e : Event δ} (he : e.isIdle = true) :
    e.settled = [] ∧ e.handed = [] ∧ e.multi = [] ∧ e.indexed = [] ∧ e.fired = [] := by
  cases e with
  | execBRInsertTriggers rri s result =>
    cases result with
    | none => exact absurd he Bool.false_ne_true
    | some values => exact ⟨rfl, rfl, rfl, rfl, rfl⟩
  | _ => first
    | exact ⟨rfl, rfl, rfl, rfl, rfl⟩
    | exact absurd he Bool.false_ne_true

theorem ledger_idle {h : List (Event δ)} {e : Event δ} (he : e.isIdle = true) :
    ledger (h ++ [e]) = ledger h := by
  obtain ⟨h₁, h₂, h₃, h₄, h₅⟩ := Event.isIdle.spec he
  rw [ledger_append, h₁, h₂, h₃, h₄, h₅]
  simp only [List.append_nil]

theorem Requests.append {h : List (Event δ)} {e : Event δ} (hr : Requests h)
    (he : ∀ n l, e ≠ .slotRequest n l) : Requests (h ++ [e]) := by
  intro n l hmem
  rcases List.mem_append.mp hmem with hl | hl
  · exact hr n l hl
  · exact absurd (List.mem_singleton.mp hl).symm (he n l)

theorem Requests.idle {h : List (Event δ)} {e : Event δ} (hr : Requests h)
    (he : e.isIdle = true) : Requests (h ++ [e]) :=
  hr.append fun n l heq => by rw [heq] at he; cases he

/-! ### The buffer's share -/

/-- The created slots are the first `m`, for some `m` that covers the used ones. -/
def SlotsPrefix (ins : NativeInsert δ) : Prop :=
  ∃ m, ins.nused ≤ m ∧ m ≤ maxBufferedTuples ∧ ∀ i, (ins.slots i).isSome = true ↔ i < m

theorem filter_lt_range (m n : ℕ) (h : m ≤ n) :
    (List.range n).filter (fun i => decide (i < m)) = List.range m := by
  induction n with
  | zero => rw [Nat.le_zero.mp h]; rfl
  | succ n ih =>
    rw [List.range_succ, List.filter_append]
    by_cases hm : m ≤ n
    · rw [ih hm]
      simp [Nat.not_lt.mpr hm]
    · have hmn : m = n + 1 := by omega
      subst hmn
      have hall : (List.range n).filter (fun i => decide (i < n + 1)) = List.range n := by
        rw [List.filter_eq_self]
        intro i hi
        have := List.mem_range.mp hi
        exact decide_eq_true (by omega)
      rw [hall, List.range_succ]
      simp

theorem SlotsPrefix.allocated {ins : NativeInsert δ} (hs : SlotsPrefix ins) :
    ∃ m, ins.allocated = List.range m := by
  obtain ⟨m, -, hle, hsome⟩ := hs
  refine ⟨m, ?_⟩
  unfold NativeInsert.allocated
  rw [← filter_lt_range m maxBufferedTuples hle]
  refine List.filter_congr fun i _ => ?_
  rw [Bool.eq_iff_iff, decide_eq_true_iff]
  exact hsome i

/-- Requesting a slot below the end of the array makes it exist. -/
theorem SlotsPrefix.bufferSlot {ins : NativeInsert δ} (hs : SlotsPrefix ins)
    (hlt : ins.nused < maxBufferedTuples) :
    SlotsPrefix (bufferSlot ins) ∧ ((PgChdb.bufferSlot ins).slots ins.nused).isSome = true := by
  obtain ⟨m, hm, hle, hsome⟩ := hs
  unfold PgChdb.bufferSlot
  by_cases hnone : (ins.slots ins.nused).isNone = true
  · rw [if_pos hnone]
    -- the first slot that does not exist is the one at `nused`
    have hlast : m = ins.nused := by
      have hnot : ¬ ins.nused < m := fun hlt' => by
        have := (hsome ins.nused).mpr hlt'
        rw [Option.isNone_iff_eq_none] at hnone
        rw [hnone] at this
        cases this
      omega
    refine ⟨⟨m + 1, ?_, ?_, fun i => ?_⟩, ?_⟩
    · show ins.nused ≤ m + 1
      omega
    · omega
    · show (Function.update ins.slots ins.nused (some clearedSlot) i).isSome = true ↔ _
      by_cases hi : i = ins.nused
      · subst hi
        simp only [Function.update_self, Option.isSome_some, true_iff]
        omega
      · rw [Function.update_of_ne hi, hsome i]
        omega
    · show (Function.update ins.slots ins.nused (some clearedSlot) ins.nused).isSome = true
      rw [Function.update_self]
      rfl
  · rw [if_neg hnone]
    refine ⟨⟨m, hm, hle, hsome⟩, ?_⟩
    rw [Option.isNone_iff_eq_none] at hnone
    exact Option.isSome_iff_ne_none.mpr hnone

theorem SlotsPrefix.push {ins : NativeInsert δ} {size : ℕ} {slot : TupleTableSlot δ}
    (hs : SlotsPrefix ins) (hslot : (ins.slots ins.nused).isSome = true) :
    SlotsPrefix (ins.push size slot) := by
  obtain ⟨m, -, hle, hsome⟩ := hs
  have hlt : ins.nused < m := (hsome ins.nused).mp hslot
  refine ⟨m, hlt, hle, fun i => ?_⟩
  show (Function.update ins.slots ins.nused (some slot) i).isSome = true ↔ _
  by_cases hi : i = ins.nused
  · subst hi
    simp [hlt]
  · rw [Function.update_of_ne hi]
    exact hsome i

theorem SlotsPrefix.emptied {ins : NativeInsert δ} (hs : SlotsPrefix ins) :
    SlotsPrefix ins.emptied := by
  obtain ⟨m, -, hle, hsome⟩ := hs
  refine ⟨m, Nat.zero_le m, hle, fun i => ?_⟩
  show (if i < ins.nused then (ins.slots i).map fun _ => clearedSlot else ins.slots i).isSome = true
    ↔ _
  split
  · rw [Option.isSome_map]; exact hsome i
  · exact hsome i

/-! ### The account in the middle of a copy -/

/-- The account once `k` rows have been read and `rows` counted, with the buffer `ins`:
    the rows whose fate is decided, then the buffered ones, are the rows read. -/
structure Tally (tgt : CopyTarget) (k rows : ℕ) (ins : NativeInsert δ) (h : List (Event δ)) :
    Prop where
  settled : (ledger h).settled ++ ins.filled.map (·.row) = List.range k
  counted : rows = (ledger h).handed.length + ins.filled.length
  direct : ins.buffered = false → ins.nused = 0 ∧ (ledger h).multi = []
  batched : ins.buffered = true → (ledger h).settled = (ledger h).multi ∧
    (ledger h).fired = (ledger h).multi ∧ (ledger h).indexed =
      if 0 < tgt.resultRelInfo.numIndices then (ledger h).multi else []
  slots : SlotsPrefix ins
  requests : Requests h
  target : ins.target = tgt.resultRelInfo

section
variable {ex : Executor δ} {tgt : CopyTarget} {k rows : ℕ} {ins : NativeInsert δ}
  {h : List (Event δ)} {e : Event δ}

theorem Tally.idle (ht : Tally tgt k rows ins h) (he : e.isIdle = true) :
    Tally tgt k rows ins (h ++ [e]) where
  settled := by rw [ledger_idle he]; exact ht.settled
  counted := by rw [ledger_idle he]; exact ht.counted
  direct := by rw [ledger_idle he]; exact ht.direct
  batched := by rw [ledger_idle he]; exact ht.batched
  slots := ht.slots
  requests := ht.requests.idle he
  target := ht.target

/-- A procedure that makes only idle calls keeps the account. -/
theorem Tally.keep {α : Type} {m : Exec δ α} (hm : Only Event.isIdle m)
    (ht : Tally tgt k rows ins h) : wp m (fun _ => Tally tgt k rows ins) Requests h :=
  wp_mono (hm.keeps (fun _ _ he hh => hh.idle he) ht) (fun _ _ hu => hu) fun _ hu => hu.requests

/-- Nothing is in the buffer of an unbuffered copy. -/
theorem Tally.filled_nil (ht : Tally tgt k rows ins h) (hb : ins.buffered = false) :
    ins.filled = [] :=
  PgChdb.filled_nil (ht.direct hb).1

/-- Without a buffer, an event may decide the fate of the next row. -/
theorem Tally.record {k' : ℕ} (ht : Tally tgt k rows ins h) (hb : ins.buffered = false)
    (hset : List.range k ++ e.settled = List.range k') (hmulti : e.multi = [])
    (hreq : ∀ n l, e ≠ .slotRequest n l) :
    Tally tgt k' (rows + e.handed.length) ins (h ++ [e]) where
  settled := by
    have hprev := ht.settled
    rw [ht.filled_nil hb, List.map_nil, List.append_nil] at hprev ⊢
    rw [ledger_append, hprev, hset]
  counted := by
    rw [ledger_append, ht.counted, List.length_append]
    omega
  direct _ := by
    refine ⟨(ht.direct hb).1, ?_⟩
    rw [ledger_append, (ht.direct hb).2, hmulti]
    rfl
  batched hb' := absurd hb' (by rw [hb]; exact Bool.false_ne_true)
  slots := ht.slots
  requests := ht.requests.append hreq
  target := ht.target

/-- Index entries and triggers of a row stored on its own. -/
theorem afterInsert_tally {rri : ResultRelInfo} {slot : TupleTableSlot δ}
    (ht : Tally tgt k rows ins h) (hb : ins.buffered = false) :
    wp (afterInsert ex rri slot) (fun _ => Tally tgt k rows ins) Requests h := by
  unfold afterInsert
  have hfire : ∀ t, Tally tgt k rows ins t →
      Tally tgt k rows ins (t ++ [.execARInsertTriggers rri slot]) := fun t ht' =>
    ht'.record (e := .execARInsertTriggers rri slot) hb (List.append_nil _) rfl nofun
  have hindex : Tally tgt k rows ins (h ++ [.execInsertIndexTuples rri slot]) :=
    ht.record (e := .execInsertIndexTuples rri slot) hb (List.append_nil _) rfl nofun
  rw [wp_bind]
  refine wp_onlyIf (fun _ => wp_call ?_ hindex.requests) (fun _ => ?_)
  · exact wp_call (hfire _ hindex) (hfire _ hindex).requests
  · exact wp_call (hfire _ ht) (hfire _ ht).requests

/-- One row past the buffer is settled, and counted if it was stored. -/
theorem insertRow_tally {rri : ResultRelInfo} {slot : TupleTableSlot δ}
    (ht : Tally tgt k rows ins h) (hb : ins.buffered = false) (hrow : slot.row = k) :
    wp (insertRow ex rri slot)
      (fun stored => Tally tgt (k + 1) (if stored then rows + 1 else rows) ins) Requests h := by
  have hnext : List.range k ++ [slot.row] = List.range (k + 1) := by
    rw [hrow, List.range_succ]
  unfold insertRow
  by_cases hfdw : rri.fdwRoutine.isSome = true
  · rw [if_pos hfdw, wp_bind]
    refine wp_ask (fun stored _ => ?_) ht.requests
    cases stored with
    | none =>
      exact ht.record (e := .execForeignInsert rri slot false) hb hnext rfl nofun
    | some values =>
      have hstored : Tally tgt (k + 1) (rows + 1) ins
          (h ++ [.execForeignInsert rri slot true]) :=
        ht.record (e := .execForeignInsert rri slot true) hb hnext rfl nofun
      have hfired := hstored.record (e := .execARInsertTriggers rri
        { slot with values, tableOid := rri.relid }) hb (List.append_nil _) rfl nofun
      dsimp only
      rw [wp_bind]
      exact wp_call hfired hfired.requests
  · rw [if_neg hfdw, wp_bind]
    have hstored : Tally tgt (k + 1) (rows + 1) ins (h ++ [.tableTupleInsert rri slot]) :=
      ht.record (e := .tableTupleInsert rri slot) hb hnext rfl nofun
    refine wp_call ?_ hstored.requests
    rw [wp_bind]
    exact afterInsert_tally hstored hb

/-- After the batch insert of `rows`, the pass that indexes them and fires their triggers
    adds each of them, in order, to the two lists. -/
theorem afterInserts_ledger {rri : ResultRelInfo} {slots : List (TupleTableSlot δ)}
    (hr : Requests h) :
    wp (forM slots (afterInsert ex rri)) (fun _ t => Requests t ∧ ledger t = { ledger h with
      indexed := (ledger h).indexed ++ if 0 < rri.numIndices then slots.map (·.row) else []
      fired := (ledger h).fired ++ slots.map (·.row) }) Requests h := by
  refine wp_forM (fun (done : List (TupleTableSlot δ)) t => Requests t ∧
    ledger t = { ledger h with
      indexed := (ledger h).indexed ++ if 0 < rri.numIndices then done.map (·.row) else []
      fired := (ledger h).fired ++ done.map (·.row) }) ?_ ⟨hr, ?_⟩
  · intro done slot rest t _ ⟨hreq, hled⟩
    unfold afterInsert
    rw [wp_bind]
    have hidx : Requests (t ++ [.execInsertIndexTuples rri slot]) :=
      hreq.append nofun
    refine wp_onlyIf (fun hpos => wp_call ?_ hidx) (fun hzero => ?_)
    · have hfire : Requests (t ++ [.execInsertIndexTuples rri slot] ++
          [.execARInsertTriggers rri slot]) := hidx.append nofun
      refine wp_call ⟨hfire, ?_⟩ hfire
      rw [ledger_append, ledger_append, hled]
      simp [hpos, Event.settled, Event.handed, Event.multi, Event.indexed, Event.fired]
    · have hfire : Requests (t ++ [.execARInsertTriggers rri slot]) :=
        hreq.append nofun
      refine wp_call ⟨hfire, ?_⟩ hfire
      rw [ledger_append, hled]
      simp [hzero, Event.settled, Event.handed, Event.multi, Event.indexed, Event.fired]
  · simp

/-- A flush settles what the buffer holds. -/
theorem flushBuffer_tally (ht : Tally tgt k rows ins h) :
    wp (flushBuffer ex ins) (fun ins' t => Tally tgt k rows ins' t ∧ ins'.nused = 0 ∧
      ins'.buffered = ins.buffered) Requests h := by
  unfold flushBuffer
  by_cases hn : ins.nused = 0
  · rw [if_pos hn]
    exact ⟨ht, hn, rfl⟩
  · rw [if_neg hn, wp_bind]
    -- only a buffered copy uses the buffer
    have hb : ins.buffered = true := by
      by_contra hf
      exact hn (ht.direct (Bool.eq_false_iff.mpr hf)).1
    have hmulti : Requests (h ++ [.tableMultiInsert ins.target ins.filled]) :=
      ht.requests.append nofun
    refine wp_call ?_ hmulti
    rw [wp_bind]
    refine wp_mono (afterInserts_ledger hmulti) ?_ fun _ hu => hu
    intro _ t ⟨hreq, hled⟩
    obtain ⟨hset, hfired, hindexed⟩ := ht.batched hb
    rw [ledger_append] at hled
    refine ⟨⟨?_, ?_, fun hf => absurd hf (by show ins.buffered ≠ false; simp [hb]), fun _ => ?_,
      ht.slots.emptied, hreq, ht.target⟩, rfl, rfl⟩
    · rw [hled, filled_emptied, List.map_nil, List.append_nil]
      exact ht.settled
    · rw [hled, filled_emptied, ht.counted]
      simp [Event.handed]
    · rw [hled]
      refine ⟨?_, ?_, ?_⟩
      · simp only [hset]
        rfl
      · simp only [hfired]
        simp [Event.multi, Event.fired]
      · simp only [hindexed, ht.target]
        split <;> simp [Event.multi, Event.indexed]

/-- A row into the buffer. -/
theorem Tally.push (size : ℕ) {slot : TupleTableSlot δ} (ht : Tally tgt k rows ins h)
    (hb : ins.buffered = true) (hrow : slot.row = k)
    (hslot : (ins.slots ins.nused).isSome = true) :
    Tally tgt (k + 1) (rows + 1) (ins.push size slot) h where
  settled := by
    rw [filled_push, List.map_append, ← List.append_assoc, ht.settled, List.range_succ,
      List.map_singleton, hrow]
  counted := by
    rw [filled_push, List.length_append, ht.counted]
    rfl
  direct hf := absurd hf (by show ins.buffered ≠ false; simp [hb])
  batched _ := ht.batched hb
  slots := ht.slots.push hslot
  requests := ht.requests
  target := ht.target

theorem bufferStore_tally {slot : TupleTableSlot δ} (ht : Tally tgt k rows ins h)
    (hb : ins.buffered = true) (hrow : slot.row = k)
    (hslot : (ins.slots ins.nused).isSome = true) :
    wp (bufferStore ex ins slot) (fun ins' t => Tally tgt (k + 1) (rows + 1) ins' t ∧
      ins'.nused < maxBufferedTuples ∧ ins'.buffered = ins.buffered) Requests h := by
  have hpush := ht.push (ex.dataSize slot.values) hb hrow hslot
  unfold bufferStore
  by_cases hfull : maxBufferedTuples ≤ (ins.push (ex.dataSize slot.values) slot).nused ∨
      maxBufferedBytes ≤ (ins.push (ex.dataSize slot.values) slot).bytes
  · rw [if_pos hfull]
    refine wp_mono (flushBuffer_tally hpush) ?_ fun _ hu => hu
    intro ins' t ⟨htally, hzero, hsame⟩
    exact ⟨htally, by rw [hzero]; decide, hsame⟩
  · rw [if_neg hfull]
    rw [not_or, Nat.not_le] at hfull
    exact ⟨hpush, hfull.1, rfl⟩

/-! ### The account over the loop -/

/-- The invariant at the head of turn `k`. -/
structure LoopTally (tgt : CopyTarget) (k : ℕ) (st : LoopState δ) (h : List (Event δ)) :
    Prop where
  tally : Tally tgt k st.rows st.ins h
  room : st.ins.nused < maxBufferedTuples
  plain : st.ins.buffered = true → tgt.partitioned = false ∧
    tgt.resultRelInfo.fdwRoutine = none ∧ st.beforeRow = false ∧ st.insteadRow = false

variable {st : LoopState δ}

/-- The head of a turn: the slot the row will be built in exists. -/
theorem turnHead_tally {j : ℕ} (hl : LoopTally tgt k st h) :
    wp (turnHead ex st j) (fun st' t => LoopTally tgt k st' t ∧
      (st'.ins.buffered = true → (st'.ins.slots st'.ins.nused).isSome = true)) Requests h := by
  unfold turnHead
  have hint := hl.tally.idle (e := .checkForInterrupts j) rfl
  rw [wp_bind]
  refine wp_call ?_ hint.requests
  by_cases hb : st.ins.buffered = true
  · rw [if_pos hb, wp_bind, wp_note]
    obtain ⟨hslots, hslot⟩ := hint.slots.bufferSlot hl.room
    have hled : ledger (h ++ [.checkForInterrupts j] ++
        [.slotRequest st.ins.nused st.ins.allocated]) = ledger (h ++ [.checkForInterrupts j]) := by
      rw [ledger_append]
      simp [Event.settled, Event.handed, Event.multi, Event.indexed, Event.fired]
    refine ⟨⟨⟨?_, ?_, ?_, ?_, hslots, ?_, ?_⟩, ?_, ?_⟩, fun _ => ?_⟩
    · rw [hled, filled_bufferSlot]; exact hint.settled
    · rw [hled, filled_bufferSlot]; exact hint.counted
    · rw [hled, bufferSlot_nused, bufferSlot_buffered]; exact hint.direct
    · rw [hled, bufferSlot_buffered]; exact hint.batched
    · intro n l hmem
      rcases List.mem_append.mp hmem with hl' | hl'
      · exact hint.requests n l hl'
      · -- the request just recorded
        cases List.mem_singleton.mp hl'
        exact ⟨Nat.le_of_lt_succ hl.room, hint.slots.allocated⟩
    · rw [bufferSlot_target]; exact hint.target
    · rw [bufferSlot_nused]; exact hl.room
    · rw [bufferSlot_buffered]; exact hl.plain
    · rw [bufferSlot_nused]; exact hslot
  · rw [if_neg hb]
    exact ⟨⟨hint, hl.room, hl.plain⟩, fun h' => absurd h' hb⟩

/-- The checks keep the account and the row's position. -/
theorem checkRow_tally {rri : ResultRelInfo} {slot : TupleTableSlot δ} {b : Bool}
    (ht : Tally tgt k rows ins h) :
    wp (checkRow ex tgt b rri slot) (fun slot' t => slot'.row = slot.row ∧
      Tally tgt k rows ins t) Requests h := by
  unfold checkRow
  have hgen : wp (computeGenerated ex rri slot) (fun slot' t => slot'.row = slot.row ∧
      Tally tgt k rows ins t) Requests h := by
    unfold computeGenerated
    by_cases hg : rri.hasGeneratedStored = true
    · rw [if_pos hg, wp_bind]
      exact wp_ask (fun values _ => ⟨rfl, ht.idle rfl⟩) ht.requests
    · rw [if_neg hg]
      exact ⟨rfl, ht⟩
  rw [wp_bind]
  refine wp_mono hgen ?_ fun _ hu => hu
  intro slot' t ⟨hrow, ht'⟩
  rw [wp_bind]
  refine wp_mono (ht'.keep (Only.onlyIf fun _ => Only.call rfl)) ?_ fun _ hu => hu
  intro _ u hu
  rw [wp_bind]
  refine wp_mono (hu.keep (Only.onlyIf fun _ => Only.call rfl)) ?_ fun _ hv => hv
  intro _ v hv
  exact ⟨hrow, hv⟩

/-- Routing keeps the account, the row's position and, without partitions, the flags. -/
theorem routeRow_tally {slot : TupleTableSlot δ} (hl : LoopTally tgt k st h) :
    wp (routeRow ex tgt st slot) (fun r t => r.slot.row = slot.row ∧ r.st.ins = st.ins ∧
      LoopTally tgt k r.st t) Requests h := by
  unfold routeRow
  by_cases hp : tgt.partitioned = true
  · rw [if_pos hp, wp_bind]
    refine wp_ask (fun rri _ => ?_) hl.tally.requests
    have hfound := hl.tally.idle (e := .execFindPartition rri slot) rfl
    rw [wp_bind]
    refine wp_mono (hfound.keep (Only.onlyIf fun _ => Only.bind (Only.note rfl) fun _ =>
      Only.note rfl)) ?_ fun _ hu => hu
    intro _ u hu
    refine ⟨childSlot_row ex rri slot, routeTo_ins st rri, ⟨?_, ?_, fun hb => ?_⟩⟩
    · rw [routeTo_ins, routeTo_rows]; exact hu
    · rw [routeTo_ins]; exact hl.room
    · -- a partitioned target is not buffered
      rw [routeTo_ins] at hb
      exact absurd hp (by rw [(hl.plain hb).1]; exact Bool.false_ne_true)
  · rw [if_neg hp]
    exact ⟨rfl, rfl, hl⟩

/-- A copy that fires row triggers is not buffered. -/
theorem LoopTally.unbuffered (hl : LoopTally tgt k st h)
    (hfires : st.beforeRow = true ∨ st.insteadRow = true) : st.ins.buffered = false := by
  by_contra hb
  rw [Bool.not_eq_false] at hb
  obtain ⟨-, -, hbefore, hinstead⟩ := hl.plain hb
  rcases hfires with hfires | hfires
  · rw [hbefore] at hfires; cases hfires
  · rw [hinstead] at hfires; cases hfires

/-- A row a trigger suppresses is settled by it, any other is still to be settled. -/
theorem fireBeforeRow_tally {rri : ResultRelInfo} {slot : TupleTableSlot δ}
    (hl : LoopTally tgt k st h) (hrow : slot.row = k) :
    wp (fireBeforeRow ex st.beforeRow rri slot) (fun kept t =>
      (kept = none → LoopTally tgt (k + 1) st t) ∧
      ∀ slot', kept = some slot' → slot'.row = slot.row ∧ Tally tgt k st.rows st.ins t)
      Requests h := by
  unfold fireBeforeRow
  by_cases hbefore : st.beforeRow = true
  · have hdirect : st.ins.buffered = false := hl.unbuffered (Or.inl hbefore)
    have hnext : List.range k ++ [slot.row] = List.range (k + 1) := by
      rw [hrow, List.range_succ]
    rw [if_pos hbefore, wp_bind]
    refine wp_ask (fun result _ => ?_) hl.tally.requests
    cases result with
    | none =>
      refine ⟨fun _ => ⟨?_, hl.room, hl.plain⟩, nofun⟩
      exact hl.tally.record (e := .execBRInsertTriggers rri slot none) hdirect hnext rfl nofun
    | some values =>
      refine ⟨nofun, fun slot' hsome => ?_⟩
      cases hsome
      exact ⟨rfl, hl.tally.idle rfl⟩
  · rw [if_neg hbefore]
    refine ⟨nofun, fun slot' hsome => ?_⟩
    cases hsome
    exact ⟨rfl, hl.tally⟩

/-- A row that has passed the checks is buffered or stored. -/
theorem placeRow_tally {rri : ResultRelInfo} {slot : TupleTableSlot δ}
    (hl : LoopTally tgt k st h) (hrow : slot.row = k)
    (hslot : st.ins.buffered = true → (st.ins.slots st.ins.nused).isSome = true) :
    wp (placeRow ex st rri slot) (fun st' t => LoopTally tgt (k + 1) st' t) Requests h := by
  unfold placeRow
  by_cases hb : st.ins.buffered = true
  · rw [if_pos hb, wp_bind]
    refine wp_mono (bufferStore_tally hl.tally hb hrow (hslot hb)) ?_ fun _ hv => hv
    intro ins' v ⟨hv, hroom, hkept⟩
    exact ⟨hv, hroom, fun hb' => hl.plain (hkept ▸ hb')⟩
  · rw [if_neg hb, wp_bind]
    refine wp_mono (insertRow_tally hl.tally (Bool.eq_false_iff.mpr hb) hrow) ?_ fun _ hv => hv
    intro stored v hv
    rw [wp_pure]
    by_cases hs : stored = true
    · rw [if_pos hs] at hv ⊢; exact ⟨hv, hl.room, hl.plain⟩
    · rw [if_neg hs] at hv ⊢; exact ⟨hv, hl.room, hl.plain⟩

/-- The storing part decides the row's fate. -/
theorem storeRow_tally {rri : ResultRelInfo} {slot : TupleTableSlot δ}
    (hl : LoopTally tgt k st h) (hrow : slot.row = k)
    (hslot : st.ins.buffered = true → (st.ins.slots st.ins.nused).isSome = true) :
    wp (storeRow ex tgt st rri slot) (fun st' t => LoopTally tgt (k + 1) st' t) Requests h := by
  have hread := hl.tally.idle (e := .flagsRead rri st.beforeRow st.insteadRow) rfl
  unfold storeRow
  rw [wp_bind, wp_note, wp_bind]
  refine wp_mono (fireBeforeRow_tally ⟨hread, hl.room, hl.plain⟩ hrow) ?_ fun _ ht => ht
  intro kept t ⟨hnone, hsome⟩
  cases kept with
  | none => exact hnone rfl
  | some slot' =>
    obtain ⟨hsame, ht⟩ := hsome slot' rfl
    dsimp only
    by_cases hinstead : st.insteadRow = true
    · -- the trigger takes the row in place of the relation
      have hnext : List.range k ++ [slot'.row] = List.range (k + 1) := by
        rw [hsame, hrow, List.range_succ]
      have hfired := ht.record (e := .execIRInsertTriggers rri slot')
        (hl.unbuffered (Or.inr hinstead)) hnext rfl nofun
      rw [if_pos hinstead, wp_bind]
      exact wp_call ⟨hfired, hl.room, hl.plain⟩ hfired.requests
    · rw [if_neg hinstead, wp_bind]
      refine wp_mono (checkRow_tally ht) ?_ fun _ hu => hu
      intro slot'' u ⟨hsame', hu⟩
      have hrow'' : slot''.row = k := hsame'.trans (hsame.trans hrow)
      exact placeRow_tally ⟨hu, hl.room, hl.plain⟩ hrow'' hslot

variable {conv : PgchConvert γ κ δ} {states : List κ}

/-- One turn settles, or buffers, one more row. -/
theorem copyRow_tally {row : List γ} (hl : LoopTally tgt k st h) :
    wp (copyRow ex conv tgt states st (row, k)) (fun st' t => LoopTally tgt (k + 1) st' t)
      Requests h := by
  unfold copyRow
  rw [wp_bind]
  refine wp_mono (turnHead_tally hl) ?_ fun _ ht => ht
  intro st₁ t ⟨ht, hslot⟩
  rw [wp_bind]
  refine wp_lift (fun values _ => ?_) ht.tally.requests
  rw [wp_bind]
  refine wp_mono (ht.tally.keep (fillDefaults_only fun _ => rfl)) ?_ fun _ hu => hu
  intro values u hu
  rw [wp_bind]
  refine wp_mono (routeRow_tally ⟨hu, ht.room, ht.plain⟩) ?_ fun _ hv => hv
  intro r v ⟨hrow, hins, hv⟩
  exact storeRow_tally hv hrow (hins ▸ hslot)

/-- The loop reads every row; the flush after it leaves nothing in the buffer. -/
theorem copyInto_tally {rd : PgchReader γ} {buffered : Bool}
    (hl : LoopTally tgt 0 (tgt.loopState buffered) h) :
    wp (copyInto ex conv tgt states rd buffered) (fun st t =>
      Tally tgt rd.rows.length st.rows st.ins t ∧ st.ins.nused = 0 ∧ rd.error = none)
      Requests h := by
  unfold copyInto copyRows
  rw [wp_bind, wp_bind]
  have hloop := wp_foldlM_zipIdx (f := copyRow ex conv tgt states) (E := Requests)
    (fun k st => LoopTally tgt k st) (l := rd.rows) (n := 0)
    (fun k st h hI row _ => copyRow_tally hI) hl
  rw [Nat.zero_add] at hloop
  refine wp_mono hloop ?_ fun _ ht => ht
  intro st t ht
  refine wp_mono (turnHead_tally ht) ?_ fun _ hu => hu
  intro st₁ u ⟨hu, _⟩
  rw [wp_bind]
  refine wp_lift (fun _ hnone => ?_) hu.tally.requests
  rw [raiseSome_eq_ok] at hnone
  rw [wp_bind]
  refine wp_mono (flushBuffer_tally hu.tally) ?_ fun _ hv => hv
  intro ins v ⟨hv, hzero, _⟩
  exact ⟨hv, hzero, hnone⟩

end

/-! ### The account at the end -/

/-- A row handed over is a row settled. -/
theorem handed_sublist_settled (h : List (Event δ)) :
    (h.flatMap Event.handed).Sublist (h.flatMap Event.settled) := by
  induction h with
  | nil => exact List.Sublist.refl _
  | cons e h ih =>
    rw [List.flatMap_cons, List.flatMap_cons]
    refine List.Sublist.append ?_ ih
    cases e with
    | execForeignInsert rri s stored => cases stored <;> simp [Event.handed, Event.settled]
    | _ => simp [Event.handed, Event.settled]

/-- The account of a copy of `n` rows that returned `count`.  Each row is settled once, in
    stream order, and the rows handed over are counted.  The rows of a batch insert have
    their index entries and have fired their triggers once each by the time the
    `AFTER STATEMENT` triggers fire, and after that nothing of the kind happens. -/
structure Accounted (tgt : CopyTarget) (n count : ℕ) (trace : List (Event δ)) : Prop where
  settled : trace.flatMap Event.settled = List.range n
  handed : (trace.flatMap Event.handed).Sublist (List.range n)
  counted : count = (trace.flatMap Event.handed).length
  batched : ∃ body tail, trace = body ++ .execASInsertTriggers tgt.resultRelInfo :: tail ∧
    .execASInsertTriggers tgt.resultRelInfo ∉ body ∧ (∀ e ∈ tail, e.isIdle = true) ∧
    ∀ i ∈ body.flatMap Event.multi, (body.flatMap Event.fired).count i = 1 ∧
      (body.flatMap Event.indexed).count i = if 0 < tgt.resultRelInfo.numIndices then 1 else 0

section
variable {ex : Executor δ} {tgt : CopyTarget} {k rows : ℕ} {ins : NativeInsert δ}
  {h : List (Event δ)}

/-- In the buffered rows' account each of them occurs once. -/
theorem Tally.batch_once (ht : Tally tgt k rows ins h) (hfilled : ins.filled = []) (i : ℕ)
    (hi : i ∈ (ledger h).multi) : (ledger h).fired.count i = 1 ∧
      (ledger h).indexed.count i = if 0 < tgt.resultRelInfo.numIndices then 1 else 0 := by
  have hb : ins.buffered = true := by
    by_contra hf
    rw [(ht.direct (Bool.eq_false_iff.mpr hf)).2] at hi
    exact absurd hi List.not_mem_nil
  obtain ⟨hset, hfired, hindexed⟩ := ht.batched hb
  have hrange := ht.settled
  rw [hfilled, List.map_nil, List.append_nil, hset] at hrange
  have honce : (ledger h).multi.count i = 1 := by
    rw [hrange]
    exact List.count_eq_one_of_mem List.nodup_range (hrange ▸ hi)
  rw [hfired, hindexed]
  split
  · exact ⟨honce, honce⟩
  · exact ⟨honce, rfl⟩

/-- The clean-up adds one `AFTER STATEMENT` event among idle ones. -/
theorem closeTarget_split {b : Bool} :
    wp (closeTarget ex tgt b) (fun _ t => ∃ body tail,
      t = body ++ .execASInsertTriggers tgt.resultRelInfo :: tail ∧ Grown Event.isIdle h body ∧
      ∀ e ∈ tail, e.isIdle = true) (fun _ => True) h := by
  unfold closeTarget
  rw [wp_bind]
  have hfinish : Only Event.isIdle (onlyIf b (call ex.call .tableFinishBulkInsert)) :=
    Only.onlyIf fun _ => Only.call rfl
  refine wp_mono (hfinish h) ?_ fun _ _ => trivial
  intro _ body hbody
  rw [wp_bind]
  refine wp_call ?_ trivial
  have hrest : Only Event.isIdle (do
      call ex.call .afterTriggerEndQuery
      onlyIf (tgt.resultRelInfo.fdwRoutine.any (·.endForeignInsert))
        (call ex.call (.endForeignInsert tgt.resultRelInfo))
      onlyIf tgt.partitioned (call ex.call .execCleanupTupleRouting)) :=
    Only.bind (Only.call rfl) fun _ => Only.bind (Only.onlyIf fun _ => Only.call rfl)
      fun _ => Only.onlyIf fun _ => Only.call rfl
  refine wp_mono (hrest _) ?_ fun _ _ => trivial
  intro _ t ⟨tail, ht, htail⟩
  exact ⟨body, tail, by rw [ht, List.append_assoc]; rfl, hbody, htail⟩

theorem Event.isSetup.idle (e : Event δ) (he : e.isSetup = true) : e.isIdle = true := by
  cases e with
  | execBRInsertTriggers rri s result => exact absurd he Bool.false_ne_true
  | _ => first
    | rfl
    | exact absurd he Bool.false_ne_true

/-- Before the first row the account is empty. -/
theorem loopState_tally (ht : Tally tgt 0 0 (tgt.loopState (δ := δ) tgt.buffered).ins h) :
    LoopTally tgt 0 (tgt.loopState tgt.buffered) h := by
  refine ⟨ht, Nat.zero_lt_succ 999, fun hb => ?_⟩
  change tgt.buffered = true at hb
  unfold CopyTarget.buffered at hb
  simp only [Bool.and_eq_true, Bool.not_eq_true', Option.isNone_iff_eq_none] at hb
  exact ⟨hb.1.1.1, hb.1.1.2, hb.1.2, hb.2⟩

theorem Tally.start (tgt : CopyTarget) (b : Bool) :
    Tally tgt 0 0 (tgt.loopState (δ := δ) b).ins [] where
  settled := rfl
  counted := rfl
  direct _ := ⟨rfl, rfl⟩
  batched _ := ⟨rfl, rfl, by split <;> rfl⟩
  slots := ⟨0, Nat.le_refl 0, Nat.zero_le _, fun i => by simp [CopyTarget.loopState]⟩
  requests _ _ hmem := absurd hmem List.not_mem_nil
  target := rfl

/-- One `AFTER STATEMENT` event in all means none before it. -/
theorem not_mem_of_logs {body tail : List (Event δ)} {t : List (Event δ)}
    (hlogs : StatementEffects tgt t)
    (ht : t = body ++ .execASInsertTriggers tgt.resultRelInfo :: tail) :
    .execASInsertTriggers tgt.resultRelInfo ∉ body := by
  intro hmem
  unfold StatementEffects at hlogs
  rw [ht, List.filter_append, List.filter_cons_of_pos rfl] at hlogs
  have hkept : .execASInsertTriggers tgt.resultRelInfo ∈ body.filter Event.isStatement :=
    List.mem_filter.mpr ⟨hmem, rfl⟩
  revert hlogs hkept
  generalize body.filter Event.isStatement = before
  intro hlogs hkept
  match before with
  | [] => exact absurd hkept List.not_mem_nil
  | [e] => cases hlogs
  | [e, f] =>
    -- these are the validation and the `BEFORE STATEMENT` triggers
    simp only [List.cons_append, List.nil_append, List.cons.injEq] at hlogs
    rcases List.mem_cons.mp hkept with he | hf
    · rw [hlogs.1] at he; cases he
    · rw [List.mem_singleton, hlogs.2.1] at hf; cases hf
  | e :: f :: g :: rest => simp at hlogs

/-- The part that follows `CopyFrom` accounts for every row of the stream. -/
theorem copyFrom_accounted {conv : PgchConvert γ κ δ} {states : List κ} {rd : PgchReader γ} :
    wp (copyFrom ex conv tgt states rd) (fun count t => rd.error = none ∧
      Accounted tgt rd.rows.length count t ∧ Requests t) Requests [] := by
  have hlogs := copyFrom_logs ex conv tgt states rd []
  have hcopy : wp (copyFrom ex conv tgt states rd) (fun count t => rd.error = none ∧
      (StatementEffects tgt t → Accounted tgt rd.rows.length count t) ∧ Requests t)
      Requests [] := by
    unfold copyFrom
    rw [wp_bind]
    refine wp_mono ((Tally.start tgt tgt.buffered).keep
      (openTarget_only.mono Event.isSetup.idle)) ?_ fun _ ht => ht
    intro _ t ht
    rw [wp_bind]
    refine wp_mono (copyInto_tally (loopState_tally ht)) ?_ fun _ hu => hu
    intro st u ⟨hu, hzero, herr⟩
    have hfilled : st.ins.filled = [] := filled_nil hzero
    rw [wp_bind]
    have hidle := hu.keep (m := closeTarget ex tgt tgt.buffered)
      (closeTarget_only.mono Event.isSetup.idle)
    refine wp_mono (wp_and hidle closeTarget_split) ?_ fun _ hv => hv.1
    intro _ v ⟨hv, body, tail, hsplit, hgrown, htail⟩
    have hbody : Tally tgt rd.rows.length st.rows st.ins body :=
      hgrown.induction (fun _ _ he hh => hh.idle he) hu
    have hset : v.flatMap Event.settled = List.range rd.rows.length := by
      have hall := hv.settled
      rw [hfilled, List.map_nil, List.append_nil] at hall
      exact hall
    refine ⟨herr, fun hs => ⟨hset, hset ▸ handed_sublist_settled v, ?_, body, tail, hsplit,
      not_mem_of_logs hs hsplit, htail, fun i hi => hbody.batch_once hfilled i hi⟩, hv.requests⟩
    have hcount := hv.counted
    rw [hfilled] at hcount
    exact hcount
  refine wp_mono (wp_and hcopy hlogs) (fun count t ht => ?_) fun _ ht => ht.1
  exact ⟨ht.1.1, ht.1.2.1 ht.2, ht.1.2.2⟩

end

/-- **Every streamed row is accounted for.**  When the copy returns, the stream had no error,
    each of its rows has been suppressed, declined or handed over once and in order, the
    count is that of the rows handed over, and batch-inserted rows were indexed and fired
    their triggers before the statement's.  Every slot ever requested is inside the array,
    behind a prefix of created ones, also when the copy raises. -/
theorem chdbCopyReceive_accounted (ex : Executor δ) (conv : PgchConvert γ κ δ)
    (tgt : CopyTarget) (input : List (BlockRead γ)) (rd : PgchReader γ)
    (hread : rd.Reads (sourceFor input)) (hblock : streamBlocks input ≠ []) :
    wp (chdbCopyReceive ex conv tgt rd) (fun count trace => streamError input = none ∧
      Accounted tgt (streamRows input).length count trace ∧ Requests trace) Requests [] := by
  obtain ⟨hrows, hcols, -, herr⟩ := hread.stream
  have hpos : rd.columns ≠ 0 := by
    obtain ⟨b, bs, hb⟩ := List.exists_cons_of_ne_nil hblock
    rw [hcols, hb]
    exact b.nCols_pos.ne'
  have hnil : Requests ([] : List (Event δ)) := fun _ _ hmem => absurd hmem List.not_mem_nil
  unfold chdbCopyReceive
  rw [wp_bind]
  refine wp_lift (fun _ _ => ?_) hnil
  rw [if_neg hpos, wp_bind]
  refine wp_lift (fun _ _ => ?_) hnil
  rw [wp_bind]
  refine wp_lift (fun states _ => ?_) hnil
  rw [← hrows, ← herr]
  exact copyFrom_accounted

/-- The account of a copy of two rows into a plain table. -/
theorem chdbCopyReceive_accounted_twoRows :
    wp (chdbCopyReceive (plainExecutor (plainRelation 1)) cellsAsIs plainTarget
        (readerOver [.block twoRows]))
      (fun count trace => streamError [.block twoRows] = none ∧
        Accounted plainTarget (streamRows [.block twoRows]).length count trace ∧ Requests trace)
      Requests [] :=
  chdbCopyReceive_accounted (plainExecutor (plainRelation 1)) cellsAsIs plainTarget
    [.block twoRows] (readerOver [.block twoRows]) (readerOver_reads (by decide))
    (List.cons_ne_nil _ _)

end PgChdb
