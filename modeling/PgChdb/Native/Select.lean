import PgChdb.Native.Convert

namespace PgChdb

open CText Fallible

/-!
# `chdb_query`: rows into the tuplestore

`chdb_select_receive` puts every row the reader stops at into the tuplestore.  Unlike
`chdb_copy_receive` and `chdb_native_describe` it does not look at `reader.error` after the
last row, and `pgch_reader_next` returns false on a block that cannot be read just as it
does at the end of the stream.

* `chdbSelectReceive` — the function, giving the tuplestore it returns with;
* `chdbSelectReceive_ok_iff` — what a normal return says;
* `EndsInBadBlock` — the streams whose error the function reaches and does not report;
* `chdbSelectReceive_complete_iff` — on all the others a normal return stored every row.
-/

variable {γ κ δ : Type}

/-- One turn of the loop: convert the row over the previous one's values and put the
    result in the tuplestore. -/
def putRow (conv : PgchConvert γ κ δ) (states : List κ)
    (st : List (Option δ) × List (List (Option δ))) (row : List γ) :
    Raises (List (Option δ) × List (List (Option δ))) := do
  let values ← fillMap conv states (List.range st.1.length) row st.1
  return (values, st.2 ++ [values])

/-- `chdb_select_receive`, as the tuplestore it returns with. -/
def chdbSelectReceive (conv : PgchConvert γ κ δ) (tupdesc : List FormPgAttribute)
    (rd : PgchReader γ) : Raises (List (List (Option δ))) := do
  raiseSome rd.initError reportReaderError
  if rd.columns = 0 then
    -- Nothing streamed at all, so there is no schema to check.
    return []
  raiseIf (rd.columns ≠ tupdesc.length)
    { errcode := .badCopyFileFormat
      errmsg := lit "chdb: chDB returned " ++ decimal rd.columns ++ lit " columns, expected " ++
        decimal tupdesc.length }
  let states ← convertStates conv tupdesc
  let st ← rd.rows.foldlM (putRow conv states) (List.replicate tupdesc.length none, [])
  return st.2

/-! ### What the loop stores -/

/-- A conversion that succeeds gives one state per attribute. -/
theorem convertStates_length {conv : PgchConvert γ κ δ} {attrs : List FormPgAttribute}
    {states : List κ} (h : convertStates conv attrs = .ok states) :
    states.length = attrs.length := by
  have hlen := (mapM_eq_ok_iff.mp h).length_eq
  simpa using hlen.symm

/-- A conversion that succeeds gives one value per column. -/
theorem convertRow_length {conv : PgchConvert γ κ δ} {states : List κ} {row : List γ}
    {values : List (Option δ)} (hlen : states.length = row.length)
    (h : convertRow conv states row = .ok values) : values.length = row.length := by
  have h' := (mapM_eq_ok_iff.mp h).length_eq
  simp only [List.length_zip, hlen, Nat.min_self] at h'
  exact h'.symm

/-- The loop stores the converted rows in order, whatever the value array held, and raises
    exactly when one of them does not convert. -/
theorem foldlM_putRow_eq_ok {conv : PgchConvert γ κ δ} {states : List κ} {rows : List (List γ)}
    (hrows : ∀ row ∈ rows, row.length = states.length) (vals : List (Option δ))
    (hvals : vals.length = states.length) (pre : List (List (Option δ)))
    {stored : List (List (Option δ))} :
    (∃ vals', rows.foldlM (putRow conv states) (vals, pre) = .ok (vals', stored)) ↔
      ∃ tuples, stored = pre ++ tuples ∧
        List.Forall₂ (fun row tup => convertRow conv states row = .ok tup) rows tuples := by
  induction rows generalizing vals pre with
  | nil =>
    simp only [List.foldlM_nil, pure_eq_ok, Prod.mk.injEq, List.forall₂_nil_left_iff]
    constructor
    · rintro ⟨_, _, rfl⟩; exact ⟨[], by simp, rfl⟩
    · rintro ⟨_, rfl, rfl⟩; exact ⟨vals, rfl, by simp⟩
  | cons row rows ih =>
    have hrow : row.length = states.length := hrows row List.mem_cons_self
    have hrest : ∀ r ∈ rows, r.length = states.length :=
      fun r hr => hrows r (List.mem_cons_of_mem row hr)
    have hfill : fillMap conv states (List.range vals.length) row vals
        = convertRow conv states row :=
      fillMap_range conv states row vals hvals.symm (hrow.trans hvals.symm)
    simp only [List.foldlM_cons, bind_eq_ok, putRow, hfill, pure_eq_ok]
    constructor
    · rintro ⟨vals', st, ⟨values, hvalues, rfl⟩, hloop⟩
      have hlen : values.length = states.length := (convertRow_length hrow.symm hvalues).trans hrow
      obtain ⟨tuples, rfl, hall⟩ := (ih hrest values hlen _).mp ⟨vals', hloop⟩
      exact ⟨values :: tuples, by simp, List.Forall₂.cons hvalues hall⟩
    · rintro ⟨tuples, rfl, hall⟩
      obtain ⟨values, tuples', hvalues, hall', rfl⟩ := List.forall₂_cons_left_iff.mp hall
      have hlen : values.length = states.length := (convertRow_length hrow.symm hvalues).trans hrow
      obtain ⟨vals', hloop⟩ :=
        (ih hrest values hlen (pre ++ [values])).mpr ⟨tuples', by simp, hall'⟩
      exact ⟨vals', _, ⟨values, hvalues, rfl⟩, hloop⟩

/-- The tuplestore holds the converted rows, one tuple each, in order. -/
def Stored (conv : PgchConvert γ κ δ) (tupdesc : List FormPgAttribute) (rows : List (List γ))
    (stored : List (List (Option δ))) : Prop :=
  List.Forall₂ (fun row tup => ∃ states, convertStates conv tupdesc = .ok states ∧
    convertRow conv states row = .ok tup) rows stored

/-- What a normal return says: nothing was streamed, or the columns match and every row the
    reader stopped at was stored.  The reader's final error is not among it. -/
theorem chdbSelectReceive_ok_iff {conv : PgchConvert γ κ δ} {tupdesc : List FormPgAttribute}
    {rd : PgchReader γ} (hwidth : ∀ row ∈ rd.rows, row.length = rd.columns)
    {stored : List (List (Option δ))} :
    chdbSelectReceive conv tupdesc rd = .ok stored ↔
      rd.initError = none ∧ ((rd.columns = 0 ∧ stored = []) ∨
        (rd.columns ≠ 0 ∧ rd.columns = tupdesc.length ∧
          ∃ states, convertStates conv tupdesc = .ok states ∧
            List.Forall₂ (fun row tup => convertRow conv states row = .ok tup)
              rd.rows stored)) := by
  unfold chdbSelectReceive
  by_cases h0 : rd.columns = 0
  · simp only [bind_eq_ok, raiseSome_eq_ok, h0, if_true, pure_eq_ok, ne_eq, not_true_eq_false,
      false_and, or_false, true_and]
    constructor
    · rintro ⟨_, hinit, rfl⟩; exact ⟨hinit, rfl⟩
    · rintro ⟨hinit, rfl⟩; exact ⟨(), hinit, rfl⟩
  · simp only [bind_eq_ok, raiseSome_eq_ok, raiseIf_eq_ok, h0, if_false, pure_eq_ok, not_not,
      false_and, false_or, ne_eq, not_false_eq_true, true_and]
    constructor
    · rintro ⟨_, hinit, _, hcols, states, hstates, ⟨vals', tuples⟩, hloop, rfl⟩
      have hst : states.length = tupdesc.length := convertStates_length hstates
      have hw : ∀ row ∈ rd.rows, row.length = states.length :=
        fun row hr => (hwidth row hr).trans (hcols.trans hst.symm)
      obtain ⟨tuples', htup, hall⟩ := (foldlM_putRow_eq_ok hw _ (by simp [hst]) _).mp ⟨vals', hloop⟩
      rw [List.nil_append] at htup
      exact ⟨hinit, hcols, states, hstates, htup ▸ hall⟩
    · rintro ⟨hinit, hcols, states, hstates, hall⟩
      have hst : states.length = tupdesc.length := convertStates_length hstates
      have hw : ∀ row ∈ rd.rows, row.length = states.length :=
        fun row hr => (hwidth row hr).trans (hcols.trans hst.symm)
      obtain ⟨vals', hloop⟩ := (foldlM_putRow_eq_ok hw (List.replicate tupdesc.length none)
        (by simp [hst]) []).mpr ⟨stored, (List.nil_append stored).symm, hall⟩
      exact ⟨(), hinit, (), hcols, states, hstates, _, hloop, rfl⟩

/-! ### Truncated results -/

/-- The stream ends in an unreadable block that the function reaches: the first block could
    be read and has the declared number of columns, and every row before the bad block
    converts. -/
def EndsInBadBlock (conv : PgchConvert γ κ δ) (tupdesc : List FormPgAttribute)
    (input : List (BlockRead γ)) : Prop :=
  streamError input ≠ none ∧
    (∃ first rest, streamBlocks input = first :: rest ∧ first.nCols = tupdesc.length) ∧
    ∃ states, convertStates conv tupdesc = .ok states ∧
      ∀ row ∈ streamRows input, ∃ tup, convertRow conv states row = .ok tup

/-- **A normal return of `chdb_query` is the whole result, except when the stream ends in an
    unreadable block after the first.**  Then, and only then, the rows before that block
    are returned as if they were all. -/
theorem chdbSelectReceive_complete_iff (conv : PgchConvert γ κ δ)
    (tupdesc : List FormPgAttribute) (input : List (BlockRead γ)) (rd : PgchReader γ)
    (hread : rd.Reads (sourceFor input)) :
    (∀ stored, chdbSelectReceive conv tupdesc rd = .ok stored →
        streamError input = none ∧ Stored conv tupdesc (streamRows input) stored)
      ↔ ¬ EndsInBadBlock conv tupdesc input := by
  obtain ⟨hrows, hcols, hinit, -⟩ := hread.stream
  constructor
  · rintro hall ⟨herr, ⟨first, rest, hblocks, hfirst⟩, states, hstates, hconv⟩
    -- every row converts, so the loop runs to its end and the error is never seen
    obtain ⟨tuples, htuples⟩ : ∃ tuples, List.Forall₂
        (fun row tup => convertRow conv states row = .ok tup) rd.rows tuples := by
      choose! f hf using hconv
      refine ⟨rd.rows.map f, ?_⟩
      rw [List.forall₂_map_right_iff, List.forall₂_same]
      exact fun row hr => hf row (hrows ▸ hr)
    have hn : rd.columns = first.nCols := by rw [hcols, hblocks]; rfl
    have hok : chdbSelectReceive conv tupdesc rd = .ok tuples := by
      refine (chdbSelectReceive_ok_iff hread.width).mpr ⟨?_, Or.inr ⟨?_, hn.trans hfirst, states,
        hstates, htuples⟩⟩
      · rw [hinit, hblocks]; rfl
      · rw [hn]; exact first.nCols_pos.ne'
    exact herr (hall tuples hok).1
  · intro hbad stored hok
    obtain ⟨hnone, ⟨hzero, rfl⟩ | ⟨hpos, hmatch, states, hstates, hall⟩⟩ :=
      (chdbSelectReceive_ok_iff hread.width).mp hok
    · -- no column means no block was read
      have hempty : streamBlocks input = [] := by
        cases hb : streamBlocks input with
        | nil => rfl
        | cons b bs =>
          rw [hcols, hb] at hzero
          exact absurd hzero b.nCols_pos.ne'
      rw [hinit, hempty] at hnone
      refine ⟨hnone, ?_⟩
      rw [streamRows, hempty]
      exact List.Forall₂.nil
    · refine ⟨?_, ?_⟩
      · by_contra herr
        refine hbad ⟨herr, ?_, states, hstates, ?_⟩
        · cases hb : streamBlocks input with
          | nil => rw [hcols, hb] at hpos; exact absurd rfl hpos
          | cons b bs => rw [hcols, hb] at hmatch; exact ⟨b, bs, rfl, hmatch⟩
        · intro row hr
          rw [← hrows] at hr
          obtain ⟨tup, -, htup⟩ := exists_of_forall₂ hall hr
          exact ⟨tup, htup⟩
      · rw [← hrows]
        exact hall.imp fun row tup h => ⟨states, hstates, h⟩

/-! ### Two streams -/

/-- A result of one `integer` column. -/
def oneColumn : List FormPgAttribute := [intAttribute (lit "n")]

/-- The helper dies in the middle of the second block: `chdb_query` returns the rows of the
    first, and no error, where `DESCRIBE` and `COPY` would have raised. -/
theorem chdbSelectReceive_truncates :
    let input := [BlockRead.block twoRows, BlockRead.failed (lit "unexpected end of stream")]
    (readerOver input).Reads (sourceFor input) ∧
      chdbSelectReceive cellsAsIs oneColumn (readerOver input) = .ok [[some 1], [some 2]] ∧
      streamError input = some (lit "unexpected end of stream") ∧
      (readerOver input).error = some (lit "unexpected end of stream") :=
  ⟨readerOver_reads (by decide), by decide, by decide, by decide⟩

/-- Two good blocks: everything is returned. -/
theorem chdbSelectReceive_complete_twoBlocks :
    streamRows [.block twoRows, .block twoRows, .eos] = [[1], [2], [1], [2]] ∧
      ∀ stored, chdbSelectReceive cellsAsIs oneColumn
          (readerOver [.block twoRows, .block twoRows, .eos]) = .ok stored →
        streamError [.block twoRows, .block twoRows, .eos] = none ∧
          Stored cellsAsIs oneColumn (streamRows [.block twoRows, .block twoRows, .eos])
            stored := by
  refine ⟨rfl, (chdbSelectReceive_complete_iff cellsAsIs oneColumn
    [.block twoRows, .block twoRows, .eos] (readerOver [.block twoRows, .block twoRows, .eos])
    (readerOver_reads (by decide))).mpr ?_⟩
  rintro ⟨herr, -⟩
  exact herr rfl

end PgChdb
