import PgChdb.Ereport
import PgChdb.Lib.Fallible

namespace PgChdb

open CText Fallible

/-!
# Reading the helper's Native blocks

`source_next` pulls one block at a time out of the helper's output and remembers the
first failure; the vendored `pgch_reader` turns the blocks into rows; three consumers
loop over the rows.

* `sourceNext` — the block source, with its sticky error;
* `PgchReader` — what the reader answers the code that drives it.  The reader itself is
  not under `src/`: `PgchReader.Reads` states what it is relied on for over one source;
* `streamBlocks`, `streamRows`, `streamError` — a stream as the source will read it, and
  `drains_sourceFor`: what is left of it once the source has been read to its end;
* `chdbNativeDescribe` — the consumer behind `DESCRIBE`.
-/

variable {γ κ δ : Type}

/-! ### The block source -/

/-- A decoded block: at least one column, rows as lists of cells. -/
structure NativeBlock (γ : Type) where
  nCols : ℕ
  rows : List (List γ)
  nCols_pos : 0 < nCols

/-- The outcome of one `chc_block_read`: a block, the end of the stream, or a failure with
    the message it left in `err.msg`. -/
inductive BlockRead (γ : Type) where
  | block (b : NativeBlock γ)
  | eos
  | failed (msg : Bytes)

/-- `nativeSource`: the outcomes still to come, past the last of which the stream has
    ended, and the error of the first read that failed. -/
structure NativeSource (γ : Type) where
  input : List (BlockRead γ)
  error : Option Bytes

/-- The source `source_for` sets up over a stream. -/
def sourceFor (input : List (BlockRead γ)) : NativeSource γ := { input, error := none }

/-- `err.msg[0] ? err.msg : "chDB block could not be read"`. -/
def blockError (msg : Bytes) : Bytes :=
  if msg = [] then lit "chDB block could not be read" else msg

/-- `source_next`: the next block, or none at the end of the stream and after a failure. -/
def sourceNext (s : NativeSource γ) : Option (NativeBlock γ) × NativeSource γ :=
  match s.error, s.input with
  | some _, _ => (none, s)
  | none, [] => (none, s)
  | none, .block b :: rest => (some b, { s with input := rest })
  | none, .eos :: rest => (none, { s with input := rest })
  | none, .failed msg :: rest => (none, { input := rest, error := some (blockError msg) })

/-- Calling `source_next` until it yields no block gives `blocks` and leaves the source in
    state `t`. -/
inductive Drains : NativeSource γ → List (NativeBlock γ) → NativeSource γ → Prop where
  | done {s t} : sourceNext s = (none, t) → Drains s [] t
  | block {s s' t b bs} : sourceNext s = (some b, s') → Drains s' bs t → Drains s (b :: bs) t

/-! ### A stream, read to its end -/

/-- The blocks before the stream ends or cannot be read. -/
def streamBlocks : List (BlockRead γ) → List (NativeBlock γ)
  | .block b :: rest => b :: streamBlocks rest
  | _ => []

/-- The rows of those blocks, in order. -/
def streamRows (input : List (BlockRead γ)) : List (List γ) :=
  (streamBlocks input).flatMap NativeBlock.rows

/-- The error the stream ends in, if it does. -/
def streamError : List (BlockRead γ) → Option Bytes
  | .block _ :: rest => streamError rest
  | .failed msg :: _ => some (blockError msg)
  | _ => none

/-- Reading a stream to its end gives its blocks, and the error it ends in stays behind. -/
theorem drains_sourceFor {input : List (BlockRead γ)} {blocks : List (NativeBlock γ)}
    {t : NativeSource γ} (h : Drains (sourceFor input) blocks t) :
    blocks = streamBlocks input ∧ t.error = streamError input := by
  induction input generalizing blocks with
  | nil =>
    cases h with
    | done hs => cases hs; exact ⟨rfl, rfl⟩
    | block hs _ => cases hs
  | cons r rest ih =>
    cases r with
    | block b =>
      cases h with
      | done hs => cases hs
      | block hs ht =>
        cases hs
        obtain ⟨hb, he⟩ := ih ht
        exact ⟨by rw [hb]; rfl, he⟩
    | eos =>
      cases h with
      | done hs => cases hs; exact ⟨rfl, rfl⟩
      | block hs _ => cases hs
    | failed msg =>
      cases h with
      | done hs => cases hs; exact ⟨rfl, rfl⟩
      | block hs _ => cases hs

/-- Every stream can be read to its end. -/
theorem exists_drains_sourceFor (input : List (BlockRead γ)) :
    ∃ t, Drains (sourceFor input) (streamBlocks input) t := by
  induction input with
  | nil => exact ⟨_, .done rfl⟩
  | cons r rest ih =>
    cases r with
    | block b => obtain ⟨t, ht⟩ := ih; exact ⟨t, .block rfl ht⟩
    | eos => exact ⟨_, .done rfl⟩
    | failed msg => exact ⟨_, .done rfl⟩

/-! ### The vendored reader -/

/-- What `pgch_reader` answers over one source: `reader.error` after `pgch_reader_init`,
    `pgch_reader_columns`, the rows at which `pgch_reader_next` returns true (one call
    each, after which it returns false), and `reader.error` from then on. -/
structure PgchReader (γ : Type) where
  initError : Option Bytes
  columns : ℕ
  rows : List (List γ)
  error : Option Bytes

/-- What the reader is relied on for.  It reads the source to its end and stops at every
    row in order; `pgch_reader_next` returns false at the end of the stream and on a source
    error alike, and only the second sets `reader.error`.  The first block is read by
    `pgch_reader_init`, which gives the column count, zero when nothing was streamed, and
    every row has a cell for each column. -/
structure PgchReader.Reads (rd : PgchReader γ) (src : NativeSource γ) : Prop where
  width : ∀ row ∈ rd.rows, row.length = rd.columns
  drained : ∃ blocks t, Drains src blocks t ∧ rd.rows = blocks.flatMap NativeBlock.rows ∧
    rd.columns = (blocks.head?.map NativeBlock.nCols).getD 0 ∧
    rd.initError = (if blocks = [] then t.error else none) ∧ rd.error = t.error

/-- The same, in terms of the stream. -/
theorem PgchReader.Reads.stream {rd : PgchReader γ} {input : List (BlockRead γ)}
    (h : rd.Reads (sourceFor input)) :
    rd.rows = streamRows input ∧
      rd.columns = ((streamBlocks input).head?.map NativeBlock.nCols).getD 0 ∧
      rd.initError = (if (streamBlocks input).isEmpty then streamError input else none) ∧
      rd.error = streamError input := by
  obtain ⟨blocks, t, hd, hrows, hcols, hinit, herr⟩ := h.drained
  obtain ⟨rfl, ht⟩ := drains_sourceFor hd
  refine ⟨hrows, hcols, ?_, by rw [herr, ht]⟩
  rw [hinit, ht]
  simp only [List.isEmpty_iff]

/-- The reader that answers from the stream itself. -/
def readerOver (input : List (BlockRead γ)) : PgchReader γ where
  initError := if (streamBlocks input).isEmpty then streamError input else none
  columns := ((streamBlocks input).head?.map NativeBlock.nCols).getD 0
  rows := streamRows input
  error := streamError input

/-- It is such a reader, when the rows are as wide as the first block says. -/
theorem readerOver_reads {input : List (BlockRead γ)}
    (hwidth : ∀ row ∈ streamRows input, row.length = (readerOver input).columns) :
    (readerOver input).Reads (sourceFor input) := by
  obtain ⟨t, ht⟩ := exists_drains_sourceFor input
  have herr := (drains_sourceFor ht).2
  refine ⟨hwidth, _, t, ht, rfl, rfl, ?_, ?_⟩
  · simp only [readerOver, List.isEmpty_iff, herr]
  · simp only [readerOver, herr]

/-- `report_reader_error`. -/
def reportReaderError (error : Bytes) : Ereport where
  errcode := .externalRoutineException
  errmsg := lit "chdb: error fetching chDB query result"
  errdetail := some error

/-! ### `chdb_native_describe` -/

/-- `chdbDescribedColumn`. -/
structure ChdbDescribedColumn where
  name : Bytes
  type : Bytes
  deriving DecidableEq, Repr

/-- One `DESCRIBE` row: a name and a type, neither null.  `text` is `pgch_reader_fill` on
    one cell, none for a null. -/
def describedColumn (text : γ → Option Bytes) (row : List γ) : Raises ChdbDescribedColumn :=
  match row.map text with
  | some name :: some type :: _ => .ok { name, type }
  | _ => .error { errcode := .badCopyFileFormat
                  errmsg := lit "chdb: DESCRIBE produced a column with no name or type" }

/-- `chdb_native_describe`: the columns the rows name, unless the reader stopped on an
    error. -/
def chdbNativeDescribe (text : γ → Option Bytes) (rd : PgchReader γ) :
    Raises (List ChdbDescribedColumn) := do
  raiseSome rd.initError reportReaderError
  raiseIf (rd.columns ≠ 2)
    { errcode := .badCopyFileFormat
      errmsg := lit "chdb: DESCRIBE returned " ++ decimal rd.columns ++ lit " columns, expected 2" }
  let columns ← rd.rows.mapM (describedColumn text)
  raiseSome rd.error reportReaderError
  return columns

/-- A `DESCRIBE` that returns has read its stream to the end without an error. -/
theorem chdbNativeDescribe_ok {text : γ → Option Bytes} {rd : PgchReader γ}
    {columns : List ChdbDescribedColumn} (h : chdbNativeDescribe text rd = .ok columns) :
    rd.error = none ∧
      List.Forall₂ (fun row col => describedColumn text row = .ok col) rd.rows columns := by
  simp only [chdbNativeDescribe, bind_eq_ok, raiseSome_eq_ok, raiseIf_eq_ok, mapM_eq_ok_iff,
    pure_eq_ok] at h
  obtain ⟨_, _, _, _, cols, hcols, _, herr, rfl⟩ := h
  exact ⟨herr, hcols⟩

end PgChdb
