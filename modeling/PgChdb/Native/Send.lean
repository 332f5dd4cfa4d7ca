import PgChdb.Native.Convert
import PgChdb.Native.Writer

namespace PgChdb

open CText Fallible

/-!
# `chdb_copy_send`: a scan into the helper's channel

Three buffers stand between a row and the channel.  The writer holds rows until they are
worth a block, the sink holds the encoder's small writes, and `write_all` holds what the
channel did not take.  Each decides for itself when to pass something on, and none of the
decisions depends on an answer, except that any call may raise and end the function.  So
`chdb_copy_send` is here the list of the calls it makes, and a run makes them one after the
other until one raises.

* `NativeSink` — the sink, which carries its bound;
* `sinkFlush`, `sinkWrite`, `sendBlock`, `appendSlot`, `sendRow`, `chdbCopySend` — the code;
* `writeAll`, `chdbHelperWrite`, `runCalls` — a run over what the channel answers;
* `SendState.passed` — what has been passed to the sink, whichever buffer it is in, and what
  each function adds to it;
* `chdbCopySend_delivers` — the channel gets the scan, in blocks.
-/

variable {T δ : Type}

/-! ### The writer and the sink -/

/-- `CHDB_NATIVE_BLOCK_BYTES`. -/
def nativeBlockBytes : ℕ := 8 * 1024 * 1024

/-- `CHDB_NATIVE_SINK_BYTES`. -/
def nativeSinkBytes : ℕ := 256 * 1024

/-- `CHDB_NATIVE_SINK_DIRECT`. -/
def nativeSinkDirect : ℕ := 16 * 1024

/-- A `pgch_writer`: its columns, and the values appended to each since the last reset. -/
structure PgchWriter (T δ : Type) where
  cols : List (Bytes × T)
  data : List (List (Option δ))

/-- `pgch_writer_rows`. -/
def PgchWriter.rows (w : PgchWriter T δ) : ℕ := (w.data.headD []).length

/-- `pgch_writer_reset`. -/
def PgchWriter.reset (w : PgchWriter T δ) : PgchWriter T δ :=
  { w with data := w.data.map fun _ => [] }

/-- The vendored encoder: the size `pgch_writer_bytes` reports, and the writes
    `chc_block_write` makes for a block of these columns. -/
structure Encoder (T δ : Type) where
  bytes : List (Bytes × T) → List (List (Option δ)) → ℕ
  blockWrites : List (Bytes × T) → List (List (Option δ)) → List Bytes

/-- `nativeSink`; the length of `buf` is its `len`. -/
structure NativeSink where
  buf : Bytes
  fits : buf.length ≤ nativeSinkBytes

/-- The sink `sink_for` makes. -/
def NativeSink.empty : NativeSink := { buf := [], fits := Nat.zero_le _ }

/-- Everything `chdb_copy_send` calls that may raise, and the copies into the sink's buffer,
    with the offset they go to. -/
inductive SendCall (δ : Type) where
  | checkForInterrupts
  | appendDatum (col : ℕ) (value : Option δ) (atttypid : ℕ)
  | writerBuild (data : List (List (Option δ)))
  | memcpy (pos : ℕ) (p : Bytes)
  | helperWrite (p : Bytes)
  | blockWritten
  deriving DecidableEq, Repr

/-- The function's state, and the calls it has made. -/
structure SendState (T δ : Type) where
  writer : PgchWriter T δ
  sink : NativeSink
  rows : ℕ
  calls : List (SendCall δ)

namespace SendState

def call (s : SendState T δ) (c : SendCall δ) : SendState T δ :=
  { s with calls := s.calls ++ [c] }

/-- `sink_flush`. -/
def sinkFlush (s : SendState T δ) : SendState T δ :=
  if s.sink.buf.length ≠ 0 then
    { s.call (.helperWrite s.sink.buf) with sink := .empty }
  else s

theorem sinkFlush_sink (s : SendState T δ) : s.sinkFlush.sink.buf = [] := by
  unfold sinkFlush
  split
  · rfl
  · rename_i h
    exact List.length_eq_zero_iff.mp (not_not.mp h)

/-- The `memcpy` at the end of `sink_write`, into a buffer with room for it. -/
def sinkCopy (s : SendState T δ) (p : Bytes)
    (room : s.sink.buf.length + p.length ≤ nativeSinkBytes) : SendState T δ :=
  { s.call (.memcpy s.sink.buf.length p) with
    sink := { buf := s.sink.buf ++ p, fits := by rwa [List.length_append] } }

/-- `sink_write`. -/
def sinkWrite (s : SendState T δ) (p : Bytes) : SendState T δ :=
  if hdirect : nativeSinkDirect ≤ p.length then
    -- send buffered bytes first
    s.sinkFlush.call (.helperWrite p)
  else if hfull : s.sink.buf.length + p.length > nativeSinkBytes then
    s.sinkFlush.sinkCopy p (by
      rw [sinkFlush_sink, List.length_nil]
      unfold nativeSinkDirect at hdirect
      unfold nativeSinkBytes
      omega)
  else
    s.sinkCopy p (by omega)

/-- `chc_block_write` of what the writer has built, with the check of what it returns. -/
def blockWrite (enc : Encoder T δ) (s : SendState T δ) : SendState T δ :=
  let built := s.call (.writerBuild s.writer.data)
  ((enc.blockWrites s.writer.cols s.writer.data).foldl sinkWrite built).call .blockWritten

/-- `pgch_writer_reset` on the function's writer. -/
def writerReset (s : SendState T δ) : SendState T δ := { s with writer := s.writer.reset }

/-- `send_block`. -/
def sendBlock (enc : Encoder T δ) (s : SendState T δ) : SendState T δ :=
  (s.blockWrite enc).writerReset.sinkFlush

/-- One `pgch_append_datum`. -/
def appendDatum (s : SendState T δ) (col : ℕ) (value : Option δ) (atttypid : ℕ) :
    SendState T δ :=
  { s.call (.appendDatum col value atttypid) with
    writer := { s.writer with data := s.writer.data.modify col (· ++ [value]) } }

end SendState

/-- `slot->tts_values[attnum - 1]`, or none where `tts_isnull` is set. -/
def slotValue (row : List (Option δ)) (attnum : ℕ) : Option δ := row.getD (attnum - 1) none

/-- `TupleDescAttr(desc, attnum - 1)->atttypid`. -/
def attrType (attrs : List FormPgAttribute) (attnum : ℕ) : ℕ :=
  (attrs.getD (attnum - 1) (intAttribute [])).atttypid

namespace SendState

/-- `append_slot`. -/
def appendSlot (attrs : List FormPgAttribute) (attnums : List ℕ) (s : SendState T δ)
    (row : List (Option δ)) : SendState T δ :=
  attnums.zipIdx.foldl
    (fun s p => s.appendDatum p.2 (slotValue row p.1) (attrType attrs p.1)) s

/-- The body of the scan loop. -/
def sendRow (enc : Encoder T δ) (attrs : List FormPgAttribute) (attnums : List ℕ)
    (s : SendState T δ) (row : List (Option δ)) : SendState T δ :=
  let s := (s.call .checkForInterrupts).appendSlot attrs attnums row
  let s := { s with rows := s.rows + 1 }
  if enc.bytes s.writer.cols s.writer.data ≥ nativeBlockBytes then s.sendBlock enc else s

/-- Rows the scan left short of a cut. -/
def sendRest (enc : Encoder T δ) (s : SendState T δ) : SendState T δ :=
  if s.writer.rows ≠ 0 then s.sendBlock enc else s

/-- The state before the scan, with a writer over `cols`. -/
def start (cols : List (Bytes × T)) : SendState T δ where
  writer := { cols := cols, data := List.replicate cols.length [] }
  sink := .empty
  rows := 0
  calls := []

end SendState

/-- `chdb_copy_send`, over the rows of the scan: the calls it makes, and in `rows` what it
    returns. -/
def chdbCopySend (enc : Encoder T δ) (parseTuple : Bytes → Raises (List (Option Bytes × T)))
    (clause : Bytes) (attrs : List FormPgAttribute) (attnums : List ℕ)
    (scan : List (List (Option δ))) : Raises (SendState T δ) := do
  let cols ← writerFor parseTuple clause attnums.length
  return (scan.foldl (SendState.sendRow enc attrs attnums) (.start cols)).sendRest enc

/-! ### A run -/

/-- What a turn of `write_all` comes to: `write` takes up to so many bytes, would block, is
    interrupted or fails for good; or the check for interrupts before it raises. -/
inductive WriteAnswer where
  | put (n : ℕ)
  | eagain
  | eintr
  | error
  | interrupt
  deriving DecidableEq, Repr

/-- How `write_all` stands when the answers end: it has returned, has raised, or waits for the
    next. -/
inductive WriteEnd where
  | returns (ok : Bool)
  | raises
  | waits
  deriving DecidableEq, Repr

/-- `write_all`: how it ends, the answers it left, and all that the channel has taken, `sent`
    of it before. -/
def writeAll : List WriteAnswer → Bytes → Bytes → WriteEnd × List WriteAnswer × Bytes
  | answers, [], sent => (.returns true, answers, sent)
  | [], _ :: _, sent => (.waits, [], sent)
  | a :: answers, b :: p, sent =>
    match a with
    | .put n =>
      -- at least one byte, when it returns a count at all
      let put := min (max n 1) (p.length + 1)
      writeAll answers ((b :: p).drop put) (sent ++ (b :: p).take put)
    | .eagain => writeAll answers (b :: p) sent
    | .eintr => writeAll answers (b :: p) sent
    | .error => (.returns false, answers, sent)
    | .interrupt => (.raises, answers, sent)

/-- `chdb_helper_write`, which reports a write that cannot go on. -/
def chdbHelperWrite (answers : List WriteAnswer) (p sent : Bytes) :
    WriteEnd × List WriteAnswer × Bytes :=
  match writeAll answers p sent with
  | (.returns false, answers, sent) => (.raises, answers, sent)
  | result => result

/-- One call that does not raise. -/
def runCall : SendCall δ → List WriteAnswer → Bytes → WriteEnd × List WriteAnswer × Bytes
  | .helperWrite p, answers, sent => chdbHelperWrite answers p sent
  | _, answers, sent => (.returns true, answers, sent)

/-- The calls made in order, each of which may raise as `raises` says, given those made
    before it.  How the run ends, and what the channel has taken. -/
def runCalls (raises : List (SendCall δ) → SendCall δ → Bool) :
    List (SendCall δ) → List (SendCall δ) → List WriteAnswer → Bytes → WriteEnd × Bytes
  | _, [], _, sent => (.returns true, sent)
  | made, c :: todo, answers, sent =>
    if raises made c then (.raises, sent)
    else match runCall c answers sent with
      | (.returns _, answers, sent) => runCalls raises (made ++ [c]) todo answers sent
      | (stop, _, sent) => (stop, sent)

/-- The bytes the call hands to the channel. -/
def SendCall.payload : SendCall δ → Bytes
  | .helperWrite p => p
  | _ => []

/-- The bytes the calls hand to the channel. -/
def written (calls : List (SendCall δ)) : Bytes := calls.flatMap SendCall.payload

theorem written_append (calls calls' : List (SendCall δ)) :
    written (calls ++ calls') = written calls ++ written calls' := List.flatMap_append

theorem written_singleton (c : SendCall δ) : written [c] = c.payload := by
  simp [written]

/-- `write_all` is done only when the channel has taken all of it, in order and once. -/
theorem writeAll_done {answers rest : List WriteAnswer} {p sent sent' : Bytes}
    (h : writeAll answers p sent = (.returns true, rest, sent')) : sent' = sent ++ p := by
  induction answers generalizing p sent with
  | nil =>
    cases p with
    | nil =>
      simp only [writeAll, Prod.mk.injEq] at h
      rw [List.append_nil]
      exact h.2.2.symm
    | cons b p => simp [writeAll] at h
  | cons a answers ih =>
    cases p with
    | nil =>
      simp only [writeAll, Prod.mk.injEq] at h
      rw [List.append_nil]
      exact h.2.2.symm
    | cons b p =>
      cases a with
      | put n =>
        -- what was taken goes to `sent`, the rest is still to be written
        rw [ih h, List.append_assoc, List.take_append_drop]
      | eagain => exact ih h
      | eintr => exact ih h
      | error => simp [writeAll] at h
      | interrupt => simp [writeAll] at h

theorem chdbHelperWrite_done {answers rest : List WriteAnswer} {p sent sent' : Bytes} {ok : Bool}
    (h : chdbHelperWrite answers p sent = (.returns ok, rest, sent')) : sent' = sent ++ p := by
  unfold chdbHelperWrite at h
  split at h
  · simp at h
  · rename_i hnot
    cases ok with
    | true => exact writeAll_done h
    | false => exact absurd h (hnot _ _)

theorem runCall_done {c : SendCall δ} {answers rest : List WriteAnswer} {sent sent' : Bytes}
    {ok : Bool} (h : runCall c answers sent = (.returns ok, rest, sent')) :
    sent' = sent ++ c.payload := by
  cases c with
  | helperWrite p => exact chdbHelperWrite_done h
  | _ =>
    -- nothing else hands anything to the channel
    simp only [runCall, Prod.mk.injEq] at h
    rw [← h.2.2]
    exact (List.append_nil sent).symm

/-- A run that returns has made every call. -/
theorem runCalls_returns {raises : List (SendCall δ) → SendCall δ → Bool}
    {made todo : List (SendCall δ)} {answers : List WriteAnswer} {sent sent' : Bytes} {ok : Bool}
    (h : runCalls raises made todo answers sent = (.returns ok, sent')) :
    sent' = sent ++ written todo := by
  induction todo generalizing made answers sent with
  | nil =>
    simp only [runCalls, Prod.mk.injEq] at h
    rw [← h.2]
    exact (List.append_nil sent).symm
  | cons c todo ih =>
    rw [runCalls] at h
    split at h
    · simp at h
    · split at h
      · rename_i hcall
        rw [ih h, runCall_done hcall, List.append_assoc]
        rfl
      · rename_i hnot _
        cases h
        exact (hnot ok rfl).elim

/-! ### What passes through the sink -/

namespace SendState

variable {enc : Encoder T δ} {attrs : List FormPgAttribute} {attnums : List ℕ}

/-- The bytes handed to the channel, and those still in the sink. -/
def passed (s : SendState T δ) : Bytes := written s.calls ++ s.sink.buf

/-- Every copy so far went into the sink's buffer. -/
def CopiesFit (s : SendState T δ) : Prop :=
  ∀ pos p, .memcpy pos p ∈ s.calls → pos + p.length ≤ nativeSinkBytes

/-- What a part of the code may do between the writer and the channel: pass `p` on, and
    nothing else. -/
structure Passes (s s' : SendState T δ) (p : Bytes) : Prop where
  passed : s'.passed = s.passed ++ p
  writer : s'.writer = s.writer
  rows : s'.rows = s.rows
  fit : s.CopiesFit → s'.CopiesFit

theorem Passes.refl (s : SendState T δ) : s.Passes s [] :=
  ⟨(List.append_nil _).symm, rfl, rfl, id⟩

theorem Passes.trans {s s' s'' : SendState T δ} {p q : Bytes} (h : s.Passes s' p)
    (h' : s'.Passes s'' q) : s.Passes s'' (p ++ q) where
  passed := by rw [h'.passed, h.passed, List.append_assoc]
  writer := h'.writer.trans h.writer
  rows := h'.rows.trans h.rows
  fit := fun hfit => h'.fit (h.fit hfit)

/-- Another call leaves the copies within bounds. -/
theorem CopiesFit.call {s : SendState T δ} {c : SendCall δ} (h : s.CopiesFit)
    (hc : ∀ pos p, c = .memcpy pos p → pos + p.length ≤ nativeSinkBytes) :
    (s.call c).CopiesFit := by
  intro pos p hmem
  rcases List.mem_append.mp hmem with hold | hnew
  · exact h pos p hold
  · exact hc pos p (List.mem_singleton.mp hnew).symm

/-- A call that hands nothing to the channel. -/
theorem call_passes (s : SendState T δ) {c : SendCall δ} (hc : c.payload = [])
    (hcopy : ∀ pos p, c ≠ .memcpy pos p) : s.Passes (s.call c) [] where
  passed := by
    show written (s.calls ++ [c]) ++ s.sink.buf = _
    rw [written_append, written_singleton, hc, List.append_nil, List.append_nil]
    rfl
  writer := rfl
  rows := rfl
  fit := fun h => h.call fun pos p he => absurd he (hcopy pos p)

/-- A flush moves the bytes on, which are behind all those passed before. -/
theorem sinkFlush_passes (s : SendState T δ) : s.Passes s.sinkFlush [] := by
  unfold sinkFlush
  split
  · refine ⟨?_, rfl, rfl, ?_⟩
    · show written (s.calls ++ [.helperWrite s.sink.buf]) ++ [] = _
      rw [written_append, written_singleton, List.append_nil, List.append_nil]
      rfl
    · intro h
      refine CopiesFit.call h ?_
      rintro _ _ ⟨⟩
  · exact Passes.refl s

/-- A direct write is in order only behind an empty sink. -/
theorem direct_passes {s : SendState T δ} (hempty : s.sink.buf = []) (p : Bytes) :
    s.Passes (s.call (.helperWrite p)) p where
  passed := by
    show written (s.calls ++ [.helperWrite p]) ++ s.sink.buf = (written s.calls ++ s.sink.buf) ++ p
    rw [written_append, written_singleton, hempty, List.append_nil, List.append_nil]
    rfl
  writer := rfl
  rows := rfl
  fit := by
    intro h
    apply h.call
    rintro _ _ ⟨⟩

theorem sinkCopy_passes (s : SendState T δ) (p : Bytes)
    (room : s.sink.buf.length + p.length ≤ nativeSinkBytes) :
    s.Passes (s.sinkCopy p room) p where
  passed := by
    show written (s.calls ++ [.memcpy s.sink.buf.length p]) ++ (s.sink.buf ++ p) = _
    rw [written_append, written_singleton, ← List.append_assoc]
    exact congrArg (· ++ s.sink.buf ++ p) (List.append_nil _)
  writer := rfl
  rows := rfl
  fit := by
    intro h pos q hmem
    refine h.call ?_ pos q hmem
    rintro _ _ ⟨⟩
    exact room

theorem sinkWrite_passes (s : SendState T δ) (p : Bytes) : s.Passes (s.sinkWrite p) p := by
  unfold sinkWrite
  split
  · exact s.sinkFlush_passes.trans (direct_passes s.sinkFlush_sink p)
  · split
    · exact s.sinkFlush_passes.trans (sinkCopy_passes _ _ _)
    · exact sinkCopy_passes _ _ _

/-- The writes of a block, whatever their sizes. -/
theorem sinkWrites_passes (s : SendState T δ) (ps : List Bytes) :
    s.Passes (ps.foldl sinkWrite s) ps.flatten := by
  induction ps generalizing s with
  | nil => exact Passes.refl s
  | cons p ps ih => exact (s.sinkWrite_passes p).trans (ih _)

/-- The encoding of a block, with all its writes. -/
def encoding (enc : Encoder T δ) (cols : List (Bytes × T)) (data : List (List (Option δ))) :
    Bytes := (enc.blockWrites cols data).flatten

/-- What is known after `send_block`: the block has been passed on, all of it, and the sink
    is empty again. -/
structure Sent (enc : Encoder T δ) (s s' : SendState T δ) : Prop where
  passed : s'.passed = s.passed ++ encoding enc s.writer.cols s.writer.data
  writer : s'.writer = s.writer.reset
  sink : s'.sink.buf = []
  rows : s'.rows = s.rows
  fit : s.CopiesFit → s'.CopiesFit

theorem blockWrite_passes (s : SendState T δ) :
    s.Passes (s.blockWrite enc) (encoding enc s.writer.cols s.writer.data) := by
  have hbuilt : s.Passes (s.call (.writerBuild s.writer.data)) [] :=
    s.call_passes rfl fun _ _ => nofun
  have hwrites := hbuilt.trans (sinkWrites_passes _ (enc.blockWrites s.writer.cols s.writer.data))
  have hwritten := hwrites.trans (call_passes _ (c := .blockWritten) rfl fun _ _ => nofun)
  rwa [List.nil_append, List.append_nil] at hwritten

theorem sendBlock_sent (s : SendState T δ) : s.Sent enc (s.sendBlock enc) := by
  have hwrite : s.Passes (s.blockWrite enc) _ := s.blockWrite_passes
  have hflush := (s.blockWrite enc).writerReset.sinkFlush_passes
  refine ⟨?_, ?_, sinkFlush_sink _, hflush.rows.trans hwrite.rows, ?_⟩
  · show (s.blockWrite enc).writerReset.sinkFlush.passed = _
    rw [hflush.passed, List.append_nil, ← hwrite.passed]
    rfl
  · rw [← hwrite.writer]
    exact hflush.writer
  · exact fun hfit => hflush.fit (hwrite.fit hfit)

end SendState

/-! ### The rows in the writer -/

/-- Column `k` of a block of these rows is attribute `attnums[k]` of each. -/
def blockColumns (attnums : List ℕ) (part : List (List (Option δ))) : List (List (Option δ)) :=
  attnums.map fun n => part.map fun row => slotValue row n

theorem blockColumns_nil (attnums : List ℕ) :
    blockColumns attnums ([] : List (List (Option δ))) = List.replicate attnums.length [] := by
  simp [blockColumns, List.map_const']

theorem blockColumns_append (attnums : List ℕ) (part : List (List (Option δ)))
    (row : List (Option δ)) : blockColumns attnums (part ++ [row]) =
      (blockColumns attnums part).zipWith (fun col v => col ++ [v])
        (attnums.map (slotValue row)) := by
  unfold blockColumns
  rw [List.zipWith_map]
  simp [List.zipWith_self]

theorem blockColumns_reset (attnums : List ℕ) (part : List (List (Option δ))) :
    (blockColumns attnums part).map (fun _ => []) =
      blockColumns attnums ([] : List (List (Option δ))) := by
  rw [blockColumns_nil, List.map_const', blockColumns, List.length_map]

/-- With a column at all, the writer counts the rows. -/
theorem blockColumns_rows {attnums : List ℕ} (hne : attnums ≠ [])
    (part : List (List (Option δ))) :
    ((blockColumns attnums part).headD []).length = part.length := by
  obtain ⟨n, ns, rfl⟩ := List.exists_cons_of_ne_nil hne
  exact List.length_map _

namespace SendState

variable {enc : Encoder T δ} {attrs : List FormPgAttribute} {attnums : List ℕ}

/-- What the appends of a row leave as it is. -/
structure Appends (s s' : SendState T δ) : Prop where
  cols : s'.writer.cols = s.writer.cols
  passed : s'.passed = s.passed
  sink : s'.sink = s.sink
  rows : s'.rows = s.rows
  fit : s.CopiesFit → s'.CopiesFit

theorem Appends.trans {s s' s'' : SendState T δ} (h : s.Appends s') (h' : s'.Appends s'') :
    s.Appends s'' where
  cols := h'.cols.trans h.cols
  passed := h'.passed.trans h.passed
  sink := h'.sink.trans h.sink
  rows := h'.rows.trans h.rows
  fit := fun hfit => h'.fit (h.fit hfit)

theorem appendDatum_appends (s : SendState T δ) (col : ℕ) (value : Option δ) (atttypid : ℕ) :
    s.Appends (s.appendDatum col value atttypid) := by
  have hcall := s.call_passes (c := .appendDatum col value atttypid) rfl fun _ _ => nofun
  refine ⟨rfl, ?_, rfl, rfl, hcall.fit⟩
  rw [← List.append_nil s.passed]
  exact hcall.passed

/-- The appends from column `k` on leave the columns before it alone and add a value to each
    of the others. -/
theorem appendFrom_spec (row : List (Option δ)) (attnums : List ℕ) (s : SendState T δ)
    (done rest : List (List (Option δ))) (hdata : s.writer.data = done ++ rest)
    (hlen : rest.length = attnums.length) :
    let s' := (attnums.zipIdx done.length).foldl
      (fun s p => s.appendDatum p.2 (slotValue row p.1) (attrType attrs p.1)) s
    s.Appends s' ∧ s'.writer.data =
      done ++ rest.zipWith (fun col v => col ++ [v]) (attnums.map (slotValue row)) := by
  induction attnums generalizing s done rest with
  | nil =>
    obtain rfl := List.length_eq_zero_iff.mp hlen
    exact ⟨⟨rfl, rfl, rfl, rfl, id⟩, hdata⟩
  | cons n ns ih =>
    obtain ⟨col, rest, rfl⟩ := List.exists_cons_of_length_eq_add_one hlen
    have hmod : (s.appendDatum done.length (slotValue row n) (attrType attrs n)).writer.data
        = (done ++ [col ++ [slotValue row n]]) ++ rest := by
      show s.writer.data.modify done.length (· ++ [slotValue row n]) = _
      rw [hdata, List.append_assoc]
      exact List.modifyTailIdx_add (List.modifyHead (· ++ [slotValue row n])) 0 done (col :: rest)
    have hnext := ih _ (done ++ [col ++ [slotValue row n]]) rest hmod (by simpa using hlen)
    rw [List.length_append, List.length_singleton] at hnext
    refine ⟨(s.appendDatum_appends _ _ _).trans hnext.1, hnext.2.trans ?_⟩
    rw [List.append_assoc]
    rfl

/-- `append_slot` puts one row behind those in the writer. -/
theorem appendSlot_spec (s : SendState T δ) (row : List (Option δ))
    (part : List (List (Option δ))) (hdata : s.writer.data = blockColumns attnums part) :
    s.Appends (s.appendSlot attrs attnums row) ∧
      (s.appendSlot attrs attnums row).writer.data = blockColumns attnums (part ++ [row]) := by
  have h := @appendFrom_spec T δ attrs row attnums s [] (blockColumns attnums part) hdata
    (List.length_map _)
  rw [blockColumns_append]
  exact h

/-! ### The scan loop -/

/-- After the rows `done`: those of `parts` have been passed on as blocks and the sink is
    empty, those of `rest` are in the writer. -/
structure Holds (enc : Encoder T δ) (cols : List (Bytes × T)) (attnums : List ℕ)
    (done : List (List (Option δ))) (parts : List (List (List (Option δ))))
    (rest : List (List (Option δ))) (s : SendState T δ) : Prop where
  split : parts.flatten ++ rest = done
  nonempty : ∀ part ∈ parts, part ≠ []
  columns : s.writer.cols = cols
  data : s.writer.data = blockColumns attnums rest
  passed : s.passed = parts.flatMap fun part => encoding enc cols (blockColumns attnums part)
  sink : s.sink.buf = []
  rows : s.rows = done.length
  fit : s.CopiesFit

variable {cols : List (Bytes × T)} {done rest : List (List (Option δ))}
  {parts : List (List (List (Option δ)))} {s : SendState T δ}

theorem Holds.init (hlen : cols.length = attnums.length) :
    (SendState.start cols : SendState T δ).Holds enc cols attnums [] [] [] where
  split := rfl
  nonempty := fun _ h => absurd h List.not_mem_nil
  columns := rfl
  data := by rw [blockColumns_nil, ← hlen]; rfl
  passed := rfl
  sink := rfl
  rows := rfl
  fit := fun _ _ h => absurd h List.not_mem_nil

/-- A block takes the rows out of the writer. -/
theorem Holds.block (h : s.Holds enc cols attnums done parts rest) (hrest : rest ≠ []) :
    (s.sendBlock enc).Holds enc cols attnums done (parts ++ [rest]) [] := by
  have hsent : s.Sent enc (s.sendBlock enc) := s.sendBlock_sent
  refine ⟨?_, ?_, ?_, ?_, ?_, hsent.sink, hsent.rows.trans h.rows, hsent.fit h.fit⟩
  · rw [List.flatten_append, List.append_nil, List.flatten_singleton]
    exact h.split
  · intro part hpart
    rcases List.mem_append.mp hpart with hold | hnew
    · exact h.nonempty part hold
    · rwa [List.mem_singleton.mp hnew]
  · rw [hsent.writer]
    exact h.columns
  · rw [hsent.writer, ← blockColumns_reset attnums rest, ← h.data]
    rfl
  · rw [hsent.passed, h.passed, h.columns, h.data, List.flatMap_append, List.flatMap_singleton]

/-- A row goes into the writer, and out again when that makes a block. -/
theorem Holds.row (h : s.Holds enc cols attnums done parts rest) (row : List (Option δ)) :
    ∃ parts' rest', (s.sendRow enc attrs attnums row).Holds enc cols attnums (done ++ [row])
      parts' rest' := by
  have hcheck := s.call_passes (c := .checkForInterrupts) rfl fun _ _ => nofun
  obtain ⟨happ, hdata⟩ := @appendSlot_spec T δ attrs attnums (s.call .checkForInterrupts) row rest
    h.data
  have hnext : Holds enc cols attnums (done ++ [row]) parts (rest ++ [row])
      { (s.call .checkForInterrupts).appendSlot attrs attnums row with
        rows := ((s.call .checkForInterrupts).appendSlot attrs attnums row).rows + 1 } := by
    refine ⟨?_, h.nonempty, happ.cols.trans h.columns, hdata, ?_, ?_, ?_, ?_⟩
    · rw [← List.append_assoc, h.split]
    · refine happ.passed.trans (hcheck.passed.trans ?_)
      rw [List.append_nil]
      exact h.passed
    · refine (congrArg NativeSink.buf happ.sink).trans ?_
      exact h.sink
    · show ((s.call .checkForInterrupts).appendSlot attrs attnums row).rows + 1 = _
      rw [happ.rows, List.length_append]
      exact congrArg (· + 1) h.rows
    · exact happ.fit (hcheck.fit h.fit)
  unfold sendRow
  dsimp only
  split
  · exact ⟨_, _, hnext.block (by simp)⟩
  · exact ⟨_, _, hnext⟩

theorem Holds.scan (scan : List (List (Option δ)))
    (h : s.Holds enc cols attnums done parts rest) :
    ∃ parts' rest', (scan.foldl (sendRow enc attrs attnums) s).Holds enc cols attnums
      (done ++ scan) parts' rest' := by
  induction scan generalizing s done parts rest with
  | nil => exact ⟨parts, rest, by rwa [List.append_nil]⟩
  | cons row scan ih =>
    obtain ⟨parts', rest', hrow⟩ : ∃ parts' rest', (s.sendRow enc attrs attnums row).Holds enc
      cols attnums (done ++ [row]) parts' rest' := h.row row
    rw [List.append_cons]
    exact ih hrow

/-- Nothing is left in the writer. -/
theorem Holds.finish (h : s.Holds enc cols attnums done parts rest) (hne : attnums ≠ []) :
    ∃ parts', (s.sendRest enc).Holds enc cols attnums done parts' [] := by
  have hrows : s.writer.rows = rest.length := by
    unfold PgchWriter.rows
    rw [h.data, blockColumns_rows hne]
  unfold sendRest
  rw [hrows]
  split
  · rename_i hleft
    exact ⟨_, h.block fun hnil => hleft (List.length_eq_zero_iff.mpr hnil)⟩
  · rename_i hnone
    obtain rfl := List.length_eq_zero_iff.mp (not_not.mp hnone)
    exact ⟨parts, h⟩

end SendState

/-! ### What the channel gets -/

open SendState

/-- `sent` is the rows of `scan`, in order, as a sequence of blocks with a row in each. -/
def SentInBlocks (enc : Encoder T δ) (cols : List (Bytes × T)) (attnums : List ℕ)
    (scan : List (List (Option δ))) (sent : Bytes) : Prop :=
  ∃ parts : List (List (List (Option δ))), (∀ part ∈ parts, part ≠ []) ∧ parts.flatten = scan ∧
    sent = parts.flatMap fun part => encoding enc cols (blockColumns attnums part)

/-- The calls of `chdb_copy_send` hand over the scan. -/
theorem chdbCopySend_written {enc : Encoder T δ}
    {parseTuple : Bytes → Raises (List (Option Bytes × T))} {clause : Bytes}
    {attrs : List FormPgAttribute} {attnums : List ℕ} {scan : List (List (Option δ))}
    {s : SendState T δ} (hne : attnums ≠ [])
    (hs : chdbCopySend enc parseTuple clause attrs attnums scan = .ok s) :
    SentInBlocks enc s.writer.cols attnums scan (written s.calls) ∧ s.rows = scan.length ∧
      s.sink.buf = [] ∧ s.CopiesFit := by
  simp only [chdbCopySend, bind_eq_ok, pure_eq_ok] at hs
  obtain ⟨cols, hcols, rfl⟩ := hs
  have hlen := (writerFor_eq_ok.mp hcols).2
  obtain ⟨_, _, hscan⟩ : ∃ parts rest, (scan.foldl (sendRow enc attrs attnums)
    (.start cols)).Holds enc cols attnums ([] ++ scan) parts rest := (Holds.init hlen).scan scan
  obtain ⟨parts, hdone⟩ := hscan.finish hne
  rw [List.nil_append] at hdone
  refine ⟨⟨parts, hdone.nonempty, ?_, ?_⟩, hdone.rows, hdone.sink, hdone.fit⟩
  · rw [← hdone.split, List.append_nil]
  · rw [hdone.columns, ← hdone.passed, passed, hdone.sink, List.append_nil]

/-- **The channel gets the scan.**  Whatever the encoder's writes, and however the channel
    takes them, a run of `chdb_copy_send` that returns has put all rows of the scan in the
    channel as blocks, in order and once, and counted them; the sink's buffer is never
    overrun and is empty after each block and at the end. -/
theorem chdbCopySend_delivers {enc : Encoder T δ}
    {parseTuple : Bytes → Raises (List (Option Bytes × T))} {clause : Bytes}
    {attrs : List FormPgAttribute} {attnums : List ℕ} {scan : List (List (Option δ))}
    {s : SendState T δ} (hne : attnums ≠ [])
    (hs : chdbCopySend enc parseTuple clause attrs attnums scan = .ok s) :
    (∀ raises answers ok sent, runCalls raises [] s.calls answers [] = (.returns ok, sent) →
      SentInBlocks enc s.writer.cols attnums scan sent) ∧
    s.rows = scan.length ∧ s.CopiesFit ∧ s.sink.buf = [] ∧
    ∀ t : SendState T δ, (t.sendBlock enc).sink.buf = [] := by
  obtain ⟨hblocks, hrows, hsink, hfit⟩ := chdbCopySend_written hne hs
  refine ⟨?_, hrows, hfit, hsink, fun t => t.sendBlock_sent.sink⟩
  intro raises answers ok sent hrun
  rw [runCalls_returns hrun, List.nil_append]
  exact hblocks

/-- An encoder that cuts a block at every row and writes it in two pieces. -/
def oneRowBlocks : Encoder Unit ℕ where
  bytes _ _ := nativeBlockBytes
  blockWrites _ data := [data.flatten.map fun v => UInt8.ofNat (v.getD 0), lit "."]

/-- Two rows of one column. -/
def twoRowScan : List (List (Option ℕ)) := [[some 48], [some 49]]

/-- The channel takes them byte by byte, with a pause. -/
theorem chdbCopySend_delivers_twoRows :
    ∃ s, chdbCopySend oneRowBlocks (fun _ => .ok [(some (lit "a"), ())]) (lit "a Int32")
        [intAttribute (lit "a")] [1] twoRowScan = .ok s ∧ s.rows = 2 ∧
      runCalls (fun _ _ => false) [] s.calls [.put 1, .eagain, .put 1, .eintr, .put 9] []
        = (.returns true, lit "0.1.") ∧
      SentInBlocks oneRowBlocks s.writer.cols [1] twoRowScan (lit "0.1.") := by
  have hs : chdbCopySend oneRowBlocks (fun _ => .ok [(some (lit "a"), ())]) (lit "a Int32")
      [intAttribute (lit "a")] [1] twoRowScan = .ok ((twoRowScan.foldl
        (sendRow oneRowBlocks [intAttribute (lit "a")] [1])
        (.start [(lit "a", ())])).sendRest oneRowBlocks) := rfl
  obtain ⟨hsent, hrows, -⟩ := chdbCopySend_delivers (List.cons_ne_nil 1 []) hs
  have hrun : runCalls (fun _ _ => false) [] ((twoRowScan.foldl
      (sendRow oneRowBlocks [intAttribute (lit "a")] [1])
      (.start [(lit "a", ())])).sendRest oneRowBlocks).calls
        [.put 1, .eagain, .put 1, .eintr, .put 9] [] = (.returns true, lit "0.1.") := by
    decide +kernel
  exact ⟨_, hs, hrows, hrun, hsent _ _ _ _ hrun⟩

end PgChdb
