import PgChdb.Lib.Machine
import PgChdb.Helper.Process
import PgChdb.Setup.Channel
import PgChdb.Setup.Session

namespace PgChdb.Program

open CText Machine
open Process (Errno chdbHelperLostBackend)

/-!
# `src/helper/chdb_helper.c`, call by call

The helper is a process of its own, and all it does is call: the system for its four
descriptors and its memory, and libchdb for everything else.  Its program is a program over
the calls made so far, each recorded with its answer; what a call answers may depend on every
call before it, and nothing else is assumed of either side.

An object of libchdb's is named by the place of the call that returned it, and bytes that
belong to an object are handed on with its name, so that a call says whose memory it reads.

* `Call`, `Env`, `Run` — the calls, what answers them, and programs over them;
* `say`, `fail`, `notNull`, `readSetup`, `writeAll`, `runSelect`, `runQuery`, `runInsert`,
  `openSession`, `main` — the functions of the file;
* `ends_sysRead`, `ends_sysWrite`, `ends_obtain` and so on — how each call can end.
-/

/-! ### Calls -/

/-- The descriptors the backend leaves open in the helper. -/
inductive Fd where
  | stdin
  | stdout
  | stderr
  | setup
  deriving DecidableEq, Repr

/-- What libchdb has to say of a query: the text of its error, or the bytes of its result. -/
abbrev Reply := Except Bytes Bytes

/-- A call, with its answer. -/
inductive Call where
  | read (fd : Fd) (answer : Except Errno Bytes)
  /-- The bytes a `write` put, which belong to an object or to the program. -/
  | write (fd : Fd) (owner : Option ℕ) (answer : Except Errno Bytes)
  | alloc (success : Bool)
  | setSignalHandlersEnabled (enabled : Bool)
  | connect (success : Bool)
  /-- `chdb_query`. -/
  | session (stmt : Bytes) (reply : Reply)
  /-- `chdb_query_with_params_n`. -/
  | query (text : Bytes) (params : List (Bytes × Bytes)) (reply : Reply)
  | streamQuery (text : Bytes) (params : List (Bytes × Bytes)) (reply : Reply)
  | fetchResult (stream : ℕ) (reply : Reply)
  | cancelQuery (stream : ℕ)
  /-- `chdb_result_error`, `chdb_result_length` and `chdb_result_buffer`. -/
  | look (result : ℕ)
  | destroyResult (result : ℕ)
  | streamInsert (text : Bytes) (params : List (Bytes × Bytes))
  | insertError (stream : ℕ) (error : Option Bytes)
  | append (stream : ℕ) (bytes : Bytes) (success : Bool)
  | done (stream : ℕ) (reply : Reply)
  | cancelInsert (stream : ℕ)
  | destroyInsert (stream : ℕ)
  | closeConn
  | exit (code : ℕ)
  deriving DecidableEq

/-- What answers the calls, after those made so far, and how far a loop is followed. -/
structure Env where
  read : List Call → Except Errno Bytes
  write : List Call → Except Errno ℕ
  alloc : List Call → Bool
  connect : List Call → Bool
  reply : List Call → Reply
  insertError : List Call → Option Bytes
  append : List Call → Bool
  turns : ℕ

/-- Why the process ends before `main` returns. -/
inductive Stop where
  | exits (code : ℕ)
  | signaled (sig : ℕ)
  /-- A loop is followed no further. -/
  | cut
  deriving DecidableEq, Repr

abbrev Run := Prog Stop (List Call)

def record (call : Call) : Run Unit := modify fun log => log ++ [call]

def onlyIf (c : Prop) [Decidable c] (m : Run Unit) : Run Unit := if c then m else return ()

/-- A `for (;;)`. -/
def forever {α β : Type} (env : Env) (body : β → Run (β ⊕ α)) (b : β) : Run α :=
  loop body .cut env.turns b

/-- Bytes, and the object they belong to. -/
structure Text where
  owner : Option ℕ
  bytes : Bytes

/-- A result of libchdb's. -/
structure Object where
  name : ℕ
  reply : Reply

/-- A call that returns a result. -/
def obtain (env : Env) (call : Reply → Call) : Run Object := do
  let log ← get
  record (call (env.reply log))
  return ⟨log.length, env.reply log⟩

/-- `chdb_result_error`. -/
def resultError (o : Object) : Run (Option Text) := do
  record (.look o.name)
  match o.reply with
  | .error text => return some ⟨some o.name, text⟩
  | .ok _ => return none

/-- `chdb_result_length`, and `chdb_result_buffer` unless that is 0. -/
def resultBuffer (o : Object) : Run (Option Text) := do
  record (.look o.name)
  match o.reply with
  | .error _ | .ok [] => return none
  | .ok bytes =>
    record (.look o.name)
    return some ⟨some o.name, bytes⟩

/-- `chdb_stream_insert_error`. -/
def streamInsertError (env : Env) (stream : ℕ) : Run (Option Text) := do
  let log ← get
  record (.insertError stream (env.insertError log))
  return (env.insertError log).map fun text => ⟨some stream, text⟩

/-- `read`: at most `len` bytes. -/
def sysRead (env : Env) (fd : Fd) (len : ℕ) : Run (Except Errno Bytes) := do
  let log ← get
  let answer := (env.read log).map fun bytes => bytes.take len
  record (.read fd answer)
  return answer

/-- `write`: at least one of the bytes.  `exec_helper` leaves SIGPIPE its default action. -/
def sysWrite (env : Env) (fd : Fd) (text : Text) : Run (Except Errno Bytes) := do
  let log ← get
  match env.write log with
  | .ok n =>
    record (.write fd text.owner (.ok (text.bytes.take (n + 1))))
    return .ok (text.bytes.take (n + 1))
  | .error errno =>
    record (.write fd text.owner (.error errno))
    if errno = .epipe then throw (.signaled sigpipe) else return .error errno

/-! ### The functions of the file -/

/-- What is left of the text after so many of its bytes. -/
def Text.after (text : Text) (put : Bytes) : Text :=
  { text with bytes := text.bytes.drop put.length }

/-- One `write` of `fprintf`, to a stream that is not buffered. -/
def sayTurn (env : Env) (text : Text) : Run (Text ⊕ Unit) := do
  if text.bytes = [] then return .inr ()
  else
    match ← sysWrite env .stderr text with
    | .ok put => return .inl (text.after put)
    | .error _ => return .inr ()

/-- `fprintf(stderr, "%s\n", text)`. -/
def say (env : Env) (text : Text) : Run Unit :=
  forever env (sayTurn env) { text with bytes := text.bytes ++ lit "\n" }

/-- `exit`. -/
def exit {α : Type} (code : ℕ) : Run α := do
  record (.exit code)
  throw (.exits code)

/-- `fail`. -/
def fail {α : Type} (env : Env) (what : Bytes) : Run α := do
  say env ⟨none, what⟩
  exit 1

/-- `not_null` of what an allocation returns. -/
def notNull (env : Env) : Run Unit := do
  let log ← get
  record (.alloc (env.alloc log))
  if env.alloc log then return () else fail env (lit "chdb: out of memory")

/-- One turn of `read_setup`. -/
def readSetupTurn (env : Env) (b : SetupBuffer) : Run (SetupBuffer ⊕ Bytes) := do
  match grow b with
  | .error _ => fail env (lit "chdb: setup payload is too large")
  | .ok b' =>
    onlyIf (b'.cap ≠ b.cap) (notNull env)
    match ← sysRead env .setup (b'.cap - b'.buf.length) with
    | .ok got =>
      if got = [] then return .inr b'.buf
      else return .inl { b' with buf := b'.buf ++ got }
    | .error errno =>
      if errno = .eintr then return .inl b'
      else fail env (lit "chdb: could not read the setup payload")

/-- `read_setup`. -/
def readSetup (env : Env) : Run Bytes := do
  notNull env
  forever env (readSetupTurn env) .empty

/-- The cursor's functions, which fail on a payload that ends early. -/
def taking {α : Type} (env : Env) (take : Cursor α) (cur : Bytes) : Run (α × Bytes) :=
  match take cur with
  | some r => return r
  | none => fail env (lit "chdb: setup payload is truncated")

/-- One turn of `write_all`. -/
def writeTurn (env : Env) (text : Text) : Run (Text ⊕ Bool) := do
  if text.bytes = [] then return .inr true
  else
    match ← sysWrite env .stdout text with
    | .ok put => return .inl (text.after put)
    | .error errno => if errno = .eintr then return .inl text else return .inr false

/-- `write_all`. -/
def writeAll (env : Env) (text : Text) : Run Bool := forever env (writeTurn env) text

/-- One turn of `run_select`: another chunk, or the status to end with. -/
def selectTurn (env : Env) (stream : ℕ) (_ : Unit) : Run (Unit ⊕ ℕ) := do
  let chunk ← obtain env (.fetchResult stream)
  match ← resultError chunk with
  | some error =>
    say env error
    record (.destroyResult chunk.name)
    return .inr 1
  | none =>
    match ← resultBuffer chunk with
    | none =>
      record (.destroyResult chunk.name)
      return .inr 0
    | some buffer =>
      let written ← writeAll env buffer
      record (.destroyResult chunk.name)
      if written then return .inl () else return .inr chdbHelperLostBackend

/-- `run_select`. -/
def runSelect (env : Env) (text : Bytes) (params : List (Bytes × Bytes)) : Run ℕ := do
  let stream ← obtain env (.streamQuery text params)
  match ← resultError stream with
  | some error =>
    say env error
    record (.destroyResult stream.name)
    return 1
  | none =>
    let status ← forever env (selectTurn env stream.name) ()
    onlyIf (status ≠ 0) (record (.cancelQuery stream.name))
    record (.destroyResult stream.name)
    return status

/-- `run_query`. -/
def runQuery (env : Env) (text : Bytes) (params : List (Bytes × Bytes)) : Run ℕ := do
  let result ← obtain env (.query text params)
  match ← resultError result with
  | some error =>
    say env error
    record (.destroyResult result.name)
    return 1
  | none =>
    match ← resultBuffer result with
    | none =>
      record (.destroyResult result.name)
      return 0
    | some buffer =>
      let written ← writeAll env buffer
      record (.destroyResult result.name)
      if written then return 0 else return chdbHelperLostBackend

/-- `CHDB_HELPER_IO_BYTES`. -/
def chdbHelperIoBytes : ℕ := 256 * 1024

/-- `run_insert` gives the stream up, with a status. -/
def giveUp (stream status : ℕ) : Run (Unit ⊕ Option ℕ) := do
  record (.cancelInsert stream)
  record (.destroyInsert stream)
  return .inr (some status)

/-- One turn of the loop of `run_insert`: more to read, the end of the blocks, or a status. -/
def insertTurn (env : Env) (stream : ℕ) (_ : Unit) : Run (Unit ⊕ Option ℕ) := do
  match ← sysRead env .stdin chdbHelperIoBytes with
  | .error errno =>
    if errno = .eintr then return .inl () else giveUp stream chdbHelperLostBackend
  | .ok got =>
    if got = [] then return .inr none
    else
      let log ← get
      record (.append stream got (env.append log))
      if env.append log then return .inl ()
      else
        match ← streamInsertError env stream with
        | some error => say env error
        | none => say env ⟨none, lit "chdb: append failed"⟩
        giveUp stream 1

/-- `run_insert`. -/
def runInsert (env : Env) (text : Bytes) (params : List (Bytes × Bytes)) : Run ℕ := do
  let log ← get
  let stream := log.length
  record (.streamInsert text params)
  match ← streamInsertError env stream with
  | some error =>
    say env error
    record (.destroyInsert stream)
    return 1
  | none =>
    notNull env
    match ← forever env (insertTurn env stream) () with
    | some status => return status
    | none =>
      let result ← obtain env (.done stream)
      match ← resultError result with
      | some error =>
        say env error
        record (.destroyResult result.name)
        record (.destroyInsert stream)
        return 1
      | none =>
        record (.destroyResult result.name)
        record (.destroyInsert stream)
        return 0

/-- `setup_session`. -/
def openSession (env : Env) (x : SetupRequest) : Run ℕ := do
  let result ← obtain env
    (.session (setupSession x.maxMem x.maxThreads x.maxParsers x.timezone))
  match ← resultError result with
  | some error =>
    say env error
    record (.destroyResult result.name)
    return 1
  | none =>
    record (.destroyResult result.name)
    return 0

/-- The fields of the payload up to the number of parameters. -/
def parseHead : Cursor ((List (Bytes × Bytes) → SetupRequest) × UInt16) := do
  let cmdType ← take1
  let maxMem ← take2
  let maxThreads ← take2
  let maxParsers ← take2
  let timezone ← takeStr
  let query ← takeStr
  let npar ← take2
  pure (fun params => { cmdType, maxMem, maxThreads, maxParsers, timezone, query, params }, npar)

/-- The first part of `main`: the request, out of the payload. -/
def readRequest (env : Env) : Run SetupRequest := do
  let setup ← readSetup env
  let (head, cur) ← taking env parseHead setup
  notNull env
  notNull env
  notNull env
  notNull env
  let (params, _) ← taking env (takeParams head.2.toNat) cur
  return head.1 params

/-- The `switch` of `main`. -/
def runCommand (env : Env) (x : SetupRequest) : Run ℕ :=
  if x.cmdType = ChdbCmdType.toByte .select then runSelect env x.query x.params
  else if x.cmdType = ChdbCmdType.toByte .insert then runInsert env x.query x.params
  else if x.cmdType = ChdbCmdType.toByte .describe then runQuery env x.query x.params
  else fail env (lit "chdb: unknown command type")

/-- `chdb_connect`. -/
def connect (env : Env) : Run Unit := do
  record (.setSignalHandlersEnabled false)
  let log ← get
  record (.connect (env.connect log))
  if env.connect log then return () else fail env (lit "chdb: unable to connect to chDB")

/-- The rest of `main`, unless the settings are refused. -/
def runSession (env : Env) (x : SetupRequest) : Run ℕ := do
  let status ← openSession env x
  if status = 0 then runCommand env x else return status

/-- `main`, and the process's end. -/
def main (env : Env) : Run ℕ := do
  let x ← readRequest env
  connect env
  let status ← runSession env x
  record .closeConn
  record (.exit status)
  return status

/-- The calls of a run, however it ends. -/
def calls (env : Env) : List Call :=
  match main env [] with
  | .ok _ log => log
  | .error _ log => log

/-- The status `main` returns with, if it returns. -/
def returned (env : Env) : Option ℕ :=
  match main env [] with
  | .ok status _ => some status
  | .error _ _ => none

/-- The status the process exits with, if it exits. -/
def exitStatus (env : Env) : Option ℕ :=
  match main env [] with
  | .ok status _ => some status
  | .error (.exits status) _ => some status
  | .error _ _ => none

/-- A payload that comes in one read, and a query with a result of one chunk of two bytes, which
    goes out a byte at a time. -/
def oneChunk : Env where
  read log := .ok (if log.any fun c => c matches .read _ _ then [] else
    setupBytes { cmd := .select, maxMemory := 0, maxThreads := 0, maxParsers := 0 } (lit "UTC")
      (lit "SELECT 7") [])
  write _ := .ok 0
  alloc _ := true
  connect _ := true
  reply log := .ok (if log.any fun c => c matches .write _ _ _ then [] else lit "7.")
  insertError _ := none
  append _ := true
  turns := 4

/-! ### How the calls end -/

section
variable {α β : Type} {env : Env} {log : List Call} {E : Stop → List Call → Prop}

@[simp] theorem ends_record {c : Call} {Q : Unit → List Call → Prop} :
    Machine.Ends (record c) log Q E ↔ Q () (log ++ [c]) := Iff.rfl

theorem ends_onlyIf {c : Prop} [Decidable c] {m : Run Unit} {Q : Unit → List Call → Prop}
    (hm : c → Machine.Ends m log Q E) (hn : ¬ c → Q () log) : Machine.Ends (onlyIf c m) log Q E :=
  ends_ite hm hn

/-- The loop rule, for an invariant that also holds where the loop is cut. -/
theorem ends_forever {body : β → Run (β ⊕ α)} {b : β} {Q : α → List Call → Prop}
    (I : β → List Call → Prop) (step : ∀ b t, I b t → Machine.Ends (body b) t (Sum.elim I Q) E)
    (out : ∀ b t, I b t → E .cut t) (h : I b log) : Machine.Ends (forever env body b) log Q E := by
  refine Machine.Ends.loop I (fun b t hb => (step b t hb).imp fun r u hr => ?_) out h
  cases r <;> exact hr

theorem ends_sysRead {fd : Fd} {len : ℕ} {Q : Except Errno Bytes → List Call → Prop}
    (hok : ∀ bytes, Q (.ok bytes) (log ++ [.read fd (.ok bytes)]))
    (herror : ∀ errno, Q (.error errno) (log ++ [.read fd (.error errno)])) :
    Machine.Ends (sysRead env fd len) log Q E := by
  unfold sysRead
  rw [ends_bind, ends_get]
  cases env.read log with
  | ok bytes => exact hok (bytes.take len)
  | error errno => exact herror errno

/-- A write moves at least one byte, if there is any. -/
theorem ends_sysWrite {fd : Fd} {text : Text} {Q : Except Errno Bytes → List Call → Prop}
    (hok : ∀ n, Q (.ok (text.bytes.take (n + 1)))
      (log ++ [.write fd text.owner (.ok (text.bytes.take (n + 1)))]))
    (herror : ∀ errno, errno ≠ .epipe → Q (.error errno)
      (log ++ [.write fd text.owner (.error errno)]))
    (hpipe : E (.signaled sigpipe) (log ++ [.write fd text.owner (.error .epipe)])) :
    Machine.Ends (sysWrite env fd text) log Q E := by
  unfold sysWrite
  rw [ends_bind, ends_get]
  cases env.write log with
  | ok n => exact hok n
  | error errno =>
    refine ends_ite (fun hpeer => ?_) (fun hpeer => herror errno hpeer)
    rw [hpeer]
    exact hpipe

theorem ends_obtain {call : Reply → Call} {Q : Object → List Call → Prop}
    (h : ∀ reply, Q ⟨log.length, reply⟩ (log ++ [call reply])) :
    Machine.Ends (obtain env call) log Q E := h (env.reply log)

theorem ends_resultError {o : Object} {Q : Option Text → List Call → Prop}
    (herror : ∀ text, o.reply = .error text → Q (some ⟨some o.name, text⟩) (log ++ [.look o.name]))
    (hok : ∀ bytes, o.reply = .ok bytes → Q none (log ++ [.look o.name])) :
    Machine.Ends (resultError o) log Q E := by
  unfold resultError
  rw [ends_bind, ends_record]
  cases hreply : o.reply with
  | error text => exact herror text hreply
  | ok bytes => exact hok bytes hreply

/-- The buffer of a result without an error. -/
theorem ends_resultBuffer {o : Object} {bytes : Bytes} (hreply : o.reply = .ok bytes)
    {Q : Option Text → List Call → Prop} (hnil : bytes = [] → Q none (log ++ [.look o.name]))
    (hbuf : bytes ≠ [] →
      Q (some ⟨some o.name, bytes⟩) (log ++ [.look o.name] ++ [.look o.name])) :
    Machine.Ends (resultBuffer o) log Q E := by
  unfold resultBuffer
  rw [ends_bind, ends_record, hreply]
  cases bytes with
  | nil => exact hnil rfl
  | cons b bytes => exact hbuf nofun

theorem ends_streamInsertError {stream : ℕ} {Q : Option Text → List Call → Prop}
    (h : ∀ error : Option Bytes, Q (error.map fun text => ⟨some stream, text⟩)
      (log ++ [.insertError stream error])) : Machine.Ends (streamInsertError env stream) log Q E :=
  h (env.insertError log)

theorem ends_taking {take : Cursor α} {cur : Bytes} {Q : α × Bytes → List Call → Prop}
    (hsome : ∀ r, take cur = some r → Q r log)
    (hfail : Machine.Ends (fail env (lit "chdb: setup payload is truncated")) log Q E) :
    Machine.Ends (taking env take cur) log Q E := by
  unfold taking
  cases htake : take cur with
  | some r => exact hsome r htake
  | none => exact hfail

end

/-- What a write has put and what is left make up the text. -/
theorem Text.take_after (text : Text) (n : ℕ) :
    text.bytes.take n ++ (text.after (text.bytes.take n)).bytes = text.bytes := by
  unfold Text.after
  rw [List.length_take]
  rcases Nat.le_total n text.bytes.length with h | h
  · rw [Nat.min_eq_left h, List.take_append_drop]
  · rw [Nat.min_eq_right h, List.take_of_length_le h, List.drop_length, List.append_nil]

/-- A buffer that is doubled holds what it held. -/
theorem grow_buf {b b' : SetupBuffer} (h : grow b = .ok b') : b'.buf = b.buf := by
  unfold grow at h
  split at h
  · split at h
    · cases h
    · cases h
      rfl
  · cases h
    rfl

/-- The payload parses when both of its parts do. -/
theorem parseSetup_of_parts {p cur rest : Bytes} {npar : UInt16} {params : List (Bytes × Bytes)}
    {head : List (Bytes × Bytes) → SetupRequest} (hhead : parseHead p = some ((head, npar), cur))
    (hparams : takeParams npar.toNat cur = some (params, rest)) :
    parseSetup p = some (head params, rest) := by
  have hsplit : parseSetup =
      parseHead >>= fun r => takeParams r.2.toNat >>= fun params => pure (r.1 params) := by
    simp only [parseSetup, parseHead, bind_assoc, pure_bind]
  rw [hsplit]
  simp only [bind, StateT.bind, hhead, hparams, Option.bind_some, Cursor.pure_apply]

end PgChdb.Program
