import PgChdb.Lib.Channels
import PgChdb.Setup.Payload

namespace PgChdb

open CText Channels

/-!
# The backend and its helper

`src/helper.c` runs in the backend and `src/helper/chdb_helper.c` in a process of its own.
They share three channels, and the backend can kill the helper and wait for it.

| channel | backend's end          | helper's end                                |
|---------|------------------------|---------------------------------------------|
| setup   | writes, `h->setup`     | reads, descriptor 3                         |
| err     | reads, `h->err`        | writes, descriptor 2                        |
| data    | `h->data`, both ways   | writes descriptor 1, for INSERT reads 0     |

The backend's ends do not block; the helper's do.  A step is one system call of either side
together with what the side does until the next, so the steps of the two can come in any
order.  Steps are told apart by their `Kind`: whether they get anything done, or are a turn
of a loop that has to wait, an interrupt, a crash, or an I/O error of the rarer sort.

* `HelperPc`, `HelperState`, `HelperStep` — the helper's program, chDB's answers being free;
* `Task`, `BackendPc`, `BackendState`, `BackendStep` — the backend's: each `Task` is one of
  the four loops, at its head, in `drain_err`, or in `wait_fd`;
* `System`, `Step`, `System.start` — the two together, and how they begin.
-/

/-! ### States -/

/-- What `waitpid` reports of a process that has ended. -/
inductive WaitStatus where
  | exited (code : ℕ)
  | signaled (sig : ℕ)
  deriving DecidableEq, Repr

/-- The helper's next system call, or its end. -/
inductive HelperPc where
  /-- The `read` of `read_setup`. -/
  | setup
  /-- The `write` of `write_all`, with what is left of the chunk. -/
  | writing (rest : Bytes)
  /-- The `read` of `run_insert`. -/
  | reading
  /-- The end of `main`, or of `fail`. -/
  | exits (code : ℕ)
  | ended (status : WaitStatus)
  deriving DecidableEq, Repr

/-- The helper.  `saying` is what it has still to write to descriptor 2 before it goes on;
    `fetched` are the chunks chDB has returned, the last of them empty; `appended` is what
    `chdb_stream_append` has taken, and `streamDone` whether `chdb_stream_done` was called. -/
structure HelperState where
  pc : HelperPc
  saying : Bytes
  fetched : List Bytes
  appended : Bytes
  streamDone : Bool

/-- What follows a wait for the helper's end. -/
inductive After where
  | recv
  | finish
  | report
  deriving DecidableEq, Repr

/-- The backend's loops: `write_all` on the setup channel and on the data channel, with what
    is left to write, `chdb_helper_recv`, and `drain_and_reap`. -/
inductive Task where
  | setup (rest : Bytes)
  | write (rest : Bytes)
  | recv (len : ℕ)
  | reap (after : After)
  deriving DecidableEq, Repr

/-- What `stop_helper` does next. -/
inductive StopPhase where
  | closeData
  | closeErr
  | closeSetup
  | kill
  | reap
  deriving DecidableEq, Repr

/-- Where the backend is.  An error being raised goes through `stop_helper`. -/
inductive BackendPc where
  /-- In `chdb_copy_receive` or `chdb_copy_send`, between two calls. -/
  | calling
  | head (t : Task)
  | drain (t : Task)
  | wait (t : Task)
  | waitpid (a : After)
  | returned
  | stopping (p : StopPhase)
  | raised
  deriving DecidableEq, Repr

/-- An error is being raised, or has been. -/
def BackendPc.Raising (pc : BackendPc) : Prop := pc = .raised ∨ ∃ p, pc = .stopping p

/-- The backend.  `received` are the results of the calls of `chdb_helper_recv` so far, and
    `todo` the arguments of those of `chdb_helper_write` still to come, or none when
    `chdb_copy_send` raises before it makes any.  `status` is none until the helper is
    reaped, and holds none when `waitpid` gave no status. -/
structure BackendState where
  pc : BackendPc
  received : List Bytes
  todo : Option (List Bytes)
  finished : Bool
  status : Option (Option WaitStatus)

structure System where
  setup : Pipe UInt8
  err : Pipe UInt8
  data : Pipe UInt8
  helper : HelperState
  backend : BackendState
  killed : Bool

/-- What the vendored reader does next, after those results of `chdb_helper_recv`. -/
inductive ReaderMove where
  | recv (len : ℕ)
  | finished
  | raises
  deriving DecidableEq, Repr

/-- A copy: its direction, what reads its result, and the statuses with which the helper may
    end other than by its own `exit` or a signal of the channels. -/
structure CopyJob where
  cmd : ChdbCmdType
  reader : List Bytes → ReaderMove
  crashes : WaitStatus → Prop

/-- What a step does. -/
inductive Kind where
  /-- It gets the backend on, moves bytes, reports an end of file or ends a process. -/
  | work
  /-- It is a wake-up, or a call that would block or was interrupted. -/
  | idle
  /-- The helper finds something to say. -/
  | speak
  /-- The helper ends, or gives up, of itself. -/
  | crash
  /-- The backend raises for a reason of its own. -/
  | interrupt
  /-- A call fails, other than with `EAGAIN`, `EINTR` or for want of a peer. -/
  | hard
  deriving DecidableEq, Repr

/-- `SIGKILL` and `SIGPIPE`. -/
def sigkill : ℕ := 9
def sigpipe : ℕ := 13

namespace HelperState

/-- The helper is about to make that system call, having nothing to say before. -/
def At (h : HelperState) (pc : HelperPc) : Prop := h.pc = pc ∧ h.saying = []

def alive (h : HelperState) : Bool :=
  match h.pc with
  | .ended _ => false
  | _ => true

/-- It prints `text` and exits. -/
def fails (h : HelperState) (text : Bytes) (code : ℕ) : HelperState :=
  { h with pc := .exits code, saying := text }

end HelperState

namespace System

/-- The helper's end of the data channel, and the backend's. -/
def helperData (cmd : ChdbCmdType) (s : System) : Bool :=
  if cmd = .insert then s.data.readOpen else s.data.writeOpen

def backendData (cmd : ChdbCmdType) (s : System) : Bool :=
  if cmd = .insert then s.data.writeOpen else s.data.readOpen

/-- The backend goes on at `pc`. -/
def goto (s : System) (pc : BackendPc) : System := { s with backend := { s.backend with pc := pc } }

/-- The helper's end: its descriptors are closed, its status is kept. -/
def die (cmd : ChdbCmdType) (s : System) (st : WaitStatus) : System :=
  { s with
    setup := s.setup.closeRead
    err := s.err.closeWrite
    data := if cmd = .insert then s.data.closeRead else s.data.closeWrite
    helper := { s.helper with pc := .ended st } }

/-- `close_fd(&h->data)`. -/
def closeData (cmd : ChdbCmdType) (s : System) : System :=
  { s with data := if cmd = .insert then s.data.closeWrite else s.data.closeRead }

/-- `chdb_helper_finish`, up to its wait for the helper's end. -/
def finish (cmd : ChdbCmdType) (s : System) : System :=
  { s.closeData cmd with
    backend := { s.backend with pc := .head (.reap .finish), finished := true } }

end System

/-! ### The helper -/

/-- `chdb_stream_fetch_result`, and how `run_select` goes on. -/
inductive Fetches (h : HelperState) : HelperState → Prop
  | chunk {c : Bytes} (hc : c ≠ []) :
      Fetches h { h with pc := .writing c, fetched := h.fetched ++ [c] }
  | last : Fetches h { h with pc := .exits 0, fetched := h.fetched ++ [[]] }
  | error (text : Bytes) : Fetches h (h.fails text 1)

/-- From the end of the setup payload: parsing it, connecting, and the query. -/
inductive Starts (cmd : ChdbCmdType) (h : HelperState) : HelperState → Prop
  | fails (text : Bytes) : Starts cmd h (h.fails text 1)
  | select {h' : HelperState} (hcmd : cmd ≠ .insert) (hf : Fetches h h') : Starts cmd h h'
  | insert (hcmd : cmd = .insert) : Starts cmd h { h with pc := .reading }

/-- `write_all` with some of the chunk written: more of it, or the next. -/
inductive WritesOn (h : HelperState) : Bytes → HelperState → Prop
  | more {rest : Bytes} (hrest : rest ≠ []) : WritesOn h rest { h with pc := .writing rest }
  | next {h' : HelperState} (hf : Fetches h h') : WritesOn h [] h'

/-- `chdb_stream_append`. -/
inductive Appends (h : HelperState) (got : Bytes) : HelperState → Prop
  | ok : Appends h got { h with appended := h.appended ++ got }
  | error (text : Bytes) : Appends h got (h.fails text 1)

/-- `chdb_stream_done`, and how `run_insert` returns. -/
inductive Done (h : HelperState) : HelperState → Prop
  | ok : Done h { h with pc := .exits 0, streamDone := true }
  | error (text : Bytes) : Done h { h.fails text 1 with streamDone := true }

/-- The helper's steps.  No call of a process that has been killed returns. -/
inductive HelperStep (job : CopyJob) (s : System) : Kind → System → Prop
  | readSetup {n : ℕ} (hat : s.helper.At .setup) (live : s.killed = false) (pos : 0 < n)
      (le : n ≤ s.setup.content.length) :
      HelperStep job s .work { s with setup := s.setup.get n }
  | setupEnd {h : HelperState} (hat : s.helper.At .setup) (live : s.killed = false)
      (eof : s.setup.AtEnd) (hs : Starts job.cmd s.helper h) :
      HelperStep job s .work { s with helper := h }
  | setupFails (text : Bytes) (hat : s.helper.At .setup) (live : s.killed = false) :
      -- the payload is too large, or cannot be read
      HelperStep job s .crash { s with helper := s.helper.fails text 1 }
  | write {k rest : Bytes} {h : HelperState} (hat : s.helper.At (.writing (k ++ rest)))
      (live : s.killed = false) (pos : k ≠ []) (ropen : s.data.readOpen = true)
      (room : s.data.content.length + k.length ≤ s.data.cap) (hw : WritesOn s.helper rest h) :
      HelperStep job s .work { s with data := s.data.put k room, helper := h }
  | writePipe {rest : Bytes} (hat : s.helper.At (.writing rest)) (live : s.killed = false)
      (closed : s.data.readOpen = false) :
      HelperStep job s .work (s.die job.cmd (.signaled sigpipe))
  | read {n : ℕ} {h : HelperState} (hat : s.helper.At .reading) (live : s.killed = false)
      (pos : 0 < n) (le : n ≤ s.data.content.length)
      (ha : Appends s.helper (s.data.content.take n) h) :
      HelperStep job s .work { s with data := s.data.get n, helper := h }
  | readEnd {h : HelperState} (hat : s.helper.At .reading) (live : s.killed = false)
      (eof : s.data.AtEnd) (hd : Done s.helper h) :
      HelperStep job s .work { s with helper := h }
  | ioFails (hat : s.helper.At .reading ∨ ∃ rest, s.helper.At (.writing rest))
      (live : s.killed = false) :
      -- CHDB_HELPER_LOST_BACKEND
      HelperStep job s .hard { s with helper := s.helper.fails [] 2 }
  | say {k rest : Bytes} (halive : s.helper.alive = true) (hsay : s.helper.saying = k ++ rest)
      (live : s.killed = false) (pos : k ≠ []) (ropen : s.err.readOpen = true)
      (room : s.err.content.length + k.length ≤ s.err.cap) :
      HelperStep job s .work
        { s with err := s.err.put k room, helper := { s.helper with saying := rest } }
  | sayPipe (halive : s.helper.alive = true) (hsay : s.helper.saying ≠ []) (live : s.killed = false)
      (closed : s.err.readOpen = false) :
      HelperStep job s .work (s.die job.cmd (.signaled sigpipe))
  | exit {code : ℕ} (hat : s.helper.At (.exits code)) (live : s.killed = false) :
      HelperStep job s .work (s.die job.cmd (.exited code))
  | speak (text : Bytes) (halive : s.helper.alive = true) (hsay : s.helper.saying = []) :
      HelperStep job s .speak { s with helper := { s.helper with saying := text } }
  | crash {st : WaitStatus} (halive : s.helper.alive = true) (hst : job.crashes st) :
      HelperStep job s .crash (s.die job.cmd st)
  | killed (halive : s.helper.alive = true) (hkill : s.killed = true) :
      HelperStep job s .work (s.die job.cmd (.signaled sigkill))

/-! ### The backend -/

/-- The loop has another turn.  `chdb_helper_recv` always has, while the channel is open. -/
def Task.Loops (s : System) : Task → Prop
  | .setup rest => rest ≠ []
  | .write rest => rest ≠ []
  | .recv _ => s.data.readOpen = true
  | .reap _ => s.err.readOpen = true

/-- The loop waits after `drain_err`; `drain_and_reap` only while the channel is open. -/
def Task.Waits (s : System) : Task → Prop
  | .reap _ => s.err.readOpen = true
  | _ => True

/-- What a caller of `drain_and_reap` does with the status: `chdb_helper_recv` and
    `chdb_helper_finish` return on 0, else the error is reported. -/
def BackendState.afterReap (b : BackendState) (status : Option WaitStatus) (a : After) :
    BackendState :=
  if status = some (.exited 0) then
    match a with
    | .recv => { b with pc := .calling, received := b.received ++ [[]], status := some status }
    | .finish => { b with pc := .returned, status := some status }
    | .report => { b with pc := .stopping .closeData, status := some status }
  else { b with pc := .stopping .closeData, status := some status }

/-- On status 0 the call returns, or was to report an error; on any other an error is raised. -/
theorem BackendState.afterReap_cases (b : BackendState) (status : Option WaitStatus) (a : After) :
    (a = .recv ∧ status = some (.exited 0) ∧ b.afterReap status a =
      { b with pc := .calling, received := b.received ++ [[]], status := some status }) ∨
    (a = .finish ∧ status = some (.exited 0) ∧ b.afterReap status a =
      { b with pc := .returned, status := some status }) ∨
    b.afterReap status a = { b with pc := .stopping .closeData, status := some status } := by
  unfold BackendState.afterReap
  split
  · rename_i hzero
    cases a with
    | recv => exact Or.inl ⟨rfl, hzero, rfl⟩
    | finish => exact Or.inr (Or.inl ⟨rfl, hzero, rfl⟩)
    | report => exact Or.inr (Or.inr rfl)
  · exact Or.inr (Or.inr rfl)

/-- The backend's steps. -/
inductive BackendStep (job : CopyJob) (s : System) : Kind → System → Prop
  -- write_setup
  | setupWrite {k rest : Bytes} (hat : s.backend.pc = .head (.setup (k ++ rest))) (pos : k ≠ [])
      (ropen : s.setup.readOpen = true)
      (room : s.setup.content.length + k.length ≤ s.setup.cap) :
      BackendStep job s .work ({ s with setup := s.setup.put k room }.goto (.head (.setup rest)))
  | setupWritten (hat : s.backend.pc = .head (.setup [])) :
      BackendStep job s .work ({ s with setup := s.setup.closeWrite }.goto .calling)
  | setupPipe {rest : Bytes} (hat : s.backend.pc = .head (.setup rest)) (pos : rest ≠ [])
      (closed : s.setup.readOpen = false) :
      BackendStep job s .work (s.goto (.head (.reap .report)))
  | setupFails {rest : Bytes} (hat : s.backend.pc = .head (.setup rest)) (pos : rest ≠ []) :
      BackendStep job s .hard (s.goto (.stopping .closeData))
  -- chdb_copy_receive
  | recvCall {len : ℕ} (hat : s.backend.pc = .calling) (hcmd : job.cmd ≠ .insert)
      (hr : job.reader s.backend.received = .recv len) :
      BackendStep job s .work (s.goto (.head (.recv len)))
  | readerRaises (hat : s.backend.pc = .calling) (hcmd : job.cmd ≠ .insert)
      (hr : job.reader s.backend.received = .raises) :
      BackendStep job s .work (s.goto (.stopping .closeData))
  | readerFinished (hat : s.backend.pc = .calling) (hcmd : job.cmd ≠ .insert)
      (hr : job.reader s.backend.received = .finished) :
      BackendStep job s .work (s.finish job.cmd)
  -- chdb_helper_recv
  | recvGot {n len : ℕ} (hat : s.backend.pc = .head (.recv len)) (pos : 0 < n) (le : n ≤ len)
      (le' : n ≤ s.data.content.length) (ropen : s.data.readOpen = true) :
      BackendStep job s .work { s with
        data := s.data.get n
        backend := { s.backend with
          pc := .calling, received := s.backend.received ++ [s.data.content.take n] } }
  | recvEnd {len : ℕ} (hat : s.backend.pc = .head (.recv len)) (ropen : s.data.readOpen = true)
      (eof : len = 0 ∨ s.data.AtEnd) :
      BackendStep job s .work ((s.closeData job.cmd).goto (.head (.reap .recv)))
  | recvClosed {len : ℕ} (hat : s.backend.pc = .head (.recv len))
      (closed : s.data.readOpen = false) :
      -- the descriptor is -1
      BackendStep job s .work (s.goto (.head (.reap .report)))
  | recvFails {len : ℕ} (hat : s.backend.pc = .head (.recv len)) :
      BackendStep job s .hard (s.goto (.head (.reap .report)))
  -- chdb_copy_send
  | sendRaises (hat : s.backend.pc = .calling) (hcmd : job.cmd = .insert)
      (ht : s.backend.todo = none) :
      BackendStep job s .work (s.goto (.stopping .closeData))
  | writeCall {p : Bytes} {ps : List Bytes} (hat : s.backend.pc = .calling)
      (hcmd : job.cmd = .insert) (ht : s.backend.todo = some (p :: ps)) :
      BackendStep job s .work { s with
        backend := { s.backend with pc := .head (.write p), todo := some ps } }
  | sendFinished (hat : s.backend.pc = .calling) (hcmd : job.cmd = .insert)
      (ht : s.backend.todo = some []) :
      BackendStep job s .work (s.finish job.cmd)
  -- chdb_helper_write
  | dataWrite {k rest : Bytes} (hat : s.backend.pc = .head (.write (k ++ rest))) (pos : k ≠ [])
      (ropen : s.data.readOpen = true)
      (room : s.data.content.length + k.length ≤ s.data.cap) :
      BackendStep job s .work ({ s with data := s.data.put k room }.goto (.head (.write rest)))
  | dataWritten (hat : s.backend.pc = .head (.write [])) :
      BackendStep job s .work (s.goto .calling)
  | dataPipe {rest : Bytes} (hat : s.backend.pc = .head (.write rest)) (pos : rest ≠ [])
      (closed : s.data.readOpen = false) :
      BackendStep job s .work (s.goto (.head (.reap .report)))
  | dataFails {rest : Bytes} (hat : s.backend.pc = .head (.write rest)) (pos : rest ≠ []) :
      BackendStep job s .hard (s.goto (.head (.reap .report)))
  -- an error of PostgreSQL's, or CHECK_FOR_INTERRUPTS
  | raises (hat : s.backend.pc = .calling) :
      BackendStep job s .interrupt (s.goto (.stopping .closeData))
  | interrupt {t : Task} (hat : s.backend.pc = .head t) (hl : t.Loops s) :
      BackendStep job s .interrupt (s.goto (.stopping .closeData))
  -- the call would block, was interrupted, or (drain_and_reap) there is none
  | again {t : Task} (hat : s.backend.pc = .head t) (hl : t.Loops s) :
      BackendStep job s .idle (s.goto (.drain t))
  | eintr {t : Task} (hat : s.backend.pc = .head t) (hl : t.Loops s) : BackendStep job s .idle s
  -- drain_err
  | drainGot {t : Task} {n : ℕ} (hat : s.backend.pc = .drain t) (pos : 0 < n)
      (le : n ≤ s.err.content.length) (ropen : s.err.readOpen = true) :
      BackendStep job s .work { s with err := s.err.get n }
  | drainEnd {t : Task} (hat : s.backend.pc = .drain t) (ropen : s.err.readOpen = true)
      (eof : s.err.AtEnd) :
      BackendStep job s .work ({ s with err := s.err.closeRead }.goto (.drain t))
  | drained {t : Task} (hat : s.backend.pc = .drain t) (hw : t.Waits s) :
      BackendStep job s .idle (s.goto (.wait t))
  | drainedAll {a : After} (hat : s.backend.pc = .drain (.reap a))
      (closed : s.err.readOpen = false) :
      BackendStep job s .work (s.goto (.head (.reap a)))
  -- wait_fd
  | wake {t : Task} (hat : s.backend.pc = .wait t) : BackendStep job s .idle (s.goto (.head t))
  -- drain_and_reap, once the error channel has ended
  | errEnded {a : After} (hat : s.backend.pc = .head (.reap a)) (closed : s.err.readOpen = false) :
      BackendStep job s .work (s.goto (.waitpid a))
  | reap {a : After} {st : WaitStatus} (hat : s.backend.pc = .waitpid a)
      (hn : s.backend.status = none) (hst : s.helper.pc = .ended st) :
      BackendStep job s .work { s with backend := s.backend.afterReap (some st) a }
  | reapFails {a : After} (hat : s.backend.pc = .waitpid a) (hn : s.backend.status = none) :
      BackendStep job s .hard { s with backend := s.backend.afterReap none a }
  | reapAgain {a : After} {st : Option WaitStatus} (hat : s.backend.pc = .waitpid a)
      (hs : s.backend.status = some st) :
      BackendStep job s .work { s with backend := s.backend.afterReap st a }
  -- stop_helper
  | stopData (hat : s.backend.pc = .stopping .closeData) :
      BackendStep job s .work ((s.closeData job.cmd).goto (.stopping .closeErr))
  | stopErr (hat : s.backend.pc = .stopping .closeErr) :
      BackendStep job s .work ({ s with err := s.err.closeRead }.goto (.stopping .closeSetup))
  | stopSetup (hat : s.backend.pc = .stopping .closeSetup) :
      BackendStep job s .work ({ s with setup := s.setup.closeWrite }.goto (.stopping .kill))
  | stopReaped (hat : s.backend.pc = .stopping .kill) (hs : s.backend.status ≠ none) :
      BackendStep job s .work (s.goto .raised)
  | stopKill (hat : s.backend.pc = .stopping .kill) (hs : s.backend.status = none) :
      BackendStep job s .work ({ s with killed := true }.goto (.stopping .reap))
  | stopReap {st : WaitStatus} (hat : s.backend.pc = .stopping .reap)
      (hst : s.helper.pc = .ended st) :
      BackendStep job s .work { s with
        backend := { s.backend with pc := .raised, status := some (some st) } }

/-! ### The two together -/

/-- A step of either. -/
inductive Step (job : CopyJob) (k : Kind) (s s' : System) : Prop
  | helper (h : HelperStep job s k s')
  | backend (h : BackendStep job s k s')

/-- After the fork: the channels are empty, the setup payload is still to be written. -/
def System.start (setupCap errCap dataCap : ℕ+) (payload : Bytes) (todo : Option (List Bytes)) :
    System where
  setup := .fresh setupCap setupCap.pos
  err := .fresh errCap errCap.pos
  data := .fresh dataCap dataCap.pos
  helper := { pc := .setup, saying := [], fetched := [], appended := [], streamDone := false }
  backend := { pc := .head (.setup payload), received := [], todo := todo, finished := false
               status := none }
  killed := false

/-! ### What each side leaves alone -/

section
variable {cmd : ChdbCmdType} {h h' : HelperState} {rest got : Bytes}

theorem Fetches.alive (hf : Fetches h h') : h'.alive = true := by
  cases hf <;> rfl

theorem Starts.alive (hs : Starts cmd h h') : h'.alive = true := by
  cases hs with
  | fails text => rfl
  | select _ hf => exact hf.alive
  | insert _ => rfl

theorem WritesOn.alive (hw : WritesOn h rest h') : h'.alive = true := by
  cases hw with
  | more _ => rfl
  | next hf => exact hf.alive

theorem Appends.alive (ha : Appends h got h') (hpc : h.alive = true) : h'.alive = true := by
  cases ha with
  | ok => exact hpc
  | error text => rfl

theorem Done.alive (hd : Done h h') : h'.alive = true := by
  cases hd <;> rfl

theorem HelperState.At.alive {pc : HelperPc} (hat : h.At pc) (hpc : ∀ st, pc ≠ .ended st) :
    h.alive = true := by
  unfold HelperState.alive
  rw [hat.1]
  cases pc with
  | ended st => exact absurd rfl (hpc st)
  | _ => rfl

end

variable {job : CopyJob} {k : Kind} {s s' : System}

/-- The helper's steps leave the backend's ends as they are, and what it has written. -/
structure HelperFrame (cmd : ChdbCmdType) (s s' : System) : Prop where
  backend : s'.backend = s.backend
  killed : s'.killed = s.killed
  setup : s'.setup.writeOpen = s.setup.writeOpen
  setupSent : s'.setup.sent = s.setup.sent
  err : s'.err.readOpen = s.err.readOpen
  data : s'.backendData cmd = s.backendData cmd

theorem System.die_frame (cmd : ChdbCmdType) (s : System) (st : WaitStatus) :
    HelperFrame cmd s (s.die cmd st) := by
  refine ⟨rfl, rfl, rfl, rfl, rfl, ?_⟩
  unfold System.backendData System.die
  split <;> simp_all

theorem HelperStep.frame (h : HelperStep job s k s') : HelperFrame job.cmd s s' := by
  cases h with
  | readSetup => exact ⟨rfl, rfl, rfl, s.setup.get_sent, rfl, rfl⟩
  | writePipe | sayPipe | exit | crash | killed => exact s.die_frame job.cmd _
  | _ => exact ⟨rfl, rfl, rfl, rfl, rfl, rfl⟩

/-- A helper that has ended does not come back. -/
theorem HelperStep.alive_of (h : HelperStep job s k s') : s.helper.alive = true := by
  cases h with
  | readSetup hat | setupEnd hat | setupFails text hat | write hat | writePipe hat | read hat
  | readEnd hat | exit hat => exact hat.alive nofun
  | ioFails hat =>
    rcases hat with hat | ⟨rest, hat⟩
    · exact hat.alive nofun
    · exact hat.alive nofun
  | say halive | sayPipe halive | speak text halive | crash halive | killed halive => exact halive

/-- A helper that does not live has a status. -/
theorem exists_status {h : HelperState} (hgone : h.alive = false) : ∃ st, h.pc = .ended st := by
  unfold HelperState.alive at hgone
  split at hgone
  · exact ⟨_, ‹_›⟩
  · cases hgone

/-- The backend's steps leave the helper and its ends as they are. -/
structure BackendFrame (cmd : ChdbCmdType) (s s' : System) : Prop where
  helper : s'.helper = s.helper
  setup : s'.setup.readOpen = s.setup.readOpen
  err : s'.err.writeOpen = s.err.writeOpen
  data : s'.helperData cmd = s.helperData cmd

theorem System.closeData_helperData (cmd : ChdbCmdType) (s : System) :
    (s.closeData cmd).helperData cmd = s.helperData cmd := by
  unfold System.helperData System.closeData
  split <;> simp_all

theorem BackendStep.frame (h : BackendStep job s k s') : BackendFrame job.cmd s s' := by
  cases h with
  | readerFinished | sendFinished | recvEnd | stopData =>
    exact ⟨rfl, rfl, rfl, s.closeData_helperData job.cmd⟩
  | _ => exact ⟨rfl, rfl, rfl, rfl⟩

/-- An error that is being raised goes on being raised. -/
theorem BackendStep.raising (h : BackendStep job s k s') (hr : s.backend.pc.Raising) :
    s'.backend.pc.Raising := by
  cases h with
  | stopData hat | stopErr hat | stopSetup hat | stopKill hat => exact Or.inr ⟨_, rfl⟩
  | stopReaped hat | stopReap hat => exact Or.inl rfl
  | _ =>
    -- the others start where nothing is being raised
    rename_i hat
    simp_all [BackendPc.Raising]

/-! ### The helper's ends are open as long as it lives -/

structure HelperEnds (cmd : ChdbCmdType) (s : System) : Prop where
  setup : s.setup.readOpen = s.helper.alive
  err : s.err.writeOpen = s.helper.alive
  data : s.helperData cmd = s.helper.alive

theorem HelperEnds.start (cmd : ChdbCmdType) (setupCap errCap dataCap : ℕ+) (payload : Bytes)
    (todo : Option (List Bytes)) :
    HelperEnds cmd (.start setupCap errCap dataCap payload todo) where
  setup := rfl
  err := rfl
  data := by unfold System.helperData; split <;> rfl

theorem HelperEnds.die (cmd : ChdbCmdType) (s : System) (st : WaitStatus) :
    HelperEnds cmd (s.die cmd st) where
  setup := rfl
  err := rfl
  data := by unfold System.helperData System.die; split <;> simp_all [HelperState.alive]

/-- A helper that goes on keeps its ends as they are. -/
theorem HelperEnds.go {cmd : ChdbCmdType} (hends : HelperEnds cmd s)
    (halive : s.helper.alive = true) (halive' : s'.helper.alive = true)
    (hsetup : s'.setup.readOpen = s.setup.readOpen) (herr : s'.err.writeOpen = s.err.writeOpen)
    (hdata : s'.helperData cmd = s.helperData cmd) : HelperEnds cmd s' where
  setup := by rw [hsetup, hends.setup, halive, halive']
  err := by rw [herr, hends.err, halive, halive']
  data := by rw [hdata, hends.data, halive, halive']

theorem HelperEnds.step (hends : HelperEnds job.cmd s) (h : Step job k s s') :
    HelperEnds job.cmd s' := by
  cases h with
  | backend h =>
    have hframe := h.frame
    have hsame : s.helper.alive = s'.helper.alive := by rw [hframe.helper]
    exact ⟨hframe.setup.trans (hends.setup.trans hsame), hframe.err.trans (hends.err.trans hsame),
      hframe.data.trans (hends.data.trans hsame)⟩
  | helper h =>
    cases h with
    | readSetup hat live pos le =>
      have hpc := hat.alive nofun
      exact hends.go hpc hpc rfl rfl rfl
    | setupEnd hat live eof hs => exact hends.go (hat.alive nofun) hs.alive rfl rfl rfl
    | setupFails text hat live => exact hends.go (hat.alive nofun) rfl rfl rfl rfl
    | write hat live pos ropen room hw => exact hends.go (hat.alive nofun) hw.alive rfl rfl rfl
    | read hat live pos le ha =>
      have hpc := hat.alive nofun
      exact hends.go hpc (ha.alive hpc) rfl rfl rfl
    | readEnd hat live eof hd => exact hends.go (hat.alive nofun) hd.alive rfl rfl rfl
    | ioFails hat live =>
      have hpc : s.helper.alive = true := by
        rcases hat with hat | ⟨rest, hat⟩
        · exact hat.alive nofun
        · exact hat.alive nofun
      exact hends.go hpc rfl rfl rfl rfl
    | say halive hsay live pos ropen room => exact hends.go halive halive rfl rfl rfl
    | speak text halive hsay => exact hends.go halive halive rfl rfl rfl
    | _ => exact HelperEnds.die _ _ _

end PgChdb
