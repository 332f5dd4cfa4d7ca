import PgChdb.Lib.Descriptors
import PgChdb.Lib.Machine
import PgChdb.Helper.ErrorText
import PgChdb.Helper.System
import PgChdb.Setup.Payload

namespace PgChdb.Process

open CText Descriptors Machine

/-!
# `src/helper.c`, call by call

The functions that start the helper, trade bytes with it and clean up after it, as programs
over the backend's process: the `chdbHelper`, the descriptor table, and what the system calls
still to come will answer.  Every call takes the next answer, so a list of answers is a
schedule: short reads and writes, calls that would block, interrupts and failures, in any
order.  A run that uses its answers up stops there (`Stop.cut`), which makes every prefix of
a run a run.

* `World`, `Run` — the state, and programs over it;
* `sysRead`, `sysClose` and the like — the system calls; a call on a number that is not open
  fails with `EBADF`, whatever the schedule says;
* `drainErr`, `drainAndReap`, `stopHelper`, `reportHelper`, `chdbHelperStart`,
  `chdbHelperRecv`, `chdbHelperWrite`, `chdbHelperFinish` — the functions of the file;
* `execHelper` — what the child does between the fork and the exec.
-/

/-! ### The state -/

/-- Why a call failed. -/
inductive Errno where
  | eagain
  | eintr
  | epipe
  | ebadf
  | emfile
  | other (code : ℕ)
  deriving DecidableEq, Repr

/-- What a descriptor refers to: an end of one of the three channels, `/dev/null`, or a file the
    backend had open before. -/
inductive OpenFile where
  | data
  | dataPeer
  | err
  | errPeer
  | setup
  | setupPeer
  | devNull
  | other (n : ℕ)
  deriving DecidableEq, Repr

/-- The descriptors of a `chdbHelper`. -/
inductive FdField where
  | data
  | err
  | setup
  | dataPeer
  | errPeer
  | setupPeer
  deriving DecidableEq, Repr

/-- The file each of them is for. -/
def FdField.file : FdField → OpenFile
  | .data => .data
  | .err => .err
  | .setup => .setup
  | .dataPeer => .dataPeer
  | .errPeer => .errPeer
  | .setupPeer => .setupPeer

/-- `chdbHelper`.  A status that `waitpid` did not give is negative in the source, and none
    here; a descriptor is -1 once closed. -/
structure ChdbHelper where
  pid : ℤ
  fd : FdField → ℤ
  query : Bytes
  reaped : Bool
  status : Option WaitStatus
  waitErrno : Errno
  capture : ErrCapture

/-- `palloc0`, and what `chdb_helper_start` assigns before anything else. -/
def ChdbHelper.fresh (query : Bytes) : ChdbHelper where
  pid := -1
  fd _ := -1
  query := query
  reaped := false
  status := some (.exited 0)
  waitErrno := .other 0
  capture := .empty

@[simp] theorem ChdbHelper.fresh_fd (query : Bytes) (f : FdField) :
    (ChdbHelper.fresh query).fd f = -1 := rfl

/-- What the backend asks of the system and is looked at afterwards. -/
inductive SysCall where
  | opened (fd : ℤ)
  | closed (fd : ℤ)
  | forked (pid : ℤ)
  | killed (pid : ℤ) (sig : ℕ)
  /-- A `waitpid` that is not interrupted. -/
  | waited (pid : ℤ)
  /-- A step between the fork and the exec. -/
  | tried (success : Bool)
  deriving DecidableEq, Repr

/-- What the next call answers: a number of bytes, a number for a process, or an error. -/
abbrev Answer := Except Errno ℕ

/-- The process.  `interrupts` says of every `CHECK_FOR_INTERRUPTS` to come whether it raises,
    `unread` is what is still to be read of a file, and `exit` how the helper ends. -/
structure World where
  h : ChdbHelper
  table : Table OpenFile
  answers : List Answer
  interrupts : List Bool
  unread : OpenFile → Bytes
  exit : WaitStatus
  log : List SysCall

/-- What a function stops with. -/
inductive Stop where
  /-- `ereport(ERROR, …)` with its `errcontext`. -/
  | raised (e : Ereport) (context : Option Bytes)
  /-- `ereport(ERROR, errcode_for_…_access(), …)`, which takes its code from `errno`. -/
  | raisedErrno (e : Errno) (errmsg : Bytes) (errhint : Option Bytes)
  /-- `CHECK_FOR_INTERRUPTS` raises. -/
  | canceled
  /-- `_exit`, in the child. -/
  | exits (code : ℕ)
  /-- The schedule ends here. -/
  | cut
  deriving DecidableEq, Repr

abbrev Run := Prog Stop World

/-- What the run does not change: the kernel's choice of descriptors, `strerror`, the path of
    the program, the session's time zone, and the server's UTF-8 clipping. -/
structure Sys where
  alloc : Allocator OpenFile
  strerror : Errno → Bytes
  program : Bytes
  timezone : Bytes
  clip : MbCliplen

/-- A system that gives out the lowest free descriptor. -/
def plainSys : Sys where
  alloc := lowest 32
  strerror _ := lit "Unknown error"
  program := lit "/usr/lib/postgresql/chdb_helper"
  timezone := lit "UTC"
  clip := pgEncodingMbcliplen

/-! ### System calls -/

/-- The answer of the next call. -/
def nextAnswer : Run Answer := fun w =>
  match w.answers with
  | [] => .error .cut w
  | a :: answers => .ok a { w with answers }

/-- `CHECK_FOR_INTERRUPTS`. -/
def checkForInterrupts : Run Unit := fun w =>
  match w.interrupts with
  | [] => .ok () w
  | raises :: interrupts =>
    if raises then .error .canceled { w with interrupts } else .ok () { w with interrupts }

def record (call : SysCall) : Run Unit := modify fun w => { w with log := w.log ++ [call] }

def setHelper (f : ChdbHelper → ChdbHelper) : Run Unit := modify fun w => { w with h := f w.h }

def setTable (f : Table OpenFile → Table OpenFile) : Run Unit :=
  modify fun w => { w with table := f w.table }

/-- `h->… = fd`. -/
def setFd (f : FdField) (fd : ℤ) : Run Unit :=
  setHelper fun h => { h with fd := Function.update h.fd f fd }

/-- `close`, which leaves no descriptor open whatever it returns. -/
def sysClose (fd : ℤ) : Run Unit := do
  setTable fun t => t.close fd
  record (.closed fd)

/-- `read`: up to `len` of the bytes still to be read, none at the end of the file. -/
def sysRead (fd : ℤ) (len : ℕ) : Run (Except Errno Bytes) := do
  let w ← get
  match w.table.entry fd with
  | none => return .error .ebadf
  | some e =>
    match ← nextAnswer with
    | .error errno => return .error errno
    | .ok n =>
      let k := min (n + 1) len
      modify fun w => { w with unread := Function.update w.unread e.file ((w.unread e.file).drop k) }
      return .ok ((w.unread e.file).take k)

/-- `write`: some of the bytes. -/
def sysWrite (fd : ℤ) (p : Bytes) : Run (Except Errno ℕ) := do
  let w ← get
  match w.table.entry fd with
  | none => return .error .ebadf
  | some _ =>
    match ← nextAnswer with
    | .error errno => return .error errno
    | .ok n => return .ok (min (n + 1) p.length)

/-- `waitpid(pid, …, 0)`.  It blocks, so it is interrupted where another call is told to come
    again. -/
def sysWaitpid (pid : ℤ) : Run (Except Errno WaitStatus) := do
  match ← nextAnswer with
  | .ok _ =>
    record (.waited pid)
    let w ← get
    return .ok w.exit
  | .error errno =>
    if errno = .eintr ∨ errno = .eagain then return .error .eintr
    else
      record (.waited pid)
      return .error errno

/-- A call of which only the success matters. -/
def sysCall : Run (Except Errno Unit) := do
  match ← nextAnswer with
  | .ok _ => return .ok ()
  | .error errno => return .error errno

/-- A new descriptor for a file, not below a number. -/
def allocate (sys : Sys) (low : ℤ) (file : OpenFile) : Run (Except Errno ℤ) := fun w =>
  match hfree : sys.alloc.free w.table low with
  | none => .ok (.error .emfile) w
  | some fd =>
    .ok (.ok fd) { w with table := w.table.put fd (sys.alloc.spec _ _ _ hfree).2.1 ⟨file, false⟩ }

/-- `socketpair` and `pipe`: two descriptors or none. -/
def sysPair (sys : Sys) (first second : FdField) : Run (Except Errno (ℤ × ℤ)) := do
  match ← nextAnswer with
  | .error errno => return .error errno
  | .ok _ =>
    match ← allocate sys 0 first.file with
    | .error errno => return .error errno
    | .ok fd =>
      match ← allocate sys 0 second.file with
      | .error errno =>
        -- the kernel gives back the one it had reserved
        setTable fun t => t.close fd
        return .error errno
      | .ok fd' =>
        record (.opened fd)
        record (.opened fd')
        return .ok (fd, fd')

/-- A loop of the source.  Every turn but the last takes an answer. -/
def forever {α β : Type} (body : β → Run (β ⊕ α)) (b : β) : Run α := do
  let w ← get
  loop body .cut (w.answers.length + 1) b

/-- `WaitLatchOrSocket`, which returns when the descriptor is ready, and sooner. -/
def waitFd (_fd : ℤ) : Run Unit := return ()

/-! ### Ending the helper -/

/-- `close_fd`. -/
def closeFd (f : FdField) : Run Unit := do
  let w ← get
  if 0 ≤ w.h.fd f then
    sysClose (w.h.fd f)
    setFd f (-1)
  else return ()

/-- What a read leaves in the buffer: nothing when it was into the sink. -/
def keep (capture : ErrCapture) (got : Bytes) : ErrCapture :=
  capture.append (got.take capture.room) (List.length_take_le _ _)

/-- One turn of `drain_err`. -/
def drainTurn (_ : Unit) : Run (Unit ⊕ Unit) := do
  let w ← get
  if w.h.fd .err < 0 then return .inr ()
  else
    let room := w.h.capture.room
    match ← sysRead (w.h.fd .err) (if room = 0 then chdbHelperErrMax else room) with
    | .ok got =>
      if got = [] then
        closeFd .err
        return .inl ()
      else
        setHelper fun h => { h with capture := keep h.capture got }
        return .inl ()
    | .error errno => if errno = .eintr then return .inl () else return .inr ()

/-- `drain_err`. -/
def drainErr : Run Unit := forever drainTurn ()

/-- One turn of the loop of `reap`. -/
def reapTurn (_ : Unit) : Run (Unit ⊕ Unit) := do
  let w ← get
  match ← sysWaitpid w.h.pid with
  | .ok status =>
    setHelper fun h => { h with status := some status }
    return .inr ()
  | .error errno =>
    if errno = .eintr then return .inl ()
    else
      setHelper fun h => { h with waitErrno := errno, status := none }
      return .inr ()

/-- `reap`. -/
def reap : Run (Option WaitStatus) := do
  let w ← get
  if w.h.reaped then return w.h.status
  else
    forever reapTurn ()
    setHelper fun h => { h with reaped := true }
    let w ← get
    return w.h.status

/-- One turn of `drain_and_reap`. -/
def drainAndReapTurn (_ : Unit) : Run (Unit ⊕ Unit) := do
  let w ← get
  if w.h.fd .err < 0 then return .inr ()
  else
    checkForInterrupts
    drainErr
    let w ← get
    if 0 ≤ w.h.fd .err then
      waitFd (w.h.fd .err)
      return .inl ()
    else return .inl ()

/-- `drain_and_reap`. -/
def drainAndReap : Run (Option WaitStatus) := do
  forever drainAndReapTurn ()
  reap

/-- `stop_helper`. -/
def stopHelper : Run Unit := do
  closeFd .data
  closeFd .err
  closeFd .setup
  closeFd .dataPeer
  closeFd .errPeer
  closeFd .setupPeer
  let w ← get
  if 0 < w.h.pid ∧ w.h.reaped = false then
    record (.killed w.h.pid sigkill)
    let _ ← reap
    return ()
  else return ()

/-! ### Reports -/

/-- `%d`. -/
def showInt (n : ℤ) : Bytes := if n < 0 then byte '-' :: decimal n.natAbs else decimal n.natAbs

/-- `CHDB_HELPER_LOST_BACKEND`. -/
def chdbHelperLostBackend : ℕ := 2

/-- `helper_end`. -/
def helperEnd (sys : Sys) (h : ChdbHelper) : Bytes :=
  match h.status with
  | none => lit "chDB (pid " ++ showInt h.pid ++ lit ") could not be waited for: " ++
      sys.strerror h.waitErrno ++ lit "."
  | some (.exited code) =>
    if code = chdbHelperLostBackend then lit "chDB lost the channel to the copy."
    else lit "chDB exited with status " ++ decimal code ++ lit "."
  | some (.signaled _) => lit "chDB ended abnormally."

/-- `helper_error`, and what it leaves in the buffer. -/
def takeHelperError (sys : Sys) : Run (Option Bytes) := do
  let w ← get
  setHelper fun h => { h with capture := (helperError sys.clip w.h.capture).2 }
  return (helperError sys.clip w.h.capture).1.map cstr

/-- `report_helper`. -/
def reportHelper {α : Type} (sys : Sys) (what : Bytes) : Run α := do
  let _ ← drainAndReap
  let detail ← takeHelperError sys
  let w ← get
  match w.h.status with
  | some (.signaled sig) =>
    throw (.raised { errcode := .externalRoutineException
                     errmsg := lit "chdb: chDB was terminated by signal " ++ decimal sig
                     errdetail := some (detail.getD (lit "chDB produced no message.")) }
      (some (lit "query: " ++ w.h.query)))
  | _ =>
    throw (.raised { errcode := .externalRoutineException
                     errmsg := lit "chdb: " ++ what
                     errdetail := some (detail.getD (helperEnd sys w.h)) }
      (some (lit "query: " ++ w.h.query)))

/-! ### Starting the helper -/

/-- The two flags `set_flag` is called with. -/
inductive FdFlag where
  | cloexec
  | nonblock
  deriving DecidableEq, Repr

/-- A call on a descriptor, which has to be open. -/
def sysOnFd (fd : ℤ) : Run (Except Errno Unit) := do
  let w ← get
  match w.table.entry fd with
  | none => return .error .ebadf
  | some _ => sysCall

/-- `set_flag`. -/
def setFlag (sys : Sys) (f : FdField) (flag : FdFlag) : Run Unit := do
  let failed (errno : Errno) : Run Unit := throw (.raisedErrno errno
    (lit "chdb: could not configure the chDB channel: " ++ sys.strerror errno) none)
  let w ← get
  match ← sysOnFd (w.h.fd f) with
  | .error errno => failed errno
  | .ok () =>
    match ← sysOnFd (w.h.fd f) with
    | .error errno => failed errno
    | .ok () => if flag = .cloexec then setTable fun t => t.setCloexec (w.h.fd f) true else return ()

/-- `open_channel`. -/
def openChannel (sys : Sys) (first second : FdField) : Run Unit := do
  match ← sysPair sys first second with
  | .error errno => throw (.raisedErrno errno
      (lit "chdb: could not open a channel to chDB: " ++ sys.strerror errno) none)
  | .ok (fd, fd') =>
    setFd first fd
    setFd second fd'

/-- One turn of `write_all`, which gives the error of a write that cannot go on. -/
def writeTurn (fd : ℤ) (p : Bytes) : Run (Bytes ⊕ Option Errno) := do
  if p = [] then return .inr none
  else
    checkForInterrupts
    match ← sysWrite fd p with
    | .ok put => return .inl (p.drop put)
    | .error errno =>
      if errno = .eagain then
        drainErr
        waitFd fd
        return .inl p
      else if errno = .eintr then return .inl p
      else return .inr (some errno)

/-- `write_all`. -/
def writeAll (fd : ℤ) (p : Bytes) : Run (Option Errno) := forever (writeTurn fd) p

/-- `write_setup`. -/
def writeSetup (sys : Sys) (payload : Bytes) : Run Unit := do
  let w ← get
  match ← writeAll (w.h.fd .setup) payload with
  | some errno =>
    -- a closed read end means the helper is already going
    if errno = .epipe then reportHelper sys (lit "could not start chDB")
    else throw (.raisedErrno errno
      (lit "chdb: could not send the query to chDB: " ++ sys.strerror errno) none)
  | none => closeFd .setup

/-- The first half of `chdb_helper_start`: everything before the fork, with the payload. -/
def startChannels (sys : Sys) (ctx : ChdbHelperContext) (query : Bytes)
    (params : List (Bytes × Bytes)) : Run Bytes := do
  setHelper fun _ => .fresh query
  match ← sysCall with
  | .error errno => throw (.raisedErrno errno
      (lit "chdb: could not execute \"" ++ sys.program ++ lit "\": " ++ sys.strerror errno)
      (some (lit "The chdb extension installs chdb_helper beside its libraries.")))
  | .ok () =>
    match buildSetup ctx sys.timezone query params with
    | .error e => throw (.raised e none)
    | .ok payload =>
      openChannel sys .data .dataPeer
      openChannel sys .err .errPeer
      openChannel sys .setupPeer .setup
      setFlag sys .data .cloexec
      setFlag sys .err .cloexec
      setFlag sys .setup .cloexec
      setFlag sys .data .nonblock
      setFlag sys .err .nonblock
      setFlag sys .setup .nonblock
      return payload

/-- `fork`, in the backend. -/
def forkHelper (sys : Sys) : Run Unit := do
  match ← nextAnswer with
  | .error errno => throw (.raisedErrno errno
      (lit "chdb: could not fork: " ++ sys.strerror errno) none)
  | .ok n =>
    setHelper fun h => { h with pid := n + 1 }
    record (.forked (n + 1))

/-- `chdb_helper_start`. -/
def chdbHelperStart (sys : Sys) (ctx : ChdbHelperContext) (query : Bytes)
    (params : List (Bytes × Bytes)) : Run Unit := do
  let payload ← startChannels sys ctx query params
  forkHelper sys
  -- `elog` checks for interrupts
  checkForInterrupts
  closeFd .dataPeer
  closeFd .errPeer
  closeFd .setupPeer
  writeSetup sys payload

/-! ### Trading bytes with it -/

/-- One turn of `chdb_helper_recv`. -/
def recvTurn (sys : Sys) (len : ℕ) (_ : Unit) : Run (Unit ⊕ Bytes) := do
  checkForInterrupts
  let w ← get
  match ← sysRead (w.h.fd .data) len with
  | .ok got =>
    if got = [] then
      closeFd .data
      let status ← drainAndReap
      if status = some (.exited 0) then return .inr []
      else reportHelper sys (lit "error executing chDB query")
    else return .inr got
  | .error errno =>
    if errno = .eagain then
      drainErr
      waitFd (w.h.fd .data)
      return .inl ()
    else if errno = .eintr then return .inl ()
    else reportHelper sys (lit "error fetching chDB query result")

/-- `chdb_helper_recv`: the bytes it returns the number of. -/
def chdbHelperRecv (sys : Sys) (len : ℕ) : Run Bytes := forever (recvTurn sys len) ()

/-- `chdb_helper_write`. -/
def chdbHelperWrite (sys : Sys) (p : Bytes) : Run Unit := do
  let w ← get
  match ← writeAll (w.h.fd .data) p with
  | some _ => reportHelper sys (lit "error appending to chDB query")
  | none => return ()

/-- `chdb_helper_finish`. -/
def chdbHelperFinish (sys : Sys) : Run Unit := do
  closeFd .data
  let status ← drainAndReap
  if status = some (.exited 0) then return ()
  else reportHelper sys (lit "error finishing chDB query")

/-! ### The child -/

/-- The outcome of a step between the fork and the exec. -/
def tried {α : Type} (result : Except Errno α) : Run (Except Errno α) := do
  record (.tried result.isOk)
  return result

/-- `open("/dev/null", O_RDWR)`. -/
def openNull (sys : Sys) : Run ℤ := do
  match ← nextAnswer with
  | .error errno =>
    let _ ← tried (.error errno : Except Errno Unit)
    return -1
  | .ok _ =>
    match ← tried (← allocate sys 0 .devNull) with
    | .error _ => return -1
    | .ok fd => return fd

/-- `fcntl(fd, F_DUPFD, low)`. -/
def dupFd (sys : Sys) (fd low : ℤ) : Run ℤ := do
  let w ← get
  match w.table.entry fd with
  | none =>
    let _ ← tried (.error .ebadf : Except Errno Unit)
    return -1
  | some e =>
    match ← nextAnswer with
    | .error errno =>
      let _ ← tried (.error errno : Except Errno Unit)
      return -1
    | .ok _ =>
      match ← tried (← allocate sys low e.file) with
      | .error _ => return -1
      | .ok high => return high

/-- `CHDB_SETUP_FD`. -/
def chdbSetupFd : ℤ := 3

/-- `reserve_fd`. -/
def reserveFd (sys : Sys) (fd : ℤ) : Run ℤ := do
  if fd > chdbSetupFd then return fd
  else
    let high ← dupFd sys fd 10
    setTable fun t => t.close fd
    return high

/-- `place_fd`. -/
def placeFd (fd : ℤ) (target : ℕ) : Run Bool := do
  match ← tried (← sysOnFd fd) with
  | .error _ => return false
  | .ok () =>
    let w ← get
    if fd = target then
      setTable fun t => t.setCloexec fd false
      return true
    else
      match w.table.entry fd with
      | none => return false
      | some e =>
        setTable fun t => t.put target (Int.natCast_nonneg target) ⟨e.file, false⟩
        return true

/-- `exec_helper`, with the table the new program starts with. -/
def execHelper (sys : Sys) (ctx : ChdbHelperContext) : Run (Table OpenFile) := do
  let null ← openNull sys
  let w ← get
  setFd .dataPeer (← reserveFd sys (w.h.fd .dataPeer))
  setFd .errPeer (← reserveFd sys (w.h.fd .errPeer))
  setFd .setupPeer (← reserveFd sys (w.h.fd .setupPeer))
  let null ← reserveFd sys null
  let w ← get
  let data := w.h.fd .dataPeer
  let placed ← (do
    if ← placeFd (if ctx.cmd = .insert then data else null) 0 then
      if ← placeFd (if ctx.cmd = .insert then null else data) 1 then
        if ← placeFd (w.h.fd .errPeer) 2 then
          placeFd (w.h.fd .setupPeer) 3
        else return false
      else return false
    else return false)
  -- `signal` and `prctl` do not fail
  if placed then
    match ← tried (← sysCall) with
    | .error _ => throw (.exits 127)
    | .ok () =>
      let w ← get
      return w.table.exec
  else throw (.exits 126)

end PgChdb.Process
