import PgChdb.Helper.System
import PgChdb.Native.Send

namespace PgChdb

open CText Channels

/-!
# `COPY TO`: when an export is committed

The helper commits an export, with `chdb_stream_done`, when a read of its input returns 0.
That is how the backend tells it that all blocks are there; but an abort closes the same
descriptor, and `stop_helper` closes it before it kills the helper.  A helper that reads in
between takes the blocks it has for the whole.

* `sendTodo` — what `chdb_copy_send` hands to the channel, call by call;
* `Exposed`, `ReadsAbort` — the state after such a close, and the read in it;
* `BackendPc.Sends`, `Inserts` — how far the scan has been sent, where the backend is; the
  invariant, and `Inserts.step`;
* `copyTo_whole` — in a run without such a read what is committed is the scan;
* `copyTo_partial` — a run with one, which commits the first of two blocks.
-/

variable {job : CopyJob} {k : Kind} {s s' : System}

/-! ### The gap in `stop_helper` -/

/-- The arguments of `chdb_helper_write`, in order; a call of anything else that may raise
    counts as one that writes nothing.  None if `writer_for` raises. -/
def sendTodo {T δ : Type} (enc : Encoder T δ)
    (parseTuple : Bytes → Raises (List (Option Bytes × T))) (clause : Bytes)
    (attrs : List FormPgAttribute) (attnums : List ℕ) (scan : List (List (Option δ))) :
    Option (List Bytes) :=
  match chdbCopySend enc parseTuple clause attrs attnums scan with
  | .ok sent => some (sent.calls.map SendCall.payload)
  | .error _ => none

/-- The helper is at its read and finds the end of its input, which is there only because
    `stop_helper` has closed the channel of an unfinished copy; the kill is still to come. -/
structure Exposed (s : System) : Prop where
  reading : s.helper.At .reading
  live : s.killed = false
  eof : s.data.AtEnd
  raising : s.backend.pc.Raising
  unfinished : s.backend.finished = false

/-- The helper makes that read. -/
def ReadsAbort (job : CopyJob) (k : Kind) (s s' : System) : Prop :=
  Exposed s ∧ k = .work ∧ HelperStep job s k s'

/-! ### How far the scan has been sent -/

/-- The helper's input so far is what it has appended. -/
def HelperState.Inserts (taken : Bytes) (h : HelperState) : Prop :=
  match h.pc with
  | .setup => h.appended = taken ∧ h.streamDone = false
  | .reading => h.appended = taken ∧ h.streamDone = false
  | .writing _ => False
  | _ => True

/-- What has been sent and what is still to be sent make up the whole, if `chdb_copy_send`
    gets that far. -/
def BackendState.Unsent (sent rest : Bytes) (whole : Option Bytes) (b : BackendState) : Prop :=
  b.finished = false ∧ b.todo.map (fun ps => sent ++ rest ++ ps.flatten) = whole

def Task.Sends (whole : Option Bytes) (s : System) : Task → Prop
  | .setup _ => s.backend.Unsent s.data.sent [] whole
  | .write rest => s.backend.Unsent s.data.sent rest whole
  | .reap .finish => s.backend.finished = true
  | .reap .report => True
  | _ => False

def BackendPc.Sends (whole : Option Bytes) (s : System) : BackendPc → Prop
  | .calling => s.backend.Unsent s.data.sent [] whole
  | .head t => t.Sends whole s
  | .drain t => t.Sends whole s
  | .wait t => t.Sends whole s
  | .waitpid a => (Task.reap a).Sends whole s
  | _ => True

structure Inserts (whole : Option Bytes) (s : System) : Prop where
  pc : s.backend.pc.Sends whole s
  helper : s.helper.Inserts s.data.taken
  finished : s.backend.finished = true → whole = some s.data.sent
  closed : s.data.writeOpen = false → s.backend.finished = true ∨ s.backend.pc.Raising
  done : s.helper.streamDone = true →
    s.backend.finished = true ∧ whole = some s.helper.appended

theorem Inserts.start (setupCap errCap dataCap : ℕ+) (payload : Bytes)
    (todo : Option (List Bytes)) :
    Inserts (todo.map List.flatten) (.start setupCap errCap dataCap payload todo) where
  pc := ⟨rfl, rfl⟩
  helper := ⟨rfl, rfl⟩
  finished := nofun
  closed := nofun
  done := nofun

/-! ### The helper's steps -/

/-- Away from its reads the helper neither takes data nor comes to its end. -/
theorem HelperState.Inserts.of_exits {h : HelperState} {taken : Bytes} {code : ℕ}
    (hpc : h.pc = .exits code) : h.Inserts taken := by
  unfold HelperState.Inserts
  rw [hpc]
  trivial

/-- Where the backend is does not change with the helper. -/
theorem BackendPc.Sends.congr {whole : Option Bytes} {pc : BackendPc} (hpc : pc.Sends whole s)
    (hbackend : s'.backend = s.backend) (hsent : s'.data.sent = s.data.sent) :
    pc.Sends whole s' := by
  have htask : ∀ t : Task, t.Sends whole s → t.Sends whole s' := by
    intro t ht
    unfold Task.Sends at ht ⊢
    rwa [hbackend, hsent]
  cases pc with
  | calling =>
    unfold BackendPc.Sends at hpc ⊢
    rwa [hbackend, hsent]
  | head t => exact htask t hpc
  | drain t => exact htask t hpc
  | wait t => exact htask t hpc
  | waitpid a => exact htask (.reap a) hpc
  | _ => trivial

/-- A step of the helper that leaves alone what the channel has carried and what has been
    appended. -/
theorem Inserts.helperQuiet {whole : Option Bytes} (hi : Inserts whole s)
    (hbackend : s'.backend = s.backend) (hsent : s'.data.sent = s.data.sent)
    (hopen : s'.data.writeOpen = s.data.writeOpen) (hhelper : s'.helper.Inserts s'.data.taken)
    (happended : s'.helper.appended = s.helper.appended)
    (hdone : s'.helper.streamDone = s.helper.streamDone) : Inserts whole s' where
  pc := by
    rw [hbackend]
    exact hi.pc.congr hbackend hsent
  helper := hhelper
  finished := by
    rw [hbackend, hsent]
    exact hi.finished
  closed := by
    rw [hbackend, hopen]
    exact hi.closed
  done := by
    rw [hbackend, happended, hdone]
    exact hi.done

/-- The helper's end, in the INSERT direction. -/
theorem Inserts.die {whole : Option Bytes} (hi : Inserts whole s) (hcmd : job.cmd = .insert)
    (st : WaitStatus) : Inserts whole (s.die job.cmd st) := by
  have hdata : (s.die job.cmd st).data = s.data.closeRead := if_pos hcmd
  refine hi.helperQuiet rfl ?_ ?_ trivial rfl rfl
  · rw [hdata]
    rfl
  · rw [hdata]
    rfl

/-- A read of 0 that is no `ReadsAbort` comes after `chdb_helper_finish`. -/
theorem Inserts.finished_of_end {whole : Option Bytes} (hi : Inserts whole s)
    (hat : s.helper.At .reading) (live : s.killed = false) (eof : s.data.AtEnd)
    (hsafe : ¬ Exposed s) : s.backend.finished = true := by
  rcases hi.closed eof.2 with hfinished | hraising
  · exact hfinished
  · by_contra hunfinished
    exact hsafe ⟨hat, live, eof, hraising, Bool.eq_false_iff.mpr hunfinished⟩

theorem Inserts.helperStep {whole : Option Bytes} (hi : Inserts whole s)
    (h : HelperStep job s k s') (hcmd : job.cmd = .insert) (hok : ¬ ReadsAbort job k s s') :
    Inserts whole s' := by
  have hhelper := hi.helper
  unfold HelperState.Inserts at hhelper
  have hstep := h
  cases h with
  | readSetup hat | say hat | speak text hat =>
    exact hi.helperQuiet rfl rfl rfl hi.helper rfl rfl
  | setupEnd hat live eof hs =>
    rw [hat.1] at hhelper
    cases hs with
    | fails text => exact hi.helperQuiet rfl rfl rfl (.of_exits rfl) rfl rfl
    | select hsel hf => exact absurd hcmd hsel
    | insert _ => exact hi.helperQuiet rfl rfl rfl hhelper rfl rfl
  | write hat live pos ropen room hw =>
    rw [hat.1] at hhelper
    exact hhelper.elim
  | @read n _ hat live pos le ha =>
    rw [hat.1] at hhelper
    cases ha with
    | error text => exact hi.helperQuiet rfl s.data.get_sent rfl (.of_exits rfl) rfl rfl
    | ok =>
      -- what has been read has been appended
      refine ⟨hi.pc.congr rfl s.data.get_sent, ?_, ?_, hi.closed, ?_⟩
      · unfold HelperState.Inserts
        dsimp only
        rw [hat.1]
        exact ⟨congrArg (· ++ s.data.content.take n) hhelper.1, hhelper.2⟩
      · rw [Pipe.get_sent]
        exact hi.finished
      · intro hdone
        rw [hhelper.2] at hdone
        cases hdone
  | readEnd hat live eof hd =>
    rw [hat.1] at hhelper
    -- the end of the input is the end of the scan, and all of it has been taken
    have hfinished := hi.finished_of_end hat live eof fun he => hok ⟨he, rfl, hstep⟩
    have hwhole : whole = some s.helper.appended := by
      rw [hhelper.1, Pipe.taken_eq_sent eof.1]
      exact hi.finished hfinished
    cases hd with
    | ok | error text =>
      exact ⟨hi.pc.congr rfl rfl, trivial, hi.finished, hi.closed, fun _ => ⟨hfinished, hwhole⟩⟩
  | setupFails text hat | ioFails hat => exact hi.helperQuiet rfl rfl rfl (.of_exits rfl) rfl rfl
  | writePipe hat | sayPipe hat | exit hat | crash hat | killed hat => exact hi.die hcmd _

/-! ### The backend's steps -/

/-- A step of the backend that neither writes data nor closes the channel. -/
theorem Inserts.backendQuiet {whole : Option Bytes} (hi : Inserts whole s)
    (h : BackendStep job s k s') (hdata : s'.data = s.data)
    (hfinished : s'.backend.finished = s.backend.finished)
    (hpc : s'.backend.pc.Sends whole s') : Inserts whole s' where
  pc := hpc
  helper := by
    rw [h.frame.helper, hdata]
    exact hi.helper
  finished := by
    rw [hfinished, hdata]
    exact hi.finished
  closed := by
    rw [hfinished, hdata]
    exact fun hclosed => (hi.closed hclosed).imp id h.raising
  done := by
    rw [h.frame.helper, hfinished]
    exact hi.done

/-- Closing the channel leaves its bytes alone. -/
theorem closeData_sent (cmd : ChdbCmdType) (s : System) :
    (s.closeData cmd).data.sent = s.data.sent ∧ (s.closeData cmd).data.taken = s.data.taken := by
  unfold System.closeData
  dsimp only
  constructor
  · split <;> rfl
  · split <;> rfl

/-- The wait for the helper's end leads nowhere else once the channel is closed. -/
theorem Inserts.afterReap {whole : Option Bytes} {a : After} {status : Option WaitStatus}
    (hi : Inserts whole s) (h : BackendStep job s k s') (hat : s.backend.pc = .waitpid a)
    (hs' : s' = { s with backend := s.backend.afterReap status a }) : Inserts whole s' := by
  subst hs'
  have hpc := hi.pc
  rw [hat] at hpc
  rcases s.backend.afterReap_cases status a with ⟨rfl, -, hreap⟩ | ⟨-, -, hreap⟩ | hreap
  · exact hpc.elim
  · refine hi.backendQuiet h rfl ?_ ?_
    · rw [hreap]
    · rw [hreap]
      trivial
  · refine hi.backendQuiet h rfl ?_ ?_
    · rw [hreap]
    · rw [hreap]
      trivial

theorem Inserts.backendStep {whole : Option Bytes} (hi : Inserts whole s)
    (h : BackendStep job s k s') (hcmd : job.cmd = .insert) : Inserts whole s' := by
  have hpc := hi.pc
  have hclose := closeData_sent job.cmd s
  have hstep := h
  cases h with
  | recvCall hat hsel | readerRaises hat hsel | readerFinished hat hsel => exact absurd hcmd hsel
  | recvGot hat | recvEnd hat =>
    -- no INSERT is in `chdb_helper_recv`
    rw [hat] at hpc
    exact hpc.elim
  | eintr hat => exact hi
  | setupWrite hat | setupWritten hat | dataWritten hat | again hat | drainEnd hat | drained hat
  | drainedAll hat | wake hat | errEnded hat =>
    -- what is still to be sent is the same at both ends of the step
    rw [hat] at hpc
    exact hi.backendQuiet hstep rfl rfl hpc
  | drainGot hat => exact hi.backendQuiet hstep rfl rfl (hpc.congr rfl rfl)
  | writeCall hat _ ht =>
    rw [hat] at hpc
    refine hi.backendQuiet hstep rfl rfl ⟨hpc.1, ?_⟩
    rw [← hpc.2, ht]
    simp
  | @dataWrite k rest hat pos ropen room =>
    rw [hat] at hpc
    refine ⟨⟨hpc.1, ?_⟩, hi.helper, fun hf => ?_, ?_, hi.done⟩
    · show s.backend.todo.map (fun ps => (s.data.put k room).sent ++ rest ++ ps.flatten) = whole
      rw [Pipe.put_sent, List.append_assoc s.data.sent]
      exact hpc.2
    · exact absurd (hpc.1.symm.trans hf) Bool.false_ne_true
    · exact fun hclosed => (hi.closed hclosed).imp id hstep.raising
  | sendFinished hat _ ht =>
    -- nothing is left to send, so the whole has been sent
    rw [hat] at hpc
    have hwhole : whole = some s.data.sent := by
      rw [← hpc.2, ht]
      simp
    refine ⟨rfl, ?_, fun _ => ?_, fun _ => Or.inl rfl, fun hd => ⟨rfl, (hi.done hd).2⟩⟩
    · show s.helper.Inserts (s.closeData job.cmd).data.taken
      rw [hclose.2]
      exact hi.helper
    · show whole = some (s.closeData job.cmd).data.sent
      rw [hclose.1]
      exact hwhole
  | reap hat | reapFails hat | reapAgain hat => exact hi.afterReap hstep hat rfl
  | stopData hat =>
    refine ⟨trivial, ?_, ?_, fun _ => Or.inr (Or.inr ⟨_, rfl⟩), hi.done⟩
    · show s.helper.Inserts (s.closeData job.cmd).data.taken
      rw [hclose.2]
      exact hi.helper
    · show s.backend.finished = true → whole = some (s.closeData job.cmd).data.sent
      rw [hclose.1]
      exact hi.finished
  | setupPipe hat | setupFails hat | recvClosed hat | recvFails hat | sendRaises hat
  | dataPipe hat | dataFails hat | raises hat | interrupt hat | stopErr hat | stopSetup hat
  | stopReaped hat | stopKill hat | stopReap hat =>
    -- an error is reported or raised, and nothing more is sent
    exact hi.backendQuiet hstep rfl rfl trivial

/-! ### What is committed -/

/-- **Without a read in the gap, what is committed is the scan.**  In every run in which the
    helper does not read the end of its input between the close and the kill of an aborted
    copy, it calls `chdb_stream_done` only if `chdb_copy_send` has sent all its blocks and
    `chdb_helper_finish` was called, and what it has appended is the scan. -/
theorem copyTo_whole {T δ : Type} {enc : Encoder T δ}
    {parseTuple : Bytes → Raises (List (Option Bytes × T))} {clause : Bytes}
    {attrs : List FormPgAttribute} {attnums : List ℕ} {scan : List (List (Option δ))}
    (job : CopyJob) (hcmd : job.cmd = .insert) (setupCap errCap dataCap : ℕ+) (payload : Bytes)
    {s : System}
    (hrun : Run (Step job) (fun k a b => ¬ ReadsAbort job k a b)
      (.start setupCap errCap dataCap payload
        (sendTodo enc parseTuple clause attrs attnums scan)) s)
    (hdone : s.helper.streamDone = true) :
    s.backend.finished = true ∧ ∃ sent,
      chdbCopySend enc parseTuple clause attrs attnums scan = .ok sent ∧
      s.helper.appended = written sent.calls ∧
      (attnums ≠ [] → SentInBlocks enc sent.writer.cols attnums scan s.helper.appended) := by
  have hi : Inserts ((sendTodo enc parseTuple clause attrs attnums scan).map List.flatten) s := by
    refine hrun.invariant (.start setupCap errCap dataCap payload _) ?_
    intro k a b ha hstep hok
    cases hstep with
    | helper h => exact ha.helperStep h hcmd hok
    | backend h => exact ha.backendStep h hcmd
  obtain ⟨hfinished, hwhole⟩ := hi.done hdone
  refine ⟨hfinished, ?_⟩
  cases hsent : chdbCopySend enc parseTuple clause attrs attnums scan with
  | error e =>
    rw [sendTodo, hsent] at hwhole
    cases hwhole
  | ok sent =>
    have happended : s.helper.appended = written sent.calls := by
      rw [sendTodo, hsent] at hwhole
      rw [written, List.flatMap_def]
      exact (Option.some.inj hwhole).symm
    refine ⟨sent, rfl, happended, fun hne => ?_⟩
    rw [happended]
    exact (chdbCopySend_written hne hsent).1

/-! ### A run through the gap -/

/-- While nothing is raised, no read is in the gap. -/
theorem not_readsAbort (h : ¬ s.backend.pc.Raising) : ¬ ReadsAbort job k s s' :=
  fun hr => h hr.1.raising

theorem not_raising_calling : ¬ BackendPc.Raising .calling := by
  rintro (h | ⟨p, h⟩) <;> cases h

theorem not_raising_head (t : Task) : ¬ BackendPc.Raising (.head t) := by
  rintro (h | ⟨p, h⟩) <;> cases h

/-- The calls that write nothing are made one after the other. -/
theorem run_emptyWrites {s₀ : System} (hcmd : job.cmd = .insert) (n : ℕ) {ps : List Bytes}
    (hrun : Run (Step job) (fun k a b => ¬ ReadsAbort job k a b) s₀ s)
    (hat : s.backend.pc = .calling) (ht : s.backend.todo = some (List.replicate n [] ++ ps)) :
    Run (Step job) (fun k a b => ¬ ReadsAbort job k a b) s₀
      { s with backend := { s.backend with todo := some ps } } := by
  induction n generalizing s with
  | zero =>
    have hsame : { s with backend := { s.backend with todo := some ps } } = s := by
      rw [show some ps = s.backend.todo from ht.symm]
    rwa [hsame]
  | succ n ih =>
    have hcall := hrun.next (.backend (.writeCall hat hcmd ht))
      (not_readsAbort (by rw [hat]; exact not_raising_calling))
    have hwritten := hcall.next (.backend (.dataWritten rfl)) (not_readsAbort (not_raising_head _))
    have hrest := ih hwritten rfl rfl
    have hsame : { s with backend := { s.backend with todo := some ps } } =
        { s with backend := { s.backend with pc := .calling, todo := some ps } } := by
      rw [← hat]
    rw [hsame]
    exact hrest

/-- COPY TO, with a helper that can be killed. -/
def insertJob : CopyJob where
  cmd := .insert
  reader _ := .raises
  crashes st := st ≠ .exited 0

/-- What `chdb_copy_send` makes of the rows, each a block. -/
def blocksOf (scan : List (List (Option ℕ))) : Option (List Bytes) :=
  sendTodo oneRowBlocks (fun _ => .ok [(some (lit "a"), ())]) (lit "a Int32")
    [intAttribute (lit "a")] [1] scan

/-- The first block has gone from the scan into the helper's hands; `ps` is still to come. -/
def firstBlockSent (ps : List Bytes) : System where
  setup := ((Pipe.put (.fresh 64 (by decide)) (lit "I") (by decide)).get 1).closeWrite
  err := .fresh 64 (by decide)
  data := (Pipe.put (.fresh 64 (by decide)) (lit "0.") (by decide)).get 2
  helper := { pc := .reading, saying := [], fetched := [], appended := lit "0."
              streamDone := false }
  backend := { pc := .calling, received := [], todo := some ps, finished := false, status := none }
  killed := false

theorem run_firstBlock {todo : Option (List Bytes)} {ps : List Bytes}
    (htodo : todo = some (List.replicate 6 [] ++ lit "0." :: ps)) :
    Run (Step insertJob) (fun k a b => ¬ ReadsAbort insertJob k a b)
      (.start 64 64 64 (lit "I") todo) (firstBlockSent ps) := by
  subst htodo
  have hhead := not_raising_head
  have h₀ : Run (Step insertJob) (fun k a b => ¬ ReadsAbort insertJob k a b)
    (.start 64 64 64 (lit "I") (some (List.replicate 6 [] ++ lit "0." :: ps))) _ := .start
  -- the setup payload crosses, and the helper comes to its read
  have h₁ := h₀.next (.backend (.setupWrite (k := lit "I") rfl nofun rfl
    (Nat.le_of_ble_eq_true rfl))) (not_readsAbort (hhead _))
  have h₂ := h₁.next (.helper (.readSetup (n := 1) ⟨rfl, rfl⟩ rfl (by decide) (Nat.le_refl 1)))
    (not_readsAbort (hhead _))
  have h₃ := h₂.next (.backend (.setupWritten rfl)) (not_readsAbort (hhead _))
  have h₄ := h₃.next (.helper (.setupEnd ⟨rfl, rfl⟩ rfl ⟨rfl, rfl⟩ (.insert rfl)))
    (not_readsAbort not_raising_calling)
  -- the row is appended and encoded, and its block written
  have h₅ := run_emptyWrites rfl 6 h₄ rfl rfl
  have h₆ := h₅.next (.backend (.writeCall rfl rfl rfl)) (not_readsAbort not_raising_calling)
  have h₇ := h₆.next (.backend (.dataWrite (k := lit "0.") rfl nofun rfl
    (Nat.le_of_ble_eq_true rfl))) (not_readsAbort (hhead _))
  have h₈ := h₇.next (.helper (.read (n := 2) ⟨rfl, rfl⟩ rfl (by decide) (Nat.le_refl 2) .ok))
    (not_readsAbort (hhead _))
  exact h₈.next (.backend (.dataWritten rfl)) (not_readsAbort (hhead _))

/-- A scan of one row, to its end. -/
theorem copyTo_whole_oneRow :
    ∃ s, Run (Step insertJob) (fun k a b => ¬ ReadsAbort insertJob k a b)
        (.start 64 64 64 (lit "I") (blocksOf [[some 48]])) s ∧
      s.helper.streamDone = true ∧ s.helper.appended = lit "0." ∧ s.backend.finished = true := by
  have hscan : blocksOf [[some 48]] = some (List.replicate 6 [] ++ lit "0." :: []) := by
    decide +kernel
  have h₁ := run_firstBlock hscan
  have h₂ := h₁.next (.backend (.sendFinished rfl rfl rfl)) (not_readsAbort not_raising_calling)
  have h₃ := h₂.next (.helper (.readEnd ⟨rfl, rfl⟩ rfl ⟨rfl, rfl⟩ .ok))
    (not_readsAbort (not_raising_head _))
  exact ⟨_, h₃, rfl, rfl, (copyTo_whole insertJob rfl 64 64 64 (lit "I") h₃ rfl).1⟩

/-- **An aborted copy is committed.**  After the first of two blocks the backend is cancelled;
    it closes the data channel, and before it comes to the kill the helper reads 0 and calls
    `chdb_stream_done` on the one block it has. -/
theorem copyTo_partial :
    ∃ s, Run (Step insertJob) (fun _ _ _ => True)
        (.start 64 64 64 (lit "I") (blocksOf twoRowScan)) s ∧
      s.backend.pc.Raising ∧ s.helper.streamDone = true ∧ s.backend.finished = false ∧
      s.helper.appended = lit "0." ∧
      (blocksOf twoRowScan).map List.flatten = some (lit "0.1.") := by
  have hscan : blocksOf twoRowScan =
      some (List.replicate 6 [] ++ lit "0." :: (List.replicate 6 [] ++ [lit "1."])) := by
    decide +kernel
  have h₁ : Run (Step insertJob) (fun _ _ _ => True)
      (.start 64 64 64 (lit "I") (blocksOf twoRowScan)) (firstBlockSent _) :=
    (run_firstBlock hscan).mono fun _ _ _ _ => trivial
  have h₂ := h₁.next (.backend (.raises rfl)) trivial
  have h₃ := h₂.next (.backend (.stopData rfl)) trivial
  -- before stop_helper goes on
  have h₄ := h₃.next (.helper (.readEnd ⟨rfl, rfl⟩ rfl ⟨rfl, rfl⟩ .ok)) trivial
  refine ⟨_, h₄, Or.inr ⟨_, rfl⟩, rfl, rfl, rfl, ?_⟩
  rw [hscan]
  rfl

end PgChdb
