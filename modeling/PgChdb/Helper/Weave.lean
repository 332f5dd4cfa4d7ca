import PgChdb.Helper.Follows
import PgChdb.Helper.Progress
import PgChdb.Helper.CopyTo
import PgChdb.Helper.CopyFrom
import PgChdb.Setup.Parse

namespace PgChdb.Program

open CText Machine Channels
open Process (Errno chdbHelperLostBackend)

/-!
# The program between the backend's steps

The calls of `chdb_helper.c` and the steps of the backend come in any order.  In every such
order the channels and the backend go through states of the system of `Helper/System.lean`,
so what was proved of its runs is true of the program.

* `Gives` — what the kernel answers a call, and what that does to the channels;
* `Weave` — the calls of a process and the steps of the backend, one after the other;
* `Handed` — how far the payload has been written; `Carries` — what was written and read is
  what the channels have carried;
* `realize` — a call is a step of the system's helper, or none; `Weave.shadow` — by induction,
  a weave is a run beside a helper that has come as far;
* `weave_refines` — so every weave is a run of the system.
-/

/-! ### Weaves -/

/-- What a call is answered by the kernel.  `exec_helper` connects the data channel to
    descriptor 0 or 1 by the command, and the other of the two to /dev/null. -/
inductive Gives (job : CopyJob) (s : System) : Call → System → Prop
  | setupRead {n : ℕ} {b : Bytes} (pos : 0 < n) (le : n ≤ s.setup.content.length)
      (hgot : s.setup.content.take n = b) :
      Gives job s (.read .setup (.ok b)) { s with setup := s.setup.get n }
  | setupEnd (eof : s.setup.AtEnd) : Gives job s (.read .setup (.ok [])) s
  | readFails (fd : Fd) (errno : Errno) : Gives job s (.read fd (.error errno)) s
  | dataRead {n : ℕ} {b : Bytes} (hcmd : job.cmd = .insert) (pos : 0 < n)
      (le : n ≤ s.data.content.length) (hgot : s.data.content.take n = b) :
      Gives job s (.read .stdin (.ok b)) { s with data := s.data.get n }
  | dataEnd (hcmd : job.cmd = .insert) (eof : s.data.AtEnd) :
      Gives job s (.read .stdin (.ok [])) s
  | nullEnd (hcmd : job.cmd ≠ .insert) : Gives job s (.read .stdin (.ok [])) s
  | dataWrite {o : Option ℕ} {b : Bytes} (hcmd : job.cmd ≠ .insert) (pos : b ≠ [])
      (ropen : s.data.readOpen = true) (room : s.data.content.length + b.length ≤ s.data.cap) :
      Gives job s (.write .stdout o (.ok b)) { s with data := s.data.put b room }
  | dataPipe (owner : Option ℕ) (hcmd : job.cmd ≠ .insert) (closed : s.data.readOpen = false) :
      Gives job s (.write .stdout owner (.error .epipe)) (s.die job.cmd (.signaled sigpipe))
  | writeFails (owner : Option ℕ) {errno : Errno} (hne : errno ≠ .epipe) :
      Gives job s (.write .stdout owner (.error errno)) s
  | nullWrite (owner : Option ℕ) (put : Bytes) (hcmd : job.cmd = .insert) :
      Gives job s (.write .stdout owner (.ok put)) s
  | errWrite {o : Option ℕ} {b : Bytes} (pos : b ≠ []) (ropen : s.err.readOpen = true)
      (room : s.err.content.length + b.length ≤ s.err.cap) :
      Gives job s (.write .stderr o (.ok b)) { s with err := s.err.put b room }
  | errPipe (owner : Option ℕ) (closed : s.err.readOpen = false) :
      -- a write to the error channel fails in no other way
      Gives job s (.write .stderr owner (.error .epipe)) (s.die job.cmd (.signaled sigpipe))
  | exit (code : ℕ) : Gives job s (.exit code) (s.die job.cmd (.exited code))
  | done (stream : ℕ) (reply : Reply) : Gives job s (.done stream reply) s
  | quiet {c : Call} (hc : c.quiet = true) : Gives job s c s

/-- The calls of the helper's process, and the steps of the backend, in some order.  Of the
    helper the system knows only whether its process has ended: by a call, by a crash, or by
    the backend's signal, after which no call returns. -/
inductive Weave (job : CopyJob) (s₀ : System) : List Call → System → Prop
  | start : Weave job s₀ [] s₀
  | backend {log : List Call} {s s' : System} {k : Kind} (hw : Weave job s₀ log s)
      (hb : BackendStep job s k s') : Weave job s₀ log s'
  | call {log : List Call} {s s' : System} {c : Call} (hw : Weave job s₀ log s)
      (halive : s.helper.alive = true) (live : s.killed = false) (hg : Gives job s c s') :
      Weave job s₀ (log ++ [c]) s'
  | dies {log : List Call} {s : System} {st : WaitStatus} (hw : Weave job s₀ log s)
      (halive : s.helper.alive = true)
      (hst : job.crashes st ∨ s.killed = true ∧ st = .signaled sigkill) :
      Weave job s₀ log (s.die job.cmd st)

/-- The runs of the system. -/
abbrev Runs (job : CopyJob) (s₀ s : System) : Prop :=
  Channels.Run (Step job) (fun _ _ _ => True) s₀ s

variable {job : CopyJob} {k : Kind} {s s' s₀ : System} {log : List Call} {c : Call}
variable {payload : Bytes}

/-- Only a call that ends the process changes what the system knows of the helper. -/
theorem Gives.helper (hg : Gives job s c s') :
    s'.helper = s.helper ∨ ∃ st, s' = s.die job.cmd st := by
  cases hg with
  | dataPipe | errPipe | exit => exact Or.inr ⟨_, rfl⟩
  | _ => exact Or.inl rfl

theorem Gives.backend (hg : Gives job s c s') :
    s'.backend = s.backend ∧ s'.setup.writeOpen = s.setup.writeOpen ∧
      s'.setup.sent = s.setup.sent := by
  cases hg with
  | setupRead => exact ⟨rfl, rfl, s.setup.get_sent⟩
  | _ => exact ⟨rfl, rfl, rfl⟩

/-! ### The payload -/

/-- The backend has written the payload but for the rest, or all of it and closed the channel,
    unless it is to raise an error. -/
def Task.Hands (payload : Bytes) (s : System) : Task → Prop
  | .setup rest => s.setup.writeOpen = true ∧ s.setup.sent ++ rest = payload
  | .reap .report => True
  | _ => s.setup.writeOpen = false ∧ s.setup.sent = payload

def BackendPc.Hands (payload : Bytes) (s : System) : BackendPc → Prop
  | .head t => Task.Hands payload s t
  | .drain t => Task.Hands payload s t
  | .wait t => Task.Hands payload s t
  | .waitpid a => Task.Hands payload s (.reap a)
  | .stopping _ => True
  | .raised => True
  | _ => s.setup.writeOpen = false ∧ s.setup.sent = payload

structure Handed (payload : Bytes) (s : System) : Prop where
  sent : s.setup.sent <+: payload
  pc : BackendPc.Hands payload s s.backend.pc

theorem Handed.start (setupCap errCap dataCap : ℕ+) (payload : Bytes) (todo : Option (List Bytes)) :
    Handed payload (.start setupCap errCap dataCap payload todo) where
  sent := List.nil_prefix
  pc := ⟨rfl, rfl⟩

/-- Only `write_setup` and `stop_helper` do anything to the setup channel. -/
theorem Handed.congr (h : Handed payload s) (hbackend : s'.backend.pc = s.backend.pc)
    (hopen : s'.setup.writeOpen = s.setup.writeOpen) (hsent : s'.setup.sent = s.setup.sent) :
    Handed payload s' where
  sent := by
    rw [hsent]
    exact h.sent
  pc := by
    have htask : ∀ t, Task.Hands payload s t → Task.Hands payload s' t := by
      intro t ht
      unfold Task.Hands at ht ⊢
      rwa [hopen, hsent]
    have hpc := h.pc
    rw [hbackend]
    unfold BackendPc.Hands at hpc ⊢
    rw [hopen, hsent]
    split at hpc
    · exact htask _ hpc
    · exact htask _ hpc
    · exact htask _ hpc
    · exact htask _ hpc
    · trivial
    · trivial
    · exact hpc

theorem Handed.afterReap {a : After} (h : Handed payload s) (hat : s.backend.pc = .waitpid a)
    (status : Option WaitStatus) :
    Handed payload { s with backend := s.backend.afterReap status a } := by
  have hpc := h.pc
  rw [hat] at hpc
  refine ⟨h.sent, ?_⟩
  rcases s.backend.afterReap_cases status a with ⟨rfl, -, hreap⟩ | ⟨rfl, -, hreap⟩ | hreap
  · rw [hreap]
    exact hpc
  · rw [hreap]
    exact hpc
  · rw [hreap]
    trivial

theorem Handed.backendStep (h : Handed payload s) (hb : BackendStep job s k s') :
    Handed payload s' := by
  have hpc := h.pc
  cases hb with
  | @setupWrite put rest hat pos ropen room =>
    rw [hat] at hpc
    have hsent : (s.setup.put put room).sent ++ rest = payload := by
      rw [Pipe.put_sent, List.append_assoc]
      exact hpc.2
    exact ⟨⟨_, hsent⟩, hpc.1, hsent⟩
  | setupWritten hat =>
    rw [hat] at hpc
    exact ⟨h.sent, rfl, (List.append_nil _).symm.trans hpc.2⟩
  | reap hat | reapFails hat | reapAgain hat => exact h.afterReap hat _
  | eintr hat => exact h
  | drainGot hat => exact h.congr rfl rfl rfl
  | recvCall hat | readerFinished hat | recvGot hat | recvEnd hat | writeCall hat | sendFinished hat
  | dataWrite hat | dataWritten hat | again hat | drainEnd hat | drained hat | drainedAll hat
  | wake hat | errEnded hat =>
    -- past the payload, all of it stays written
    rw [hat] at hpc
    exact ⟨h.sent, hpc⟩
  | _ => exact ⟨h.sent, trivial⟩

/-! ### What the channels have carried -/

/-- `chdb_helper_recv` and `chdb_helper_write` are each for one direction. -/
def Task.Sided (cmd : ChdbCmdType) : Task → Prop
  | .recv _ => cmd ≠ .insert
  | .reap .recv => cmd ≠ .insert
  | .write _ => cmd = .insert
  | _ => True

def BackendPc.Sided (cmd : ChdbCmdType) : BackendPc → Prop
  | .head t => Task.Sided cmd t
  | .drain t => Task.Sided cmd t
  | .wait t => Task.Sided cmd t
  | .waitpid a => Task.Sided cmd (.reap a)
  | _ => True

/-- What the process has read and written, by its calls, is what the channels say. -/
structure Carries (job : CopyJob) (log : List Call) (s : System) : Prop where
  setup : took .setup log = s.setup.taken
  err : put .stderr log = s.err.sent
  output : job.cmd ≠ .insert → put .stdout log = s.data.sent
  input : job.cmd = .insert → took .stdin log = s.data.taken
  sided : BackendPc.Sided job.cmd s.backend.pc

theorem Carries.start (job : CopyJob) (setupCap errCap dataCap : ℕ+) (payload : Bytes)
    (todo : Option (List Bytes)) :
    Carries job [] (.start setupCap errCap dataCap payload todo) where
  setup := rfl
  err := rfl
  output := fun _ => rfl
  input := fun _ => rfl
  sided := trivial

/-- The helper's ends of the channels stay as they are. -/
theorem Carries.congr (h : Carries job log s) (hsetup : s'.setup.taken = s.setup.taken)
    (herr : s'.err.sent = s.err.sent) (hsent : s'.data.sent = s.data.sent)
    (htaken : s'.data.taken = s.data.taken) (hsided : BackendPc.Sided job.cmd s'.backend.pc) :
    Carries job log s' where
  setup := h.setup.trans hsetup.symm
  err := h.err.trans herr.symm
  output := fun hcmd => (h.output hcmd).trans hsent.symm
  input := fun hcmd => (h.input hcmd).trans htaken.symm
  sided := hsided

theorem afterReap_sided {a : After} (status : Option WaitStatus) (cmd : ChdbCmdType)
    (b : BackendState) : BackendPc.Sided cmd (b.afterReap status a).pc := by
  rcases b.afterReap_cases status a with ⟨rfl, -, hreap⟩ | ⟨rfl, -, hreap⟩ | hreap
  · rw [hreap]
    trivial
  · rw [hreap]
    trivial
  · rw [hreap]
    trivial

theorem Carries.backendStep (h : Carries job log s) (hb : BackendStep job s k s') :
    Carries job log s' := by
  have hsided := h.sided
  have hclose := closeData_sent job.cmd s
  cases hb with
  | @recvGot n len hat pos le le' ropen =>
    rw [hat] at hsided
    exact ⟨h.setup, h.err, fun hcmd => (h.output hcmd).trans s.data.get_sent.symm,
      fun hcmd => absurd hcmd hsided, trivial⟩
  | dataWrite hat pos ropen room =>
    rw [hat] at hsided
    exact ⟨h.setup, h.err, fun hcmd => absurd hsided hcmd, h.input, hsided⟩
  | recvCall hat hcmd => exact h.congr rfl rfl rfl rfl hcmd
  | writeCall hat hcmd => exact h.congr rfl rfl rfl rfl hcmd
  | recvEnd hat =>
    rw [hat] at hsided
    exact h.congr rfl rfl hclose.1 hclose.2 hsided
  | readerFinished | sendFinished | stopData => exact h.congr rfl rfl hclose.1 hclose.2 trivial
  | eintr => exact h
  | drainGot => exact h.congr rfl s.err.get_sent rfl rfl hsided
  | setupWrite => exact h.congr rfl rfl rfl rfl trivial
  | again hat | drainEnd hat | drained hat | drainedAll hat | wake hat | errEnded hat =>
    rw [hat] at hsided
    exact h.congr rfl rfl rfl rfl hsided
  | reap | reapFails | reapAgain => exact h.congr rfl rfl rfl rfl (afterReap_sided _ _ _)
  | _ => exact h.congr rfl rfl rfl rfl trivial

/-- A call that neither reads nor writes adds nothing, nor does the helper's end. -/
theorem Carries.aside (h : Carries job log s) (hput : ∀ fd, c.put fd = [])
    (htook : ∀ fd, c.took fd = []) : Carries job (log ++ [c]) s where
  setup := by simpa [htook] using h.setup
  err := by simpa [hput] using h.err
  output := by simpa [hput] using h.output
  input := by simpa [htook] using h.input
  sided := h.sided

theorem Carries.die (h : Carries job log s) (st : WaitStatus) :
    Carries job log (s.die job.cmd st) := by
  refine h.congr rfl rfl ?_ ?_ h.sided
  · unfold System.die
    dsimp only
    split <;> rfl
  · unfold System.die
    dsimp only
    split <;> rfl

theorem Call.quiet_moves (hc : c.quiet = true) (fd : Fd) : c.put fd = [] ∧ c.took fd = [] := by
  cases c <;> first | exact ⟨rfl, rfl⟩ | cases hc

theorem Carries.call (h : Carries job log s) (hg : Gives job s c s') :
    Carries job (log ++ [c]) s' := by
  cases hg with
  | @setupRead n got pos le hgot =>
    refine ⟨?_, ?_, ?_, ?_, h.sided⟩
    · simp [Call.took, h.setup, hgot]
    · simpa [Call.put] using h.err
    · simpa [Call.put] using h.output
    · simpa [Call.took] using h.input
  | @dataRead n got hcmd pos le hgot =>
    refine ⟨?_, ?_, fun hne => absurd hcmd hne, fun _ => ?_, h.sided⟩
    · simpa [Call.took] using h.setup
    · simpa [Call.put] using h.err
    · simp [Call.took, h.input hcmd, hgot]
  | @dataWrite owner put hcmd pos ropen room =>
    refine ⟨?_, ?_, fun _ => ?_, fun heq => absurd heq hcmd, h.sided⟩
    · simpa [Call.took] using h.setup
    · simpa [Call.put] using h.err
    · simp [Call.put, h.output hcmd]
  | nullWrite owner put hcmd =>
    refine ⟨?_, ?_, fun hne => absurd hcmd hne, ?_, h.sided⟩
    · simpa [Call.took] using h.setup
    · simpa [Call.put] using h.err
    · simpa [Call.took] using h.input
  | @errWrite owner put pos ropen room =>
    refine ⟨?_, ?_, ?_, ?_, h.sided⟩
    · simpa [Call.took] using h.setup
    · simp [Call.put, h.err]
    · simpa [Call.put] using h.output
    · simpa [Call.took] using h.input
  | dataPipe | errPipe | exit => exact (h.aside (fun _ => rfl) fun _ => rfl).die _
  | quiet hc => exact h.aside (fun fd => (c.quiet_moves hc fd).1) fun fd => (c.quiet_moves hc fd).2
  | setupEnd | dataEnd | nullEnd =>
    exact h.aside (fun _ => rfl) fun fd => by simp [Call.took]
  | readFails | writeFails | done => exact h.aside (fun _ => rfl) fun _ => rfl

/-! ### A call is a step -/

section
variable {l l' l'' : Local} {cs ds : List Call}

/-- Before a call the reading of the payload may have failed. -/
theorem Path.head (h : Path l (c :: cs) l'') : ∃ l₁ l', l₁.h.alive = true ∧
    (l₁ = l ∨ l.h.At .setup ∧ ∃ text, l₁ = { l with h := l.h.fails text 1 }) ∧
      Move l₁ c l' ∧ Path l' cs l'' := by
  cases h with
  | call halive hc hcs => exact ⟨l, _, halive, Or.inl rfl, hc, hcs⟩
  | setupFails text hat hcs =>
    cases hcs with
    | call halive hc hcs => exact ⟨_, _, halive, Or.inr ⟨hat, text, rfl⟩, hc, hcs⟩
    | setupFails text' hat' hcs => cases hat'.1

theorem Move.setup (h : Move l c l') : l'.setup = l.setup ++ c.took .setup := by
  cases h with
  | setupRead => rfl
  | quiet hc => rw [(c.quiet_moves hc .setup).2, List.append_nil]
  | _ => exact (List.append_nil _).symm

/-- The payload, as far as it was read. -/
theorem Path.setup (h : Path l cs l') : l'.setup = l.setup ++ took .setup cs := by
  induction h with
  | nil l => exact (List.append_nil _).symm
  | call halive hc hcs ih => rw [ih, hc.setup, took_cons, List.append_assoc]
  | setupFails text hat hcs ih => exact ih

/-- A process that has ended makes no more calls. -/
theorem Path.dead (h : Path l cs l') (hdead : l.h.alive = false) : cs = [] ∧ l' = l := by
  cases h with
  | nil => exact ⟨rfl, rfl⟩
  | call halive hc hcs =>
    rw [hdead] at halive
    cases halive
  | setupFails text hat hcs =>
    rw [hat.alive nofun] at hdead
    cases hdead

/-- `exit` ends it. -/
theorem Path.exited {code : ℕ} (h : Path l (cs ++ .exit code :: ds) l') :
    ds = [] ∧ l'.h.pc = .ended (.exited code) := by
  obtain ⟨m, -, hm⟩ := h.split
  obtain ⟨m₁, m₂, halive, -, hmove, hrest⟩ := hm.head
  cases hmove with
  | exit hat =>
    obtain ⟨hnil, rfl⟩ := hrest.dead rfl
    exact ⟨hnil, rfl⟩
  | quiet hc => cases hc

end

/-- The system with another helper in the place of its own. -/
def beside (s : System) (h : HelperState) : System := { s with helper := h }

/-- The backend's steps are the same beside a helper that has ended if the other has. -/
theorem backend_beside {h : HelperState} (hb : BackendStep job s k s')
    (hended : ∀ st, s.helper.pc = .ended st → h.pc = .ended st) :
    BackendStep job (beside s h) k (beside s' h) := by
  cases hb with
  | setupWrite hat pos ropen room => exact .setupWrite (s := beside s h) hat pos ropen room
  | setupWritten hat => exact .setupWritten (s := beside s h) hat
  | setupPipe hat pos closed => exact .setupPipe (s := beside s h) hat pos closed
  | setupFails hat pos => exact .setupFails (s := beside s h) hat pos
  | recvCall hat hcmd hr => exact .recvCall (s := beside s h) hat hcmd hr
  | readerRaises hat hcmd hr => exact .readerRaises (s := beside s h) hat hcmd hr
  | readerFinished hat hcmd hr => exact .readerFinished (s := beside s h) hat hcmd hr
  | recvGot hat pos le le' ropen => exact .recvGot (s := beside s h) hat pos le le' ropen
  | recvEnd hat ropen eof => exact .recvEnd (s := beside s h) hat ropen eof
  | recvClosed hat closed => exact .recvClosed (s := beside s h) hat closed
  | recvFails hat => exact .recvFails (s := beside s h) hat
  | sendRaises hat hcmd ht => exact .sendRaises (s := beside s h) hat hcmd ht
  | writeCall hat hcmd ht => exact .writeCall (s := beside s h) hat hcmd ht
  | sendFinished hat hcmd ht => exact .sendFinished (s := beside s h) hat hcmd ht
  | dataWrite hat pos ropen room => exact .dataWrite (s := beside s h) hat pos ropen room
  | dataWritten hat => exact .dataWritten (s := beside s h) hat
  | dataPipe hat pos closed => exact .dataPipe (s := beside s h) hat pos closed
  | dataFails hat pos => exact .dataFails (s := beside s h) hat pos
  | raises hat => exact .raises (s := beside s h) hat
  | @interrupt t hat hl => cases t <;> exact .interrupt (s := beside s h) hat hl
  | @again t hat hl => cases t <;> exact .again (s := beside s h) hat hl
  | @eintr t hat hl => cases t <;> exact .eintr (s := beside s h) hat hl
  | drainGot hat pos le ropen => exact .drainGot (s := beside s h) hat pos le ropen
  | drainEnd hat ropen eof => exact .drainEnd (s := beside s h) hat ropen eof
  | @drained t hat hw => cases t <;> exact .drained (s := beside s h) hat hw
  | drainedAll hat closed => exact .drainedAll (s := beside s h) hat closed
  | wake hat => exact .wake (s := beside s h) hat
  | errEnded hat closed => exact .errEnded (s := beside s h) hat closed
  | reap hat hn hst => exact .reap (s := beside s h) hat hn (hended _ hst)
  | reapFails hat hn => exact .reapFails (s := beside s h) hat hn
  | reapAgain hat hs => exact .reapAgain (s := beside s h) hat hs
  | stopData hat => exact .stopData (s := beside s h) hat
  | stopErr hat => exact .stopErr (s := beside s h) hat
  | stopSetup hat => exact .stopSetup (s := beside s h) hat
  | stopReaped hat hs => exact .stopReaped (s := beside s h) hat hs
  | stopKill hat hs => exact .stopKill (s := beside s h) hat hs
  | stopReap hat hst => exact .stopReap (s := beside s h) hat (hended _ hst)

/-- A call that takes the process on is a step of the system's helper, or none; where it ends
    the process, it ends that helper with the same status. -/
theorem realize {l l' : Local} (hmove : Move l c l') (hg : Gives job s c s')
    (live : s.killed = false) (hagree : l.h.Agrees job s.setup.writeOpen)
    (hcmd : ∀ x rest, parseSetup l.setup = some (x, rest) → x.cmdType = job.cmd.toByte) :
    Runs job (beside s l.h) (beside s' l'.h) ∧
      (s'.helper = s.helper ∨ ∃ st, s'.helper.pc = .ended st ∧ l'.h.pc = .ended st) := by
  have hstep : ∀ {k : Kind}, HelperStep job (beside s l.h) k (beside s' l'.h) →
      Runs job (beside s l.h) (beside s' l'.h) :=
    fun h => .next .start (.helper h) trivial
  cases hg with
  | @setupRead n got pos le hgot =>
    cases hmove with
    | setupRead hat hne => exact ⟨hstep (.readSetup hat live pos le), Or.inl rfl⟩
    | setupEnd hat hs =>
      -- a read that is not the end gets something
      have hlen := congrArg List.length hgot
      rw [List.length_take, List.length_nil] at hlen
      omega
    | quiet hc => cases hc
  | setupEnd eof =>
    cases hmove with
    | setupRead hat hne => exact absurd rfl hne
    | setupEnd hat hs => exact ⟨hstep (.setupEnd hat live eof (hs.starts _ hcmd)), Or.inl rfl⟩
    | quiet hc => cases hc
  | readFails fd errno =>
    cases hmove with
    | setupError | readAgain => exact ⟨.start, Or.inl rfl⟩
    | readFails errno hat => exact ⟨hstep (.ioFails (Or.inl hat) live), Or.inl rfl⟩
    | quiet hc => cases hc
  | @dataRead n got hins pos le hgot =>
    cases hmove with
    | read hat hne ha =>
      subst hgot
      exact ⟨hstep (.read hat live pos le ha), Or.inl rfl⟩
    | readEnd hat hd =>
      have hlen := congrArg List.length hgot
      rw [List.length_take, List.length_nil] at hlen
      omega
    | quiet hc => cases hc
  | dataEnd hins eof =>
    cases hmove with
    | read hat hne ha => exact absurd rfl hne
    | readEnd hat hd => exact ⟨hstep (.readEnd hat live eof hd), Or.inl rfl⟩
    | quiet hc => cases hc
  | nullEnd hsel =>
    cases hmove with
    | read hat hne ha => exact absurd rfl hne
    | readEnd hat hd =>
      -- only an INSERT comes to read its blocks
      unfold HelperState.Agrees at hagree
      rw [hat.1] at hagree
      exact absurd hagree.1 hsel
    | quiet hc => cases hc
  | dataWrite hsel pos ropen room =>
    cases hmove with
    | wrote hat hput hw =>
      exact ⟨hstep (.write (s := beside s l.h) hat live hput ropen room hw), Or.inl rfl⟩
    | quiet hc => cases hc
  | dataPipe owner hsel closed =>
    cases hmove with
    | writePipe owner hat =>
      exact ⟨hstep (.writePipe hat live closed), Or.inr ⟨_, rfl, rfl⟩⟩
    | writeFails owner hne hat => exact absurd rfl hne
    | quiet hc => cases hc
  | writeFails owner hne =>
    cases hmove with
    | writeAgain => exact ⟨.start, Or.inl rfl⟩
    | writePipe owner hat => exact absurd rfl hne
    | writeFails owner hne' hat => exact ⟨hstep (.ioFails (Or.inr ⟨_, hat⟩) live), Or.inl rfl⟩
    | quiet hc => cases hc
  | nullWrite owner put hins =>
    cases hmove with
    | wrote hat hput hw =>
      -- no INSERT writes a chunk
      unfold HelperState.Agrees at hagree
      rw [hat.1] at hagree
      exact absurd hins hagree.1.1
    | quiet hc => cases hc
  | errWrite pos ropen room =>
    cases hmove with
    | say halive hsay hput =>
      exact ⟨hstep (.say (s := beside s l.h) halive hsay live hput ropen room), Or.inl rfl⟩
    | quiet hc => cases hc
  | errPipe owner closed =>
    cases hmove with
    | sayPipe owner halive hsay =>
      exact ⟨hstep (.sayPipe halive hsay live closed), Or.inr ⟨_, rfl, rfl⟩⟩
    | sayFails owner hne => exact absurd rfl hne
    | quiet hc => cases hc
  | exit code =>
    cases hmove with
    | exit hat => exact ⟨hstep (.exit hat live), Or.inr ⟨_, rfl, rfl⟩⟩
    | quiet hc => cases hc
  | done stream reply =>
    cases hmove with
    | done stream reply hdone => exact ⟨.start, Or.inl rfl⟩
    | quiet hc => cases hc
  | quiet hc =>
    cases hmove with
    | quiet hc' => exact ⟨.start, Or.inl rfl⟩
    | _ => cases hc

/-! ### A weave is a run -/

/-- What the helper relies on of the setup channel holds all along. -/
theorem Runs.agrees (hrun : Runs job s₀ s) (h₀ : s₀.helper.Agrees job s₀.setup.writeOpen) :
    s.helper.Agrees job s.setup.writeOpen := by
  refine hrun.invariant (I := fun s => s.helper.Agrees job s.setup.writeOpen) h₀ ?_
  intro k a b ha hstep _
  cases hstep with
  | helper h => exact h.agrees ha
  | backend h =>
    rw [h.frame.helper]
    exact ha.closed h.setup_closed

/-- The setup channel's end tells of both whether the process lives. -/
theorem Runs.ends (hrun : Runs job s₀ s) (h₀ : HelperEnds job.cmd s₀) : HelperEnds job.cmd s :=
  hrun.invariant h₀ fun _ _ _ ha hstep _ => ha.step hstep

/-- A helper of the system's that has come as far as the process, where the calls still to come
    are the rest. -/
structure Shadow (job : CopyJob) (s₀ s : System) (log rest : List Call) (l' : Local)
    (h : HelperState) : Prop where
  run : Runs job s₀ (beside s h)
  ended : ∀ st, s.helper.pc = .ended st → h.pc = .ended st
  alive : s.helper.alive = true → ∃ setup,
    Path .start log ⟨h, setup⟩ ∧ Path ⟨h, setup⟩ rest l'

/-- The first byte of the payload is the command's, however much of it has come. -/
theorem cmdType_of_isPrefix {p : Bytes} {x : SetupRequest} {rest : Bytes} {cmd : ChdbCmdType}
    (hparse : parseSetup p = some (x, rest)) (hp : p <+: payload)
    (hhead : payload.head? = some cmd.toByte) : x.cmdType = cmd.toByte := by
  obtain ⟨tail, rfl⟩ := hp
  obtain ⟨-, rfl⟩ := parseSetup_eq_some.mp hparse
  simpa [SetupRequest.bytes] using hhead

section
variable {setupCap errCap dataCap : ℕ+} {todo : Option (List Bytes)}

theorem Weave.handed (hw : Weave job (.start setupCap errCap dataCap payload todo) log s) :
    Handed payload s := by
  induction hw with
  | start => exact .start setupCap errCap dataCap payload todo
  | backend hw hb ih => exact ih.backendStep hb
  | call hw halive live hg ih =>
    obtain ⟨hbackend, hopen, hsent⟩ := hg.backend
    exact ih.congr (congrArg BackendState.pc hbackend) hopen hsent
  | dies hw halive hst ih => exact ih.congr rfl rfl rfl

theorem Weave.readOpen (hw : Weave job (.start setupCap errCap dataCap payload todo) log s) :
    s.setup.readOpen = s.helper.alive := by
  induction hw with
  | start => rfl
  | backend hw hb ih =>
    rw [hb.frame.setup, hb.frame.helper]
    exact ih
  | call hw halive live hg ih =>
    cases hg with
    | dataPipe | errPipe | exit => rfl
    | _ => exact ih
  | dies hw halive hst ih => rfl

theorem Weave.carries (hw : Weave job (.start setupCap errCap dataCap payload todo) log s) :
    Carries job log s := by
  induction hw with
  | start => exact .start job setupCap errCap dataCap payload todo
  | backend hw hb ih => exact ih.backendStep hb
  | call hw halive live hg ih => exact ih.call hg
  | dies hw halive hst ih => exact ih.die _

/-- The command of the payload read is the copy's. -/
theorem Weave.cmdType (hw : Weave job (.start setupCap errCap dataCap payload todo) log s)
    (hhead : payload.head? = some job.cmd.toByte) {x : SetupRequest} {rest : Bytes}
    (hparse : parseSetup (took .setup log) = some (x, rest)) : x.cmdType = job.cmd.toByte := by
  refine cmdType_of_isPrefix hparse ?_ hhead
  rw [hw.carries.setup]
  exact (List.prefix_append _ s.setup.content).trans hw.handed.sent

/-- **A weave shadows a run**, whatever the program goes on to call. -/
theorem Weave.shadow (hw : Weave job (.start setupCap errCap dataCap payload todo) log s)
    (hhead : payload.head? = some job.cmd.toByte) : ∀ rest l', Path .start (log ++ rest) l' →
      ∃ h, Shadow job (.start setupCap errCap dataCap payload todo) s log rest l' h := by
  induction hw with
  | start => exact fun rest l' hpath => ⟨_, .start, nofun, fun _ => ⟨[], .nil _, hpath⟩⟩
  | @backend log s s' k hw hb ih =>
    intro rest l' hpath
    obtain ⟨h, hs⟩ := ih rest l' hpath
    refine ⟨h, hs.run.next (.backend (backend_beside hb hs.ended)) trivial, ?_, ?_⟩
    · rw [hb.frame.helper]
      exact hs.ended
    · rw [hb.frame.helper]
      exact hs.alive
  | @call log s s' c hw halive live hg ih =>
    intro rest l' hpath
    rw [List.append_assoc] at hpath
    obtain ⟨h, hs⟩ := ih ([c] ++ rest) l' hpath
    obtain ⟨setup, hpath, hrest⟩ := hs.alive halive
    have hsetup : setup = took .setup log := hpath.setup
    obtain ⟨l₁, l₂, halive₁, hl₁, hmove, hrest⟩ := hrest.head
    have hfollows : Path .start log l₁ ∧
        Runs job (.start setupCap errCap dataCap payload todo) (beside s l₁.h) ∧
          l₁.setup = setup := by
      rcases hl₁ with rfl | ⟨hat, text, rfl⟩
      · exact ⟨hpath, hs.run, rfl⟩
      · -- the helper cannot read its payload
        exact ⟨Follows.setupFails hpath hat text,
          hs.run.next (.helper (.setupFails text hat live)) trivial, rfl⟩
    obtain ⟨hpath₁, hrun₁, hl₁⟩ := hfollows
    obtain ⟨hruns, hended⟩ := realize hmove hg live (hrun₁.agrees trivial)
      fun x tail hparse => hw.cmdType hhead (by rwa [← hsetup, ← hl₁])
    refine ⟨l₂.h, hrun₁.trans hruns, ?_, fun _ => ⟨l₂.setup, ?_, hrest⟩⟩
    · intro st hst
      rcases hended with hsame | ⟨st', hst', hl₂⟩
      · rw [hsame] at hst
        rw [HelperState.alive, hst] at halive
        cases halive
      · rw [hst] at hst'
        cases hst'
        exact hl₂
    · exact Path.trans hpath₁ (.call halive₁ hmove (.nil _))
  | @dies log s st hw halive hst ih =>
    intro rest l' hpath
    obtain ⟨h, hs⟩ := ih rest l' hpath
    have hlives : h.alive = true := by
      have hends := hs.run.ends (.start job.cmd setupCap errCap dataCap payload todo)
      exact hends.setup.symm.trans (hw.readOpen.trans halive)
    have hdies : ∃ k, HelperStep job (beside s h) k
        (beside (s.die job.cmd st) { h with pc := .ended st }) := by
      rcases hst with hcrash | ⟨hkill, rfl⟩
      · exact ⟨_, .crash (s := beside s h) hlives hcrash⟩
      · exact ⟨_, .killed (s := beside s h) hlives hkill⟩
    obtain ⟨k, hstep⟩ := hdies
    refine ⟨{ h with pc := .ended st }, hs.run.next (.helper hstep) trivial, ?_, ?_⟩
    · intro st' hst'
      exact hst'
    · intro hdead
      cases hdead

/-- The helper of the run has ended as the process has, or lives as it does. -/
theorem Weave.shadow_ended {l' : Local} {rest : List Call} {h : HelperState}
    (hw : Weave job (.start setupCap errCap dataCap payload todo) log s)
    (hs : Shadow job (.start setupCap errCap dataCap payload todo) s log rest l' h)
    (st : WaitStatus) : h.pc = .ended st ↔ s.helper.pc = .ended st := by
  refine ⟨fun hpc => ?_, hs.ended st⟩
  have hends := hs.run.ends (.start job.cmd setupCap errCap dataCap payload todo)
  have hsame : h.alive = s.helper.alive := hends.setup.symm.trans hw.readOpen
  obtain ⟨st', hst'⟩ := exists_status (hsame.symm.trans (by rw [HelperState.alive, hpc]))
  have hpc' := hs.ended st' hst'
  rw [hpc] at hpc'
  cases hpc'
  exact hst'

/-- The calls of a weave lead somewhere on the way of the whole run. -/
theorem path_of_calls {env : Env} (hlog : log <+: calls env) :
    ∃ rest l', Path .start (log ++ rest) l' := by
  obtain ⟨rest, hrest⟩ := hlog
  obtain ⟨l', hfollows, -⟩ := calls_follow env
  exact ⟨rest, l', by rwa [hrest]⟩

end

/-- **The program refines the system's helper.**  Whatever libchdb, the memory and the kernel
    answer, and however the backend's steps fall between the calls of the program, the
    channels and the backend go through the states of a run of the system, and the helper of
    that run ends when the process does, with its status. -/
theorem weave_refines (job : CopyJob) (setupCap errCap dataCap : ℕ+)
    (hhead : payload.head? = some job.cmd.toByte) (todo : Option (List Bytes)) {env : Env}
    (hw : Weave job (.start setupCap errCap dataCap payload todo) log s)
    (hlog : log <+: calls env) : ∃ h : HelperState,
      Channels.Run (Step job) (fun _ _ _ => True) (.start setupCap errCap dataCap payload todo)
        { s with helper := h } ∧ ∀ st, h.pc = .ended st ↔ s.helper.pc = .ended st := by
  obtain ⟨rest, l', hpath⟩ := path_of_calls hlog
  obtain ⟨h, hs⟩ := hw.shadow hhead rest l' hpath
  exact ⟨h, hs.run, hw.shadow_ended hs⟩

/-- Calls that have nothing to do with the descriptors change nothing. -/
theorem Weave.quiets {t : List Call} (hw : Weave job s₀ log s) (halive : s.helper.alive = true)
    (live : s.killed = false) (hall : ∀ c ∈ t, c.quiet = true) : Weave job s₀ (log ++ t) s := by
  induction t generalizing log with
  | nil => rwa [List.append_nil]
  | cons c t ih =>
    have hcall := hw.call halive live (.quiet (hall c List.mem_cons_self))
    have hrest := ih hcall fun d hd => hall d (List.mem_cons_of_mem c hd)
    rwa [List.append_assoc] at hrest

/-- The query of `oneChunk`. -/
def selectSeven : ChdbHelperContext where
  cmd := .select
  maxMemory := 0
  maxThreads := 0
  maxParsers := 0

def sevenPayload : Bytes := setupBytes selectSeven (lit "UTC") (lit "SELECT 7") []

/-- Its calls from the payload to the first byte of the chunk. -/
def sevenOpening : List Call :=
  [.alloc true, .alloc true, .alloc true, .alloc true, .setSignalHandlersEnabled false,
    .connect true, .session (setupSession 0 0 0 (lit "UTC")) (.ok (lit "7.")), .look 9,
    .destroyResult 9, .streamQuery (lit "SELECT 7") [] (.ok (lit "7.")), .look 12,
    .fetchResult 12 (.ok (lit "7.")), .look 14, .look 14, .look 14]

/-- And from the last to the end. -/
def sevenClosing : List Call :=
  [.destroyResult 14, .fetchResult 12 (.ok []), .look 21, .look 21, .destroyResult 21,
    .destroyResult 12, .closeConn]

def firstByteCalls : List Call :=
  .alloc true :: .read .setup (.ok sevenPayload) :: .read .setup (.ok []) ::
    (sevenOpening ++ [.write .stdout (some 14) (.ok (lit "7"))])

theorem calls_oneChunk : calls oneChunk = firstByteCalls ++
    (.write .stdout (some 14) (.ok (lit ".")) :: (sevenClosing ++ [.exit 0])) := by
  decide +kernel

theorem sevenPayload_room : sevenPayload.length ≤ 64 := by decide

/-- The first byte has come through a channel of one byte. -/
def firstByteRead : System where
  setup := ((Pipe.put (.fresh 64 (Nat.succ_pos 63)) sevenPayload
    ((Nat.zero_add _).trans_le sevenPayload_room)).get 28).closeWrite
  err := .fresh 1 Nat.one_pos
  data := (Pipe.put (.fresh 1 Nat.one_pos) (lit "7") (Nat.le_refl 1)).get 1
  helper := Local.start.h
  backend := { pc := .calling, received := [lit "7"], todo := none, finished := false
               status := none }
  killed := false

theorem weave_firstByte :
    Weave fourBytes (.start 64 1 1 sevenPayload none) firstByteCalls firstByteRead := by
  have h₀ : Weave fourBytes (.start 64 1 1 sevenPayload none) [] _ := .start
  have h₁ := h₀.backend (.setupWrite (k := sevenPayload) rfl nofun rfl (by decide))
  have h₂ := (h₁.backend (.setupWritten rfl)).backend (.recvCall rfl nofun rfl)
  -- the helper reads the payload, and asks libchdb
  have h₃ := h₂.call rfl rfl (.quiet (c := .alloc true) rfl)
  have h₄ := h₃.call rfl rfl (.setupRead (n := 28) (b := sevenPayload) (by decide) (by decide) rfl)
  have h₅ := h₄.call rfl rfl (.setupEnd ⟨rfl, rfl⟩)
  have h₆ := h₅.quiets (t := sevenOpening) rfl rfl (by decide)
  have h₇ := h₆.call rfl rfl (.dataWrite (o := some 14) (b := lit "7") (by decide) (by decide)
    rfl (by decide))
  exact h₇.backend (.recvGot (n := 1) rfl (by decide) (by decide) (by decide) rfl)

theorem weave_refines_firstByte : ∃ h : HelperState,
    Channels.Run (Step fourBytes) (fun _ _ _ => True) (.start 64 1 1 sevenPayload none)
      { firstByteRead with helper := h } ∧
    ∀ st, h.pc = .ended st ↔ firstByteRead.helper.pc = .ended st :=
  weave_refines fourBytes 64 1 1 rfl none weave_firstByte ⟨_, calls_oneChunk.symm⟩

end PgChdb.Program
