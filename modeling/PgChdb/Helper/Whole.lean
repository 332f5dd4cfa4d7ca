import PgChdb.Helper.Weave
import PgChdb.Helper.CopyFrom

namespace PgChdb.Program

open CText Machine Channels
open Process (Errno chdbHelperLostBackend)

/-!
# A copy, from `build_setup` to libchdb and back

The backend knows of the helper what the channels carry and the status `waitpid` reports.  By
the program's contract that is enough: when `chdb_copy` returns, the helper ran the query that
the backend was given, with its parameters, to its end, and the bytes of the result, or of the
blocks, are the same on both sides.

* `Reaped` — the status the backend has is the process's; `Weave.exited` — and one with which
  the program has exited;
* `reaped_contract` — so the status says how the run of the program went;
* `AtBlocks`, `Weave.atBlocks` — when a process has read the end of its blocks, all have come;
* `runs_isPrefix` — only blocks of the scan are ever written;
* `copyFrom_whole`, `copyTo_inserted`, `copyTo_isPrefix` — the two directions.
-/

variable {job : CopyJob} {k : Kind} {s s' s₀ : System} {log : List Call} {c : Call}
variable {payload : Bytes} {setupCap errCap dataCap : ℕ+} {todo : Option (List Bytes)}

/-! ### The status -/

/-- The status reaped is the process's, and `chdb_copy` returns on 0 only. -/
structure Reaped (s : System) : Prop where
  status : ∀ st, s.backend.status = some (some st) → s.helper.pc = .ended st
  returned : s.backend.pc = .returned → s.backend.status = some (some (.exited 0))

theorem Reaped.start (setupCap errCap dataCap : ℕ+) (payload : Bytes) (todo : Option (List Bytes)) :
    Reaped (.start setupCap errCap dataCap payload todo) where
  status := nofun
  returned := nofun

theorem Reaped.quiet (h : Reaped s) (hhelper : s'.helper = s.helper)
    (hstatus : s'.backend.status = s.backend.status) (hpc : s'.backend.pc ≠ .returned) :
    Reaped s' where
  status := by
    rw [hhelper, hstatus]
    exact h.status
  returned := fun hreturned => absurd hreturned hpc

theorem Reaped.afterReap {a : After} {status : Option WaitStatus}
    (hst : ∀ st, status = some st → s.helper.pc = .ended st) :
    Reaped { s with backend := s.backend.afterReap status a } := by
  have hsome : ∀ st, some status = some (some st) → s.helper.pc = .ended st :=
    fun st h => hst st (Option.some.inj h)
  rcases s.backend.afterReap_cases status a with ⟨rfl, -, hreap⟩ | ⟨rfl, hzero, hreap⟩ | hreap
  · rw [hreap]
    exact ⟨hsome, nofun⟩
  · rw [hreap]
    exact ⟨hsome, fun _ => congrArg some hzero⟩
  · rw [hreap]
    exact ⟨hsome, nofun⟩

theorem Reaped.backendStep (h : Reaped s) (hb : BackendStep job s k s') : Reaped s' := by
  cases hb with
  | reap hat hn hst =>
    refine .afterReap ?_
    rintro _ ⟨⟩
    exact hst
  | reapFails hat hn => exact .afterReap nofun
  | reapAgain hat hs =>
    refine .afterReap ?_
    rintro st rfl
    exact h.status st hs
  | stopReap hat hst =>
    refine ⟨?_, nofun⟩
    rintro _ ⟨⟩
    exact hst
  | eintr => exact h
  | drainGot hat => exact h.quiet rfl rfl (by simp [hat])
  | _ => exact h.quiet rfl rfl nofun

theorem Weave.reaped (hw : Weave job (.start setupCap errCap dataCap payload todo) log s) :
    Reaped s := by
  -- a process that lives has not been reaped
  have hnone : ∀ {s s' : System}, Reaped s → s.helper.alive = true → s'.backend = s.backend →
      Reaped s' := by
    intro s s' h halive hbackend
    refine ⟨fun st hst => ?_, ?_⟩
    · rw [hbackend] at hst
      rw [HelperState.alive, h.status st hst] at halive
      cases halive
    · rw [hbackend]
      exact h.returned
  induction hw with
  | start => exact .start setupCap errCap dataCap payload todo
  | backend hw hb ih => exact ih.backendStep hb
  | call hw halive live hg ih => exact hnone ih halive hg.backend.1
  | dies hw halive hst ih => exact hnone ih halive rfl

/-- A process that has exited, and did not crash, has called `exit`. -/
theorem Weave.exit_called (hw : Weave job (.start setupCap errCap dataCap payload todo) log s)
    {code : ℕ} (hcrash : ¬ job.crashes (.exited code)) (hpc : s.helper.pc = .ended (.exited code)) :
    ∃ before, log = before ++ [.exit code] := by
  have hlives : ∀ {s : System}, s.helper.alive = true → s.helper.pc ≠ .ended (.exited code) := by
    intro s halive hended
    rw [HelperState.alive, hended] at halive
    cases halive
  induction hw with
  | start => cases hpc
  | backend hw hb ih =>
    rw [hb.frame.helper] at hpc
    exact ih hpc
  | call hw halive live hg ih =>
    cases hg with
    | exit code' =>
      cases hpc
      exact ⟨_, rfl⟩
    | dataPipe | errPipe => cases hpc
    | _ => exact absurd hpc (hlives halive)
  | dies hw halive hst ih =>
    rcases hst with hst | ⟨-, rfl⟩
    · cases hpc
      exact absurd hst hcrash
    · cases hpc

/-- The calls are then all of the program's, and it has exited with that status. -/
theorem Weave.exited (hw : Weave job (.start setupCap errCap dataCap payload todo) log s)
    {env : Env} (hlog : log <+: calls env) {code : ℕ} (hcrash : ¬ job.crashes (.exited code))
    (hpc : s.helper.pc = .ended (.exited code)) :
    log = calls env ∧ exitStatus env = some code := by
  obtain ⟨before, rfl⟩ := hw.exit_called hcrash hpc
  obtain ⟨rest, hrest⟩ := hlog
  obtain ⟨l', hfollows, hexit⟩ := calls_follow env
  rw [← hrest, List.append_assoc] at hfollows
  obtain ⟨rfl, hended⟩ := hfollows.exited
  exact ⟨by rw [← hrest, List.append_nil], (hexit code).mp hended⟩

theorem Weave.reaped_exited (hw : Weave job (.start setupCap errCap dataCap payload todo) log s)
    {env : Env} (hlog : log <+: calls env) {code : ℕ} (hcrash : ¬ job.crashes (.exited code))
    (hreap : s.backend.status = some (some (.exited code))) :
    log = calls env ∧ exitStatus env = some code :=
  hw.exited hlog hcrash (hw.reaped.status _ hreap)

/-- Whatever the state, what has crossed is a prefix of what was to cross. -/
theorem crossed_of_isPrefix {env : Env} (hlog : log <+: calls env) : Crossed log :=
  (calls_stand env).1 log hlog

theorem succeeded_of_exit {env : Env} (hzero : exitStatus env = some 0) :
    Succeeded (calls env) := by
  rcases (calls_stand env).2 0 hzero with ⟨-, h⟩ | ⟨hone, -⟩ | ⟨htwo, -⟩
  · exact h
  · cases hone
  · cases htwo

/-! ### The request -/

/-- The request is the payload's, when all of what was read parses. -/
theorem Weave.request (hw : Weave job (.start setupCap errCap dataCap payload todo) log s)
    {x y : SetupRequest} {rest : Bytes} (hpayload : parseSetup payload = some (y, []))
    (hparse : parseSetup (took .setup log) = some (x, rest)) : x = y := by
  have hprefix : took .setup log <+: payload := by
    rw [hw.carries.setup]
    exact (List.prefix_append _ s.setup.content).trans hw.handed.sent
  obtain ⟨tail, htail⟩ := hprefix
  obtain ⟨hfits, htook⟩ := parseSetup_eq_some.mp hparse
  -- what was not read would only follow the request
  have hwhole : parseSetup payload = some (x, rest ++ tail) :=
    parseSetup_eq_some.mpr ⟨hfits, by rw [← htail, htook, List.append_assoc]⟩
  rw [hpayload] at hwhole
  exact (congrArg Prod.fst (Option.some.inj hwhole)).symm

theorem parseSetup_buildSetup {ctx : ChdbHelperContext} {timezone query : Bytes}
    {params : List (Bytes × Bytes)} (hbuild : buildSetup ctx timezone query params = .ok payload)
    (hfits : (setupRequest ctx timezone query params).Fits) :
    parseSetup payload = some (setupRequest ctx timezone query params, []) ∧
      payload.head? = some ctx.cmd.toByte := by
  rw [eq_setupBytes_of_buildSetup hbuild]
  exact ⟨parseSetup_eq_some.mpr ⟨hfits, (List.append_nil _).symm⟩, rfl⟩

/-! ### The blocks -/

/-- The backend may still write to the data channel. -/
def Task.Writes : Task → Prop
  | .setup _ => True
  | .write _ => True
  | _ => False

def BackendPc.Writes : BackendPc → Prop
  | .calling => True
  | .head t => Task.Writes t
  | .drain t => Task.Writes t
  | .wait t => Task.Writes t
  | _ => False

/-- Of an INSERT: the end of the blocks is read once nothing more can come. -/
structure AtBlocks (log : List Call) (s : System) : Prop where
  opened : BackendPc.Writes s.backend.pc → s.data.writeOpen = true
  ended : .read .stdin (.ok []) ∈ log → s.data.AtEnd

theorem AtBlocks.congr (h : AtBlocks log s) (hdata : s'.data = s.data)
    (hpc : BackendPc.Writes s'.backend.pc → BackendPc.Writes s.backend.pc) : AtBlocks log s' where
  opened := by
    rw [hdata]
    exact fun hw => h.opened (hpc hw)
  ended := by
    rw [hdata]
    exact h.ended

/-- The backend closes the channel for good. -/
theorem AtBlocks.closes (h : AtBlocks log s) (hcmd : job.cmd = .insert)
    (hdata : s'.data = (s.closeData job.cmd).data) (hpc : ¬ BackendPc.Writes s'.backend.pc) :
    AtBlocks log s' where
  opened := fun hw => absurd hw hpc
  ended := by
    intro hmem
    have hclose : (s.closeData job.cmd).data = s.data.closeWrite := if_pos hcmd
    rw [hdata, hclose]
    exact ⟨(h.ended hmem).1, rfl⟩

/-- Only `chdb_helper_recv` goes on after the helper's end. -/
theorem AtBlocks.afterReap {a : After} (h : AtBlocks log s) (hcmd : job.cmd = .insert)
    (hat : s.backend.pc = .waitpid a) (hsided : BackendPc.Sided job.cmd s.backend.pc)
    (status : Option WaitStatus) :
    AtBlocks log { s with backend := s.backend.afterReap status a } := by
  refine h.congr rfl fun hw => ?_
  rw [hat] at hsided
  rcases s.backend.afterReap_cases status a with ⟨rfl, -, -⟩ | ⟨-, -, hreap⟩ | hreap
  · exact absurd hcmd hsided
  · rw [hreap] at hw
    exact hw.elim
  · rw [hreap] at hw
    exact hw.elim

theorem AtBlocks.backendStep (h : AtBlocks log s) (hb : BackendStep job s k s')
    (hcmd : job.cmd = .insert) (hsided : BackendPc.Sided job.cmd s.backend.pc) :
    AtBlocks log s' := by
  cases hb with
  | recvCall hat hsel | readerRaises hat hsel | readerFinished hat hsel => exact absurd hcmd hsel
  | recvGot hat | recvEnd hat =>
    rw [hat] at hsided
    exact absurd hcmd hsided
  | reap hat | reapFails hat | reapAgain hat => exact h.afterReap hcmd hat hsided _
  | @dataWrite put rest hat pos ropen room =>
    have hopen : s.data.writeOpen = true := h.opened (by rw [hat]; trivial)
    refine ⟨fun _ => hopen, fun hmem => ?_⟩
    rw [(h.ended hmem).2] at hopen
    cases hopen
  | sendFinished hat | stopData hat => exact h.closes hcmd rfl nofun
  | setupWrite hat | setupWritten hat | writeCall hat | dataWritten hat =>
    exact h.congr rfl fun _ => by rw [hat]; trivial
  | eintr => exact h
  | drainGot => exact h.congr rfl id
  | again hat | drainEnd hat | drained hat | drainedAll hat | wake hat =>
    refine h.congr rfl fun hw => ?_
    rw [hat]
    exact hw
  | _ => exact h.congr rfl nofun

theorem AtBlocks.other (h : AtBlocks log s) (hc : c ≠ .read .stdin (.ok [])) :
    AtBlocks (log ++ [c]) s where
  opened := h.opened
  ended := by
    intro hmem
    rcases List.mem_append.mp hmem with hmem | hmem
    · exact h.ended hmem
    · exact absurd (List.mem_singleton.mp hmem).symm hc

theorem AtBlocks.die (h : AtBlocks log s) (hcmd : job.cmd = .insert) (st : WaitStatus) :
    AtBlocks log (s.die job.cmd st) := by
  have hdie : (s.die job.cmd st).data = s.data.closeRead := if_pos hcmd
  refine ⟨?_, fun hmem => ?_⟩
  · rw [hdie]
    exact h.opened
  · rw [hdie]
    exact h.ended hmem

theorem AtBlocks.call (h : AtBlocks log s) (hg : Gives job s c s') (hcmd : job.cmd = .insert) :
    AtBlocks (log ++ [c]) s' := by
  cases hg with
  | @dataRead n got _ pos le hgot =>
    refine ⟨h.opened, fun hmem => ?_⟩
    -- there was something to read
    rcases List.mem_append.mp hmem with hmem | hmem
    · rw [(h.ended hmem).1, List.length_nil] at le
      omega
    · cases List.mem_singleton.mp hmem
      have hlen := congrArg List.length hgot
      rw [List.length_take, List.length_nil] at hlen
      omega
  | dataEnd _ eof => exact ⟨h.opened, fun _ => eof⟩
  | nullEnd hsel | dataWrite hsel | dataPipe owner hsel => exact absurd hcmd hsel
  | errPipe | exit =>
    refine (h.other ?_).die hcmd _
    exact nofun
  | quiet hc =>
    refine h.other ?_
    rintro rfl
    cases hc
  | _ =>
    refine (h.other ?_).congr rfl id
    exact nofun

theorem Weave.atBlocks (hw : Weave job (.start setupCap errCap dataCap payload todo) log s)
    (hcmd : job.cmd = .insert) : AtBlocks log s := by
  induction hw with
  | start => exact ⟨fun _ => rfl, nofun⟩
  | backend hw hb ih => exact ih.backendStep hb hcmd hw.carries.sided
  | call hw halive live hg ih => exact ih.call hg hcmd
  | dies hw halive hst ih => exact ih.die hcmd _

/-! ### The scan -/

/-- Up to a state in which no error is raised, none was. -/
theorem run_quiet (hrun : Runs job s₀ s) (hquiet : ¬ s.backend.pc.Raising) :
    Channels.Run (Step job) (fun k a b => ¬ ReadsAbort job k a b) s₀ s := by
  induction hrun with
  | start => exact .start
  | @next t u k _ hstep _ ih =>
    have hbefore : ¬ t.backend.pc.Raising := by
      intro hraising
      cases hstep with
      | helper h =>
        rw [h.frame.backend] at hquiet
        exact hquiet hraising
      | backend h => exact hquiet (h.raising hraising)
    exact (ih hbefore).next hstep (not_readsAbort hbefore)

theorem runs_inserts (hcmd : job.cmd = .insert)
    (hrun : Runs job (.start setupCap errCap dataCap payload todo) s)
    (hquiet : ¬ s.backend.pc.Raising) : Inserts (todo.map List.flatten) s := by
  refine (run_quiet hrun hquiet).invariant (.start setupCap errCap dataCap payload todo) ?_
  intro k a b ha hstep hok
  cases hstep with
  | helper h => exact ha.helperStep h hcmd hok
  | backend h => exact ha.backendStep h hcmd

/-- The helper's steps write nothing to its input. -/
theorem helper_sent (h : HelperStep job s k s') (hcmd : job.cmd = .insert)
    (hagree : s.helper.Agrees job s.setup.writeOpen) : s'.data.sent = s.data.sent := by
  have hdie : ∀ st, (s.die job.cmd st).data.sent = s.data.sent := by
    intro st
    have hdata : (s.die job.cmd st).data = s.data.closeRead := if_pos hcmd
    rw [hdata]
    rfl
  cases h with
  | write hat =>
    unfold HelperState.Agrees at hagree
    rw [hat.1] at hagree
    exact absurd hcmd hagree.1.1
  | read => exact s.data.get_sent
  | writePipe | sayPipe | exit | crash | killed => exact hdie _
  | _ => rfl

/-- Only blocks of the scan are ever written, in their order. -/
theorem runs_isPrefix {blocks : List Bytes} (hcmd : job.cmd = .insert)
    (hrun : Runs job (.start setupCap errCap dataCap payload (some blocks)) s) :
    s.data.sent <+: blocks.flatten := by
  induction hrun with
  | start => exact List.nil_prefix
  | @next t u k hrun hstep _ ih =>
    cases hstep with
    | helper h => rwa [helper_sent h hcmd (Runs.agrees hrun trivial)]
    | backend h =>
      cases h with
      | @dataWrite put rest hat pos ropen room =>
        have hpc := (runs_inserts hcmd hrun (by rw [hat]; exact not_raising_head _)).pc
        rw [hat] at hpc
        obtain ⟨-, hwhole⟩ := hpc
        cases htodo : t.backend.todo with
        | none =>
          rw [htodo] at hwhole
          cases hwhole
        | some later =>
          rw [htodo] at hwhole
          have hflat := Option.some.inj hwhole
          refine ⟨rest ++ later.flatten, ?_⟩
          show (t.data.put put room).sent ++ (rest ++ later.flatten) = blocks.flatten
          rw [← hflat, Pipe.put_sent]
          simp [List.append_assoc]
      | recvGot => rwa [t.data.get_sent]
      | readerFinished | recvEnd | sendFinished | stopData =>
        show (t.closeData job.cmd).data.sent <+: blocks.flatten
        rwa [(closeData_sent job.cmd t).1]
      | _ => exact ih

theorem runs_copies (hcmd : job.cmd ≠ .insert) (hreader : ReaderFaithful job)
    (hcrash : ¬ job.crashes (.exited 0))
    (hrun : Runs job (.start setupCap errCap dataCap payload todo) s) : Copies job s := by
  refine hrun.invariant (.start job setupCap errCap dataCap payload todo) ?_
  intro k a b ha hstep _
  cases hstep with
  | helper h => exact ha.helperStep h hcmd hcrash
  | backend h => exact ha.backendStep h hcmd hreader

/-! ### The two directions -/

section
variable {ctx : ChdbHelperContext} {timezone query : Bytes} {params : List (Bytes × Bytes)}
variable {env : Env}

/-- The channels and the backend of a weave are those of a run. -/
theorem Weave.runs (hw : Weave job (.start setupCap errCap dataCap payload todo) log s)
    (hhead : payload.head? = some job.cmd.toByte) (hlog : log <+: calls env) :
    ∃ h, Runs job (.start setupCap errCap dataCap payload todo) (beside s h) := by
  obtain ⟨rest, l', hpath⟩ := path_of_calls hlog
  obtain ⟨h, hs⟩ := hw.shadow hhead rest l' hpath
  exact ⟨h, hs.run⟩

/-- What a run of the program that succeeded has run is the request. -/
theorem Weave.ran (hw : Weave job (.start setupCap errCap dataCap payload todo) (calls env) s)
    (hbuild : buildSetup ctx timezone query params = .ok payload)
    (hfits : (setupRequest ctx timezone query params).Fits) (h : Succeeded (calls env)) :
    Ran (setupRequest ctx timezone query params) (calls env) := by
  obtain ⟨x, rest, hparse, hran⟩ := h.ran
  rwa [hw.request (parseSetup_buildSetup hbuild hfits).1 hparse] at hran

/-- **What COPY FROM returns is what libchdb produced.**  In every order of the helper's calls
    and the backend's steps, when `chdb_copy` returns from a SELECT the program has exited with
    0, having run the query with its parameters to its end, and the bytes
    `chdb_helper_recv` has returned are those of libchdb's results. -/
theorem copyFrom_whole (job : CopyJob) (hcmd : job.cmd ≠ .insert) (hreader : ReaderFaithful job)
    (hcrash : ¬ job.crashes (.exited 0)) (setupCap errCap dataCap : ℕ+) (hctx : ctx.cmd = job.cmd)
    (hbuild : buildSetup ctx timezone query params = .ok payload)
    (hfits : (setupRequest ctx timezone query params).Fits) (todo : Option (List Bytes))
    (hw : Weave job (.start setupCap errCap dataCap payload todo) log s) (hlog : log <+: calls env)
    (hreturn : s.backend.pc = .returned) :
    (log = calls env ∧ exitStatus env = some 0) ∧
      s.backend.received.flatten = produced (calls env) ∧
      Ran (setupRequest ctx timezone query params) (calls env) := by
  have hreap := hw.reaped.returned hreturn
  obtain ⟨rfl, hzero⟩ := hw.reaped_exited hlog hcrash hreap
  have hsucceeded := succeeded_of_exit hzero
  have hhead : payload.head? = some job.cmd.toByte := by
    rw [(parseSetup_buildSetup hbuild hfits).2, hctx]
  obtain ⟨h, hrun⟩ := hw.runs hhead hlog
  have hc := runs_copies hcmd hreader hcrash hrun
  have hnil : [] ∈ s.backend.received := by
    have hpc := hc.pc
    rwa [show (beside s h).backend.pc = .returned from hreturn] at hpc
  have hcontent : s.data.content = [] := (hc.ended hnil).2.2
  refine ⟨⟨rfl, hzero⟩, ?_, hw.ran hbuild hfits hsucceeded⟩
  calc s.backend.received.flatten = s.data.taken := hc.taken
    _ = s.data.sent := Pipe.taken_eq_sent hcontent
    _ = put .stdout (calls env) := (hw.carries.output hcmd).symm
    _ = produced (calls env) := hsucceeded.written

theorem seven_fits : (setupRequest selectSeven (lit "UTC") (lit "SELECT 7") []).Fits where
  timezone := by decide
  query := by decide
  params := nofun
  count := by decide

/-- The second byte, the end of the stream, and of the helper. -/
theorem copyFrom_whole_oneChunk : ∃ s,
    Weave fourBytes (.start 64 1 1 sevenPayload none) (calls oneChunk) s ∧
      s.backend.pc = .returned ∧ s.backend.received = [lit "7", lit ".", []] ∧
      exitStatus oneChunk = some 0 ∧ s.backend.received.flatten = produced (calls oneChunk) ∧
      Ran (setupRequest selectSeven (lit "UTC") (lit "SELECT 7") []) (calls oneChunk) := by
  have h₁ := weave_firstByte.backend (.recvCall rfl nofun rfl)
  have h₂ := h₁.call rfl rfl (.dataWrite (o := some 14) (b := lit ".") (by decide) (by decide)
    rfl (by decide))
  have h₃ := h₂.backend (.recvGot (n := 1) rfl (by decide) (by decide) (by decide) rfl)
  have h₄ := h₃.quiets (t := sevenClosing) rfl rfl (by decide)
  have h₅ := (h₄.call rfl rfl (.exit 0)).backend (.recvCall rfl nofun rfl)
  have h₆ := h₅.backend (.recvEnd rfl rfl (Or.inr ⟨rfl, rfl⟩))
  -- the backend waits for the helper's end
  have h₇ := (h₆.backend (.again rfl rfl)).backend (.drainEnd rfl rfl ⟨rfl, rfl⟩)
  have h₈ := (h₇.backend (.drainedAll rfl rfl)).backend (.errEnded rfl rfl)
  have h₉ := (h₈.backend (.reap rfl rfl rfl)).backend (.readerFinished rfl nofun rfl)
  have h₁₀ := (h₉.backend (.errEnded rfl rfl)).backend (.reapAgain rfl rfl)
  have hcalls : firstByteCalls ++ [.write .stdout (some 14) (.ok (lit "."))] ++ sevenClosing ++
      [.exit 0] = calls oneChunk := by
    rw [calls_oneChunk]
    rfl
  rw [hcalls] at h₁₀
  obtain ⟨⟨-, hzero⟩, hreceived, hran⟩ := copyFrom_whole fourBytes nofun fourBytes_faithful
    (by simp [fourBytes]) 64 1 1 rfl rfl seven_fits none h₁₀ List.prefix_rfl rfl
  exact ⟨_, h₁₀, rfl, rfl, hzero, hreceived, hran⟩
/-- **Nothing is made up on the way.**  In every state, however the copy is to end, what
    `chdb_helper_recv` has returned is a prefix of what libchdb has produced. -/
theorem copyFrom_isPrefix (job : CopyJob) (hcmd : job.cmd ≠ .insert) (hreader : ReaderFaithful job)
    (hcrash : ¬ job.crashes (.exited 0)) (setupCap errCap dataCap : ℕ+)
    (hhead : payload.head? = some job.cmd.toByte) (todo : Option (List Bytes))
    (hw : Weave job (.start setupCap errCap dataCap payload todo) log s)
    (hlog : log <+: calls env) :
    s.backend.received.flatten <+: produced log := by
  obtain ⟨h, hrun⟩ := hw.runs hhead hlog
  have hc := runs_copies hcmd hreader hcrash hrun
  rw [show s.backend.received.flatten = s.data.taken from hc.taken]
  calc s.data.taken <+: s.data.sent := List.prefix_append _ _
    _ = put .stdout log := (hw.carries.output hcmd).symm
    _ <+: produced log := (crossed_of_isPrefix hlog).1

theorem copyFrom_isPrefix_firstByte :
    firstByteRead.backend.received.flatten = lit "7" ∧ produced firstByteCalls = lit "7." ∧
      firstByteRead.backend.received.flatten <+: produced firstByteCalls :=
  ⟨rfl, rfl, copyFrom_isPrefix fourBytes nofun fourBytes_faithful (by simp [fourBytes]) 64 1 1 rfl
    none weave_firstByte ⟨_, calls_oneChunk.symm⟩⟩

section
variable {T δ : Type} {enc : Encoder T δ} {parseTuple : Bytes → Raises (List (Option Bytes × T))}
  {clause : Bytes} {attrs : List FormPgAttribute} {attnums : List ℕ} {scan : List (List (Option δ))}

/-- **What COPY TO returns from is inserted.**  In every order of the helper's calls and the
    backend's steps, when `chdb_copy` returns from an INSERT the program has exited with 0,
    having run the query and finished its stream, and the bytes it has appended are the blocks
    of the whole scan. -/
theorem copyTo_inserted (job : CopyJob) (hcmd : job.cmd = .insert)
    (hcrash : ¬ job.crashes (.exited 0)) (setupCap errCap dataCap : ℕ+) (hctx : ctx.cmd = job.cmd)
    (hbuild : buildSetup ctx timezone query params = .ok payload)
    (hfits : (setupRequest ctx timezone query params).Fits)
    (hw : Weave job (.start setupCap errCap dataCap payload
      (sendTodo enc parseTuple clause attrs attnums scan)) log s) (hlog : log <+: calls env)
    (hreturn : s.backend.pc = .returned) :
    (log = calls env ∧ exitStatus env = some 0) ∧
      Ran (setupRequest ctx timezone query params) (calls env) ∧ ∃ sent,
        chdbCopySend enc parseTuple clause attrs attnums scan = .ok sent ∧
        inserted (calls env) = written sent.calls ∧
        (attnums ≠ [] → SentInBlocks enc sent.writer.cols attnums scan (inserted (calls env))) := by
  have hreap := hw.reaped.returned hreturn
  obtain ⟨rfl, hzero⟩ := hw.reaped_exited hlog hcrash hreap
  have hsucceeded := succeeded_of_exit hzero
  have hhead : payload.head? = some job.cmd.toByte := by
    rw [(parseSetup_buildSetup hbuild hfits).2, hctx]
  have hran := hw.ran hbuild hfits hsucceeded
  -- the program has read the end of the blocks
  have hread : Call.read .stdin (.ok []) ∈ calls env := by
    rcases hran with ⟨hselect, -⟩ | ⟨-, _, _, -, hread, -⟩ | ⟨hdescribe, -⟩
    · rw [show (setupRequest ctx timezone query params).cmdType = ctx.cmd.toByte from rfl, hctx,
        hcmd] at hselect
      exact absurd (toByte_injective hselect) nofun
    · exact hread
    · rw [show (setupRequest ctx timezone query params).cmdType = ctx.cmd.toByte from rfl, hctx,
        hcmd] at hdescribe
      exact absurd (toByte_injective hdescribe) nofun
  obtain ⟨hcontent, hclosed⟩ := (hw.atBlocks hcmd).ended hread
  -- and nothing was raised, so the end was that of the scan
  obtain ⟨h, hrun⟩ := hw.runs hhead hlog
  have hquiet : ¬ s.backend.pc.Raising := by
    rw [hreturn]
    rintro (hraised | ⟨p, hstopping⟩) <;> cases ‹_ = _›
  have hi := runs_inserts hcmd hrun hquiet
  have hfinished : s.backend.finished = true := (hi.closed hclosed).resolve_right hquiet
  have hwhole := hi.finished hfinished
  have hinserted : inserted (calls env) = s.data.sent := by
    rw [hsucceeded.inserted, hw.carries.input hcmd, Pipe.taken_eq_sent hcontent]
  refine ⟨⟨rfl, hzero⟩, hran, ?_⟩
  cases hsent : chdbCopySend enc parseTuple clause attrs attnums scan with
  | error e =>
    rw [sendTodo, hsent] at hwhole
    cases hwhole
  | ok sent =>
    have hbytes : inserted (calls env) = written sent.calls := by
      rw [sendTodo, hsent] at hwhole
      rw [hinserted, written, List.flatMap_def]
      exact (Option.some.inj hwhole).symm
    refine ⟨sent, rfl, hbytes, fun hne => ?_⟩
    rw [hbytes]
    exact (chdbCopySend_written hne hsent).1

/-- The calls of `chdb_helper_write` that write nothing. -/
theorem Weave.emptyWrites (hw : Weave job s₀ log s) (hcmd : job.cmd = .insert) (n : ℕ)
    {ps : List Bytes} (hat : s.backend.pc = .calling)
    (ht : s.backend.todo = some (List.replicate n [] ++ ps)) :
    Weave job s₀ log { s with backend := { s.backend with todo := some ps } } := by
  induction n generalizing s with
  | zero =>
    have hsame : { s with backend := { s.backend with todo := some ps } } = s := by
      rw [show some ps = s.backend.todo from ht.symm]
    rwa [hsame]
  | succ n ih =>
    have hcall := hw.backend (.writeCall hat hcmd ht)
    have hrest := ih (hcall.backend (.dataWritten rfl)) rfl rfl
    have hsame : { s with backend := { s.backend with todo := some ps } } =
        { s with backend := { s.backend with pc := .calling, todo := some ps } } := by
      rw [← hat]
    rw [hsame]
    exact hrest

/-- An insert of one block. -/
def insertBlocks : ChdbHelperContext where
  cmd := .insert
  maxMemory := 0
  maxThreads := 0
  maxParsers := 0

def blocksPayload : Bytes := setupBytes insertBlocks (lit "UTC") (lit "INSERT") []

theorem blocks_fits : (setupRequest insertBlocks (lit "UTC") (lit "INSERT") []).Fits where
  timezone := by decide
  query := by decide
  params := nofun
  count := by decide

/-- The payload and a block come in a read each. -/
def oneBlock : Env where
  read log := .ok (match log.countP fun c => c matches .read _ _ with
    | 0 => blocksPayload
    | 2 => lit "0."
    | _ => [])
  write _ := .ok 0
  alloc _ := true
  connect _ := true
  reply _ := .ok []
  insertError _ := none
  append _ := true
  turns := 4

/-- Its calls from the payload to the block. -/
def blockOpening : List Call :=
  [.alloc true, .alloc true, .alloc true, .alloc true, .setSignalHandlersEnabled false,
    .connect true, .session (setupSession 0 0 0 (lit "UTC")) (.ok []), .look 9, .destroyResult 9,
    .streamInsert (lit "INSERT") [], .insertError 12 none, .alloc true]

def firstBlockCalls : List Call :=
  .alloc true :: .read .setup (.ok blocksPayload) :: .read .setup (.ok []) ::
    (blockOpening ++ [.read .stdin (.ok (lit "0.")), .append 12 (lit "0.") true])

def blockClosing : List Call :=
  [.look 18, .destroyResult 18, .destroyInsert 12, .closeConn]

theorem calls_oneBlock : calls oneBlock = firstBlockCalls ++
    (.read .stdin (.ok []) :: .done 12 (.ok []) :: (blockClosing ++ [.exit 0])) := by
  decide +kernel

theorem blocksPayload_room : blocksPayload.length ≤ 64 := by decide

theorem cap_pos : 0 < 64 := by decide

theorem block_room : (Pipe.fresh 64 cap_pos : Pipe UInt8).content.length + (lit "0.").length ≤ 64 :=
  by decide

/-- The block is with libchdb; `ps` is still to come. -/
def firstBlockRead (ps : List Bytes) : System where
  setup := ((Pipe.put (.fresh 64 cap_pos) blocksPayload
    ((Nat.zero_add _).trans_le blocksPayload_room)).get 26).closeWrite
  err := .fresh 64 cap_pos
  data := (Pipe.put (.fresh 64 cap_pos) (lit "0.") block_room).get 2
  helper := Local.start.h
  backend := { pc := .calling, received := [], todo := some ps, finished := false, status := none }
  killed := false

theorem weave_firstBlock {todo : Option (List Bytes)} {ps : List Bytes}
    (htodo : todo = some (List.replicate 6 [] ++ lit "0." :: ps)) :
    Weave insertJob (.start 64 64 64 blocksPayload todo) firstBlockCalls (firstBlockRead ps) := by
  subst htodo
  have h₀ : Weave insertJob
    (.start 64 64 64 blocksPayload (some (List.replicate 6 [] ++ lit "0." :: ps))) [] _ := .start
  have h₁ := h₀.backend (.setupWrite (k := blocksPayload) rfl nofun rfl
    (Nat.le_of_ble_eq_true rfl))
  have h₂ := h₁.backend (.setupWritten rfl)
  -- the helper reads the payload, and comes to its blocks
  have h₃ := h₂.call rfl rfl (.quiet (c := .alloc true) rfl)
  have h₄ := h₃.call rfl rfl (.setupRead (n := 26) (b := blocksPayload) (by decide)
    (Nat.le_refl 26) rfl)
  have h₅ := h₄.call rfl rfl (.setupEnd ⟨rfl, rfl⟩)
  have h₆ := h₅.quiets (t := blockOpening) rfl rfl (by decide)
  -- the row is appended and encoded, and its block written
  have h₇ := h₆.emptyWrites rfl 6 rfl rfl
  have h₈ := h₇.backend (.writeCall rfl rfl rfl)
  have h₉ := h₈.backend (.dataWrite (k := lit "0.") rfl nofun rfl
    (Nat.le_of_ble_eq_true rfl))
  have h₁₀ := h₉.call rfl rfl (.dataRead (n := 2) (b := lit "0.") rfl (by decide)
    (Nat.le_refl 2) rfl)
  have h₁₁ := h₁₀.call rfl rfl (.quiet (c := .append 12 (lit "0.") true) rfl)
  exact h₁₁.backend (.dataWritten rfl)

/-- A scan of one row, to its end. -/
theorem copyTo_inserted_oneBlock : ∃ s,
    Weave insertJob (.start 64 64 64 blocksPayload (blocksOf [[some 48]])) (calls oneBlock) s ∧
      s.backend.pc = .returned ∧ exitStatus oneBlock = some 0 ∧
      inserted (calls oneBlock) = lit "0." ∧
      Ran (setupRequest insertBlocks (lit "UTC") (lit "INSERT") []) (calls oneBlock) := by
  have hscan : blocksOf [[some 48]] = some (List.replicate 6 [] ++ lit "0." :: []) := by
    decide +kernel
  have h₁ := (weave_firstBlock hscan).backend (.sendFinished rfl rfl rfl)
  have h₂ := h₁.call rfl rfl (.dataEnd rfl ⟨rfl, rfl⟩)
  have h₃ := h₂.call rfl rfl (.done 12 (.ok []))
  have h₄ := h₃.quiets (t := blockClosing) rfl rfl (by decide)
  have h₅ := h₄.call rfl rfl (.exit 0)
  -- the backend waits for the helper's end
  have h₆ := (h₅.backend (.again rfl rfl)).backend (.drainEnd rfl rfl ⟨rfl, rfl⟩)
  have h₇ := (h₆.backend (.drainedAll rfl rfl)).backend (.errEnded rfl rfl)
  have h₈ := h₇.backend (.reap rfl rfl rfl)
  have hcalls : firstBlockCalls ++ [.read .stdin (.ok [])] ++ [.done 12 (.ok [])] ++
      blockClosing ++ [.exit 0] = calls oneBlock := by
    rw [calls_oneBlock]
    rfl
  rw [hcalls] at h₈
  obtain ⟨⟨-, hzero⟩, hran, -⟩ := copyTo_inserted insertJob rfl (by simp [insertJob]) 64 64 64 rfl
    rfl blocks_fits h₈ List.prefix_rfl rfl
  exact ⟨_, h₈, rfl, hzero, by rw [calls_oneBlock]; rfl, hran⟩

/-- **Only the scan is inserted.**  In every state, an aborted copy's included, what the helper
    has appended is a prefix of the blocks of the scan. -/
theorem copyTo_isPrefix (job : CopyJob) (hcmd : job.cmd = .insert) (setupCap errCap dataCap : ℕ+)
    (hhead : payload.head? = some job.cmd.toByte) {sent : SendState T δ}
    (hsent : chdbCopySend enc parseTuple clause attrs attnums scan = .ok sent)
    (hw : Weave job (.start setupCap errCap dataCap payload
      (sendTodo enc parseTuple clause attrs attnums scan)) log s) (hlog : log <+: calls env) :
    inserted log <+: written sent.calls := by
  have htodo : sendTodo enc parseTuple clause attrs attnums scan =
      some (sent.calls.map SendCall.payload) := by
    rw [sendTodo, hsent]
  rw [htodo] at hw
  obtain ⟨h, hrun⟩ := hw.runs hhead hlog
  calc inserted log <+: took .stdin log := (crossed_of_isPrefix hlog).2
    _ = s.data.taken := hw.carries.input hcmd
    _ <+: s.data.sent := List.prefix_append _ _
    _ <+: written sent.calls := by
      rw [written, List.flatMap_def]
      exact runs_isPrefix (s := beside s h) hcmd hrun

/-- Of two rows the first has been inserted, when the backend is cancelled. -/
theorem copyTo_isPrefix_firstBlock : ∃ s sent,
    Weave insertJob (.start 64 64 64 blocksPayload (blocksOf twoRowScan)) firstBlockCalls s ∧
      s.backend.pc.Raising ∧ chdbCopySend oneRowBlocks (fun _ => .ok [(some (lit "a"), ())])
        (lit "a Int32") [intAttribute (lit "a")] [1] twoRowScan = .ok sent ∧
      inserted firstBlockCalls = lit "0." ∧ written sent.calls = lit "0.1." ∧
      inserted firstBlockCalls <+: written sent.calls := by
  have hscan : blocksOf twoRowScan =
      some (List.replicate 6 [] ++ lit "0." :: (List.replicate 6 [] ++ [lit "1."])) := by
    decide +kernel
  have h₁ := (weave_firstBlock hscan).backend (.raises rfl)
  refine ⟨_, _, h₁, Or.inr ⟨_, rfl⟩, rfl, rfl, ?_, copyTo_isPrefix insertJob rfl 64 64 64 rfl rfl h₁
    ⟨_, calls_oneBlock.symm⟩⟩
  decide +kernel

end

end

end PgChdb.Program
