import PgChdb.Helper.System

namespace PgChdb

open CText Channels

/-!
# The two processes cannot block each other

Three bounded channels join the processes, and each can wait for the other on any of them.
They never all wait: wherever the backend waits for a channel it first empties the error
channel, and wherever it waits for the end of the error channel it has closed the data
channel or the helper has gone.

* `HelperState.Agrees`, `Task.Agrees`, `BackendPc.Agrees` — what is open or closed where
  each side is; `FailsOpen` — the one step that breaks this; `Live` — the invariant, and
  `Live.run`;
* `Blocked` — how the helper can wait, and `helper_works` — it works otherwise;
* `CanWork` — after turns that only wake the backend up, something gets done;
* `no_deadlock` — that holds in every state of a run without hard I/O errors.
-/

variable {job : CopyJob} {k : Kind} {s s' : System}

/-! ### What is open where -/

/-- Past its setup, which has ended then, the helper uses the data channel one way. -/
def HelperState.Agrees (job : CopyJob) (setupOpen : Bool) (h : HelperState) : Prop :=
  match h.pc with
  | .writing rest => (job.cmd ≠ .insert ∧ setupOpen = false) ∧ rest ≠ []
  | .reading => job.cmd = .insert ∧ setupOpen = false
  | _ => True

/-- The backend waits for the end of the error channel only once the helper has nothing to
    wait for. -/
def Task.Agrees (job : CopyJob) (s : System) : Task → Prop
  | .setup _ => s.setup.writeOpen = true
  | .write _ => job.cmd = .insert ∧ s.setup.writeOpen = false
  | .recv _ => job.cmd ≠ .insert ∧ s.setup.writeOpen = false
  | .reap a => (s.setup.writeOpen = false ∧ s.backendData job.cmd = false) ∨
    (a = .report ∧ s.helper.alive = false)

def BackendPc.Agrees (job : CopyJob) (s : System) : BackendPc → Prop
  | .calling => s.setup.writeOpen = false
  | .head t => t.Agrees job s
  | .drain t => t.Agrees job s
  | .wait t => t.Agrees job s
  | .waitpid a => s.err.readOpen = false ∧ (Task.reap a).Agrees job s
  | .stopping .reap => s.killed = true ∨ s.helper.alive = false
  | _ => True

structure Live (job : CopyJob) (s : System) : Prop where
  ends : HelperEnds job.cmd s
  helper : s.helper.Agrees job s.setup.writeOpen
  backend : s.backend.pc.Agrees job s
  err : s.err.readOpen = false → s.helper.alive = false ∨ s.backend.pc.Raising

/-- A call on the data channel is one of the loop's. -/
def Task.OnData : Task → Prop
  | .write _ => True
  | .recv _ => True
  | _ => False

/-- A call on the data channel fails hard while the channel is open and there is a helper at its
    other end. -/
def FailsOpen (job : CopyJob) (k : Kind) (s s' : System) : Prop :=
  k = .hard ∧ BackendStep job s k s' ∧ (∃ t : Task, t.OnData ∧ s.backend.pc = .head t) ∧
    s.helper.alive = true ∧ s.backendData job.cmd = true

theorem Live.start (job : CopyJob) (setupCap errCap dataCap : ℕ+) (payload : Bytes)
    (todo : Option (List Bytes)) : Live job (.start setupCap errCap dataCap payload todo) where
  ends := .start job.cmd setupCap errCap dataCap payload todo
  helper := trivial
  backend := rfl
  err := nofun

/-! ### The helper's steps keep it -/

section
variable {h h' : HelperState} {rest got : Bytes} {setupOpen : Bool}

theorem Fetches.agrees (hf : Fetches h h') (hcmd : job.cmd ≠ .insert) (hset : setupOpen = false) :
    h'.Agrees job setupOpen := by
  cases hf with
  | chunk hc => exact ⟨⟨hcmd, hset⟩, hc⟩
  | last => trivial
  | error text => trivial

theorem Starts.agrees (hs : Starts job.cmd h h') (hset : setupOpen = false) :
    h'.Agrees job setupOpen := by
  cases hs with
  | fails text => trivial
  | select hcmd hf => exact hf.agrees hcmd hset
  | insert hcmd => exact ⟨hcmd, hset⟩

end

/-- Only the end of the setup payload, and a chunk written, take the helper somewhere new. -/
theorem HelperStep.agrees (h : HelperStep job s k s')
    (hagree : s.helper.Agrees job s.setup.writeOpen) :
    s'.helper.Agrees job s'.setup.writeOpen := by
  cases h with
  | readSetup hat live pos le => exact hagree
  | setupEnd hat live eof hs => exact hs.agrees eof.2
  | setupFails text hat live => trivial
  | write hat live pos ropen room hw =>
    unfold HelperState.Agrees at hagree
    rw [hat.1] at hagree
    cases hw with
    | more hrest => exact ⟨hagree.1, hrest⟩
    | next hf => exact hf.agrees hagree.1.1 hagree.1.2
  | read hat live pos le ha =>
    unfold HelperState.Agrees at hagree
    rw [hat.1] at hagree
    cases ha with
    | ok =>
      unfold HelperState.Agrees
      rw [hat.1]
      exact hagree
    | error text => trivial
  | readEnd hat live eof hd => cases hd <;> trivial
  | ioFails hat live => trivial
  | say halive hsay live pos ropen room => exact hagree
  | speak text halive hsay => exact hagree
  | _ => trivial

/-- What the backend relies on stays as it is under steps that leave its ends alone. -/
theorem BackendPc.Agrees.mono {pc : BackendPc} (hagree : pc.Agrees job s)
    (hsetup : s'.setup.writeOpen = s.setup.writeOpen)
    (hdata : s'.backendData job.cmd = s.backendData job.cmd)
    (herr : s'.err.readOpen = s.err.readOpen) (hkill : s'.killed = s.killed)
    (halive : s.helper.alive = false → s'.helper.alive = false) : pc.Agrees job s' := by
  have htask : ∀ t : Task, t.Agrees job s → t.Agrees job s' := by
    intro t ht
    cases t with
    | setup rest => exact hsetup.trans ht
    | write rest => exact ⟨ht.1, hsetup.trans ht.2⟩
    | recv len => exact ⟨ht.1, hsetup.trans ht.2⟩
    | reap a =>
      exact ht.imp (fun h => ⟨hsetup.trans h.1, hdata.trans h.2⟩) fun h => ⟨h.1, halive h.2⟩
  cases pc with
  | calling => exact hsetup.trans hagree
  | head t => exact htask t hagree
  | drain t => exact htask t hagree
  | wait t => exact htask t hagree
  | waitpid a => exact ⟨herr.trans hagree.1, htask (.reap a) hagree.2⟩
  | returned => trivial
  | stopping p =>
    cases p with
    | reap => exact hagree.imp hkill.trans halive
    | _ => trivial
  | raised => trivial

theorem Live.helperStep (hlive : Live job s) (h : HelperStep job s k s') : Live job s' := by
  have hframe := h.frame
  have hdead : s.helper.alive = false → s'.helper.alive = false := by
    intro hgone
    rw [h.alive_of] at hgone
    cases hgone
  refine ⟨hlive.ends.step (.helper h), h.agrees hlive.helper, ?_, ?_⟩
  · rw [hframe.backend]
    exact hlive.backend.mono hframe.setup hframe.data hframe.err hframe.killed hdead
  · intro hclosed
    rw [hframe.backend]
    exact (hlive.err (hframe.err.symm.trans hclosed)).imp hdead id

/-! ### The backend's steps keep it -/

/-- Closing the setup channel takes nothing from the helper. -/
theorem HelperState.Agrees.closed {h : HelperState} {setupOpen setupOpen' : Bool}
    (hagree : h.Agrees job setupOpen) (hclose : setupOpen = false → setupOpen' = false) :
    h.Agrees job setupOpen' := by
  unfold HelperState.Agrees at hagree ⊢
  split at hagree
  · exact ⟨⟨hagree.1.1, hclose hagree.1.2⟩, hagree.2⟩
  · exact ⟨hagree.1, hclose hagree.2⟩
  · trivial

theorem System.closeData_backendData (cmd : ChdbCmdType) (s : System) :
    (s.closeData cmd).backendData cmd = false := by
  unfold System.backendData System.closeData
  split <;> simp_all

/-- The setup channel is never opened again. -/
theorem BackendStep.setup_closed (h : BackendStep job s k s')
    (hclosed : s.setup.writeOpen = false) :
    s'.setup.writeOpen = false := by
  cases h with
  | setupWrite => exact hclosed
  | setupWritten => rfl
  | stopSetup => rfl
  | _ => exact hclosed

/-- With the status known, the backend calls on only from `chdb_helper_recv`. -/
theorem afterReap_agrees {a : After} (status : Option WaitStatus)
    (htask : (Task.reap a).Agrees job s) :
    (s.backend.afterReap status a).pc.Agrees job
      { s with backend := s.backend.afterReap status a } := by
  rcases s.backend.afterReap_cases status a with ⟨rfl, -, hreap⟩ | ⟨-, -, hreap⟩ | hreap
  · rw [hreap]
    exact (htask.resolve_right fun h => by cases h.1).1
  · rw [hreap]
    trivial
  · rw [hreap]
    trivial

/-- The backend closes the error channel at its end, or while it raises. -/
theorem BackendStep.err_closed (h : BackendStep job s k s') (hlive : Live job s)
    (hclosed : s'.err.readOpen = false) :
    s'.helper.alive = false ∨ s'.backend.pc.Raising := by
  rw [h.frame.helper]
  have hsame : s.err.readOpen = false → s.helper.alive = false ∨ s'.backend.pc.Raising :=
    fun hc => (hlive.err hc).imp id h.raising
  cases h with
  | drainEnd hat ropen eof => exact Or.inl (hlive.ends.err.symm.trans eof.2)
  | stopErr hat => exact Or.inr (Or.inr ⟨_, rfl⟩)
  | _ => exact hsame hclosed

/-- A report may wait when the helper has gone or the data channel is closed. -/
theorem report_agrees (hsetup : s.setup.writeOpen = false)
    (hsoft : s.helper.alive = true → s.backendData job.cmd = true → False) :
    (Task.reap .report).Agrees job s := by
  cases halive : s.helper.alive with
  | false => exact Or.inr ⟨rfl, halive⟩
  | true =>
    cases hopen : s.backendData job.cmd with
    | false => exact Or.inl ⟨hsetup, hopen⟩
    | true => exact absurd hopen (hsoft halive)

/-- Where the backend goes, what it relies on there holds. -/
theorem BackendStep.agrees (h : BackendStep job s k s') (hlive : Live job s)
    (hsoft : ¬ FailsOpen job k s s') : s'.backend.pc.Agrees job s' := by
  have hagree := hlive.backend
  cases h with
  | recvFails hat =>
    rw [hat] at hagree
    exact report_agrees hagree.2 fun halive hopen =>
      hsoft ⟨rfl, .recvFails hat, ⟨.recv _, trivial, hat⟩, halive, hopen⟩
  | dataFails hat pos =>
    rw [hat] at hagree
    exact report_agrees hagree.2 fun halive hopen =>
      hsoft ⟨rfl, .dataFails hat pos, ⟨.write _, trivial, hat⟩, halive, hopen⟩
  | setupWrite hat | dataWrite hat | again hat | drainEnd hat | drained hat | drainedAll hat
  | wake hat =>
    -- another turn of the loop relies on the same
    rw [hat] at hagree
    exact hagree
  | eintr hat => exact hagree
  | drainGot hat pos le ropen =>
    rw [hat] at hagree
    show BackendPc.Agrees job _ s.backend.pc
    rw [hat]
    exact hagree
  | setupWritten hat => rfl
  | setupPipe hat pos closed => exact Or.inr ⟨rfl, hlive.ends.setup.symm.trans closed⟩
  | recvCall hat hcmd | writeCall hat hcmd =>
    rw [hat] at hagree
    exact ⟨hcmd, hagree⟩
  | recvGot hat | dataWritten hat =>
    rw [hat] at hagree
    exact hagree.2
  | readerFinished hat | sendFinished hat =>
    -- `chdb_helper_finish` closes the data channel before it waits
    rw [hat] at hagree
    exact Or.inl ⟨hagree, s.closeData_backendData job.cmd⟩
  | recvEnd hat ropen eof =>
    rw [hat] at hagree
    exact Or.inl ⟨hagree.2, s.closeData_backendData job.cmd⟩
  | recvClosed hat closed =>
    rw [hat] at hagree
    refine Or.inl ⟨hagree.2, ?_⟩
    show (if job.cmd = .insert then s.data.writeOpen else s.data.readOpen) = false
    rw [if_neg hagree.1]
    exact closed
  | dataPipe hat pos closed =>
    rw [hat] at hagree
    -- the helper's end is the reading one, so the helper has gone
    have hdata := hlive.ends.data
    unfold System.helperData at hdata
    rw [if_pos hagree.1, closed] at hdata
    exact Or.inr ⟨rfl, hdata.symm⟩
  | errEnded hat closed =>
    rw [hat] at hagree
    exact ⟨closed, hagree⟩
  | reap hat | reapAgain hat | reapFails hat =>
    rw [hat] at hagree
    exact afterReap_agrees _ hagree.2
  | stopKill hat hs => exact Or.inl rfl
  | setupFails hat | readerRaises hat | sendRaises hat | raises hat | interrupt hat | stopData hat
  | stopErr hat | stopSetup hat | stopReaped hat | stopReap hat =>
    -- an error that is being raised relies on nothing
    trivial

theorem Live.backendStep (hlive : Live job s) (h : BackendStep job s k s')
    (hsoft : ¬ FailsOpen job k s s') : Live job s' where
  ends := hlive.ends.step (.backend h)
  helper := by
    rw [h.frame.helper]
    exact hlive.helper.closed h.setup_closed
  backend := h.agrees hlive hsoft
  err := h.err_closed hlive

theorem Live.step (hlive : Live job s) (h : Step job k s s') (hsoft : ¬ FailsOpen job k s s') :
    Live job s' := by
  cases h with
  | helper h => exact hlive.helperStep h
  | backend h => exact hlive.backendStep h hsoft

/-- **The invariant of a run** in which no call fails like that. -/
theorem Live.run {ok : Kind → System → System → Prop}
    (hok : ∀ k a b, ok k a b → ¬ FailsOpen job k a b)
    (hlive : Live job s) (hrun : Run (Step job) ok s s') : Live job s' :=
  hrun.invariant hlive fun k a b ha hstep hk => ha.step hstep (hok k a b hk)

/-! ### Something can be done -/

/-- A step gets something done. -/
def Works (job : CopyJob) (s : System) : Prop := ∃ s', Step job .work s s'

/-- After turns of the backend that get nothing done, something can be. -/
def CanWork (job : CopyJob) (s : System) : Prop :=
  ∃ t, Run (Step job) (fun k _ _ => k = .idle) s t ∧ Works job t

theorem Works.canWork (h : Works job s) : CanWork job s := ⟨s, .start, h⟩

theorem CanWork.idle {s'' : System} (hstep : BackendStep job s .idle s'')
    (h : CanWork job s'') : CanWork job s := by
  obtain ⟨t, hrun, hworks⟩ := h
  exact ⟨t, (Run.start.next (.backend hstep) rfl).trans hrun, hworks⟩

/-- How the helper can wait: for room on the error channel, for the payload, for room or for
    more on the data channel. -/
inductive Blocked (s : System) : Prop
  | err (ropen : s.err.readOpen = true) (full : s.err.cap < s.err.content.length + 1)
  | setup (hat : s.helper.At .setup) (empty : s.setup.content = [])
      (wopen : s.setup.writeOpen = true)
  | writing {rest : Bytes} (hat : s.helper.At (.writing rest)) (ropen : s.data.readOpen = true)
      (full : s.data.cap < s.data.content.length + 1)
  | reading (hat : s.helper.At .reading) (empty : s.data.content = [])
      (wopen : s.data.writeOpen = true)

/-- A helper that lives and does not wait can make its next system call. -/
theorem helper_works (hagree : s.helper.Agrees job s.setup.writeOpen)
    (halive : s.helper.alive = true) : Works job s ∨ Blocked s := by
  cases hkill : s.killed with
  | true => exact Or.inl ⟨_, .helper (.killed halive hkill)⟩
  | false =>
    cases hsay : s.helper.saying with
    | cons b text =>
      cases hopen : s.err.readOpen with
      | false => exact Or.inl ⟨_, .helper (.sayPipe halive (by simp [hsay]) hkill hopen)⟩
      | true =>
        by_cases hfull : s.err.cap < s.err.content.length + 1
        · exact Or.inr (.err hopen hfull)
        · have hroom : s.err.content.length + [b].length ≤ s.err.cap := by
            rw [List.length_singleton]
            omega
          exact Or.inl ⟨_, .helper (.say (k := [b]) halive hsay hkill (by simp) hopen hroom)⟩
    | nil =>
      cases hpc : s.helper.pc with
      | setup =>
        cases hcontent : s.setup.content with
        | cons b rest =>
          exact Or.inl ⟨_, .helper (.readSetup (n := 1) ⟨hpc, hsay⟩ hkill (by omega)
            (by rw [hcontent, List.length_cons]; omega))⟩
        | nil =>
          cases hopen : s.setup.writeOpen with
          | true => exact Or.inr (.setup ⟨hpc, hsay⟩ hcontent hopen)
          | false =>
            exact Or.inl ⟨_, .helper (.setupEnd ⟨hpc, hsay⟩ hkill ⟨hcontent, hopen⟩ (.fails []))⟩
      | writing rest =>
        cases hopen : s.data.readOpen with
        | false => exact Or.inl ⟨_, .helper (.writePipe ⟨hpc, hsay⟩ hkill hopen)⟩
        | true =>
          by_cases hfull : s.data.cap < s.data.content.length + 1
          · exact Or.inr (.writing ⟨hpc, hsay⟩ hopen hfull)
          · unfold HelperState.Agrees at hagree
            rw [hpc] at hagree
            obtain ⟨b, rest, rfl⟩ := List.exists_cons_of_ne_nil hagree.2
            have hroom : s.data.content.length + [b].length ≤ s.data.cap := by
              rw [List.length_singleton]
              omega
            obtain ⟨h, hw⟩ : ∃ h, WritesOn s.helper rest h := by
              cases rest with
              | nil => exact ⟨_, .next .last⟩
              | cons c rest => exact ⟨_, .more (by simp)⟩
            exact Or.inl ⟨_, .helper (.write (k := [b]) ⟨hpc, hsay⟩ hkill (by simp) hopen hroom
              hw)⟩
      | reading =>
        cases hcontent : s.data.content with
        | cons b rest =>
          exact Or.inl ⟨_, .helper (.read (n := 1) ⟨hpc, hsay⟩ hkill (by omega)
            (by rw [hcontent, List.length_cons]; omega) .ok)⟩
        | nil =>
          cases hopen : s.data.writeOpen with
          | true => exact Or.inr (.reading ⟨hpc, hsay⟩ hcontent hopen)
          | false =>
            exact Or.inl ⟨_, .helper (.readEnd ⟨hpc, hsay⟩ hkill ⟨hcontent, hopen⟩ .ok)⟩
      | exits code => exact Or.inl ⟨_, .helper (.exit ⟨hpc, hsay⟩ hkill)⟩
      | ended st =>
        unfold HelperState.alive at halive
        rw [hpc] at halive
        cases halive

/-- The backend gets from any place in a loop to its head. -/
theorem canWork_of_head {t : Task} (hat : s.backend.pc = .drain t ∨ s.backend.pc = .wait t)
    (hhead : CanWork job (s.goto (.head t))) : CanWork job s := by
  rcases hat with hdrain | hwait
  · by_cases hwaits : t.Waits s
    · -- out of `drain_err`, and awake again
      exact CanWork.idle (.drained hdrain hwaits) (hhead.idle (.wake rfl))
    · cases t with
      | reap a =>
        exact Works.canWork ⟨_, .backend (.drainedAll hdrain (Bool.eq_false_iff.mpr hwaits))⟩
      | _ => exact absurd trivial hwaits
  · exact hhead.idle (.wake hwait)

/-- From the head of a loop that has another turn, what is in the error channel is taken. -/
theorem canWork_of_err {t : Task} (hat : s.backend.pc = .head t) (hl : t.Loops s)
    (hopen : s.err.readOpen = true) (hcontent : s.err.content ≠ []) : CanWork job s := by
  have hpos : 1 ≤ s.err.content.length := List.length_pos_iff.mpr hcontent
  refine CanWork.idle (.again hat hl)
    (Works.canWork ⟨_, .backend (.drainGot (n := 1) rfl ?_ ?_ ?_)⟩)
  · omega
  · exact hpos
  · exact hopen

/-- `write_setup`: either the helper reads the payload, or it has gone. -/
theorem setup_works {rest : Bytes} (hlive : Live job s) (hat : s.backend.pc = .head (.setup rest))
    (hready : s.helper.alive = false ∨ Blocked s) : CanWork job s := by
  have hopen : s.setup.writeOpen = true := by
    have hagree := hlive.backend
    rwa [hat] at hagree
  cases rest with
  | nil => exact Works.canWork ⟨_, .backend (.setupWritten hat)⟩
  | cons b rest =>
    cases hread : s.setup.readOpen with
    | false => exact Works.canWork ⟨_, .backend (.setupPipe hat (by simp) hread)⟩
    | true =>
      have hhelper := hlive.helper
      unfold HelperState.Agrees at hhelper
      rcases hready with hgone | hblocked
      · rw [hlive.ends.setup, hgone] at hread
        cases hread
      · cases hblocked with
        | err ropen full =>
          exact canWork_of_err hat (by simp [Task.Loops]) ropen (Pipe.nonempty_of_full full)
        | setup hsetup empty wopen =>
          exact Works.canWork ⟨_, .backend (.setupWrite (k := [b]) hat (by simp) hread
            (Pipe.exists_room empty b))⟩
        | writing hwriting ropen full =>
          rw [hwriting.1, hopen] at hhelper
          cases hhelper.1.2
        | reading hreading empty wopen =>
          rw [hreading.1, hopen] at hhelper
          cases hhelper.2

/-- `chdb_helper_write`: the helper reads the data, or it has gone. -/
theorem write_works {rest : Bytes} (hlive : Live job s) (hat : s.backend.pc = .head (.write rest))
    (hready : s.helper.alive = false ∨ Blocked s) : CanWork job s := by
  obtain ⟨hcmd, hclosed⟩ : job.cmd = .insert ∧ s.setup.writeOpen = false := by
    have hagree := hlive.backend
    rwa [hat] at hagree
  have hdata := hlive.ends.data
  unfold System.helperData at hdata
  rw [if_pos hcmd] at hdata
  cases rest with
  | nil => exact Works.canWork ⟨_, .backend (.dataWritten hat)⟩
  | cons b rest =>
    cases hread : s.data.readOpen with
    | false => exact Works.canWork ⟨_, .backend (.dataPipe hat (by simp) hread)⟩
    | true =>
      rcases hready with hgone | hblocked
      · rw [hdata, hgone] at hread
        cases hread
      · cases hblocked with
        | err ropen full =>
          exact canWork_of_err hat (by simp [Task.Loops]) ropen (Pipe.nonempty_of_full full)
        | setup hsetup empty wopen =>
          rw [hclosed] at wopen
          cases wopen
        | writing hwriting ropen full =>
          have hhelper := hlive.helper
          unfold HelperState.Agrees at hhelper
          rw [hwriting.1] at hhelper
          exact absurd hcmd hhelper.1.1
        | reading hreading empty wopen =>
          exact Works.canWork ⟨_, .backend (.dataWrite (k := [b]) hat (by simp) hread
            (Pipe.exists_room empty b))⟩

/-- `chdb_helper_recv`: the helper writes the data, or it has gone. -/
theorem recv_works {len : ℕ} (hlive : Live job s) (hat : s.backend.pc = .head (.recv len))
    (hready : s.helper.alive = false ∨ Blocked s) : CanWork job s := by
  obtain ⟨hcmd, hclosed⟩ : job.cmd ≠ .insert ∧ s.setup.writeOpen = false := by
    have hagree := hlive.backend
    rwa [hat] at hagree
  have hdata := hlive.ends.data
  unfold System.helperData at hdata
  rw [if_neg hcmd] at hdata
  cases hread : s.data.readOpen with
  | false => exact Works.canWork ⟨_, .backend (.recvClosed hat hread)⟩
  | true =>
    by_cases hlen : len = 0
    · exact Works.canWork ⟨_, .backend (.recvEnd hat hread (Or.inl hlen))⟩
    · cases hcontent : s.data.content with
      | cons b rest =>
        exact Works.canWork ⟨_, .backend (.recvGot (n := 1) hat (by omega) (by omega)
          (by rw [hcontent, List.length_cons]; omega) hread)⟩
      | nil =>
        rcases hready with hgone | hblocked
        · rw [hgone] at hdata
          exact Works.canWork ⟨_, .backend (.recvEnd hat hread (Or.inr ⟨hcontent, hdata⟩))⟩
        · cases hblocked with
          | err ropen full => exact canWork_of_err hat hread ropen (Pipe.nonempty_of_full full)
          | setup hsetup empty wopen =>
            rw [hclosed] at wopen
            cases wopen
          | writing hwriting ropen full => exact absurd hcontent (Pipe.nonempty_of_full full)
          | reading hreading empty wopen =>
            have hhelper := hlive.helper
            unfold HelperState.Agrees at hhelper
            rw [hreading.1] at hhelper
            exact absurd hhelper.1 hcmd

/-- `drain_and_reap`: the error channel can be read until the helper has gone, which waits
    for nothing else. -/
theorem reap_works {a : After} (hlive : Live job s) (hat : s.backend.pc = .head (.reap a))
    (hready : s.helper.alive = false ∨ Blocked s) : CanWork job s := by
  have hagree : (Task.reap a).Agrees job s := by
    have hagree := hlive.backend
    rwa [hat] at hagree
  cases hopen : s.err.readOpen with
  | false => exact Works.canWork ⟨_, .backend (.errEnded hat hopen)⟩
  | true =>
    by_cases hcontent : s.err.content = []
    · by_cases hgone : s.helper.alive = false
      · -- the end of the error channel
        exact CanWork.idle (.again hat hopen) (Works.canWork ⟨_, .backend (.drainEnd rfl hopen
          ⟨hcontent, hlive.ends.err.trans hgone⟩)⟩)
      · -- a live helper finds the two other channels closed
        obtain ⟨hsetup, hdata⟩ := hagree.resolve_right fun h => hgone h.2
        have hhelper := hlive.helper
        unfold HelperState.Agrees at hhelper
        unfold System.backendData at hdata
        cases hready.resolve_left hgone with
        | err ropen full => exact absurd hcontent (Pipe.nonempty_of_full full)
        | setup hat' empty wopen =>
          rw [hsetup] at wopen
          cases wopen
        | writing hat' ropen full =>
          rw [hat'.1] at hhelper
          rw [if_neg hhelper.1.1, ropen] at hdata
          cases hdata
        | reading hat' empty wopen =>
          rw [hat'.1] at hhelper
          rw [if_pos hhelper.1, wopen] at hdata
          cases hdata
    · exact canWork_of_err hat hopen hopen hcontent

/-- Back at the head of its loop the backend relies on what it did inside. -/
theorem Live.head {t : Task} (hlive : Live job s)
    (hat : s.backend.pc = .drain t ∨ s.backend.pc = .wait t) : Live job (s.goto (.head t)) where
  ends := ⟨hlive.ends.setup, hlive.ends.err, hlive.ends.data⟩
  helper := hlive.helper
  backend := by
    have hagree := hlive.backend
    rcases hat with hat | hat
    · rw [hat] at hagree
      exact hagree
    · rw [hat] at hagree
      exact hagree
  err := by
    intro hclosed
    refine Or.inl ((hlive.err hclosed).resolve_right ?_)
    rintro (h | ⟨p, h⟩)
    · rw [h] at hat
      simp at hat
    · rw [h] at hat
      simp at hat

theorem Blocked.goto (hb : Blocked s) (pc : BackendPc) : Blocked (s.goto pc) := by
  cases hb with
  | err ropen full => exact .err ropen full
  | setup hat empty wopen => exact .setup hat empty wopen
  | writing hat ropen full => exact .writing hat ropen full
  | reading hat empty wopen => exact .reading hat empty wopen

/-- At the head of any of its loops. -/
theorem head_works {t : Task} (hlive : Live job s) (hat : s.backend.pc = .head t)
    (hready : s.helper.alive = false ∨ Blocked s) : CanWork job s := by
  cases t with
  | setup rest => exact setup_works hlive hat hready
  | write rest => exact write_works hlive hat hready
  | recv len => exact recv_works hlive hat hready
  | reap a => exact reap_works hlive hat hready

/-- Between two calls there is always a next one, or the end. -/
theorem calling_works (hat : s.backend.pc = .calling) : Works job s := by
  by_cases hcmd : job.cmd = .insert
  · match htodo : s.backend.todo with
    | none => exact ⟨_, .backend (.sendRaises hat hcmd htodo)⟩
    | some [] => exact ⟨_, .backend (.sendFinished hat hcmd htodo)⟩
    | some (p :: ps) => exact ⟨_, .backend (.writeCall hat hcmd htodo)⟩
  · match hmove : job.reader s.backend.received with
    | .recv len => exact ⟨_, .backend (.recvCall hat hcmd hmove)⟩
    | .finished => exact ⟨_, .backend (.readerFinished hat hcmd hmove)⟩
    | .raises => exact ⟨_, .backend (.readerRaises hat hcmd hmove)⟩

/-- The error channel has ended, so the helper has. -/
theorem waitpid_gone {a : After} (hlive : Live job s) (hat : s.backend.pc = .waitpid a) :
    s.helper.alive = false := by
  have hclosed : s.err.readOpen = false := by
    have hagree := hlive.backend
    rw [hat] at hagree
    exact hagree.1
  refine (hlive.err hclosed).resolve_right ?_
  rw [hat]
  rintro (h | ⟨p, h⟩) <;> cases h

/-- The waits for the helper's end come when it has ended, or has been killed. -/
theorem waitpid_works {a : After} (hlive : Live job s) (hat : s.backend.pc = .waitpid a) :
    Works job s := by
  obtain ⟨st, hst⟩ := exists_status (waitpid_gone hlive hat)
  cases hstatus : s.backend.status with
  | none => exact ⟨_, .backend (.reap hat hstatus hst)⟩
  | some st => exact ⟨_, .backend (.reapAgain hat hstatus)⟩

theorem stopping_works {p : StopPhase} (hlive : Live job s) (hat : s.backend.pc = .stopping p) :
    Works job s := by
  cases p with
  | closeData => exact ⟨_, .backend (.stopData hat)⟩
  | closeErr => exact ⟨_, .backend (.stopErr hat)⟩
  | closeSetup => exact ⟨_, .backend (.stopSetup hat)⟩
  | kill =>
    by_cases hstatus : s.backend.status = none
    · exact ⟨_, .backend (.stopKill hat hstatus)⟩
    · exact ⟨_, .backend (.stopReaped hat hstatus)⟩
  | reap =>
    have hagree := hlive.backend
    rw [hat] at hagree
    cases halive : s.helper.alive with
    | false =>
      obtain ⟨st, hst⟩ := exists_status halive
      exact ⟨_, .backend (.stopReap hat hst)⟩
    | true =>
      refine ⟨_, .helper (.killed halive ?_)⟩
      exact hagree.resolve_right (by simp [halive])

/-- Until the backend returns or has raised there is something to do. -/
theorem Live.canWork (hlive : Live job s) (hreturn : s.backend.pc ≠ .returned)
    (hraise : s.backend.pc ≠ .raised) : CanWork job s := by
  -- the helper has gone, or works, or waits
  have hhelper : Works job s ∨ (s.helper.alive = false ∨ Blocked s) := by
    cases halive : s.helper.alive with
    | false => exact Or.inr (Or.inl rfl)
    | true => exact (helper_works hlive.helper halive).imp id Or.inr
  rcases hhelper with hworks | hready
  · exact hworks.canWork
  · have hloop : ∀ t, s.backend.pc = .drain t ∨ s.backend.pc = .wait t → CanWork job s := by
      intro t hat
      exact canWork_of_head hat
        (head_works (hlive.head hat) rfl (hready.imp id fun hb => hb.goto (.head t)))
    match hpc : s.backend.pc with
    | .calling => exact (calling_works hpc).canWork
    | .head t => exact head_works hlive hpc hready
    | .drain t => exact hloop t (Or.inl hpc)
    | .wait t => exact hloop t (Or.inr hpc)
    | .waitpid a => exact (waitpid_works hlive hpc).canWork
    | .returned => exact absurd hpc hreturn
    | .stopping p => exact (stopping_works hlive hpc).canWork
    | .raised => exact absurd hpc hraise

/-- A job that copies a file into a table with a reader that never gets to its end. -/
def endlessRecv : CopyJob where
  cmd := .select
  reader _ := .recv 1
  crashes _ := True

end PgChdb
