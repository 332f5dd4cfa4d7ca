import PgChdb.Helper.System

namespace PgChdb

open CText Channels

/-!
# `COPY FROM`: success means the whole result

When `chdb_copy` returns from a SELECT, the helper has ended with status 0, which it does only
after chDB has returned its last chunk and all of them have been written.  The backend knows
the status from `chdb_helper_recv`, which waits for it before it reports the end of the
stream; and it returns only after that report.

* `HelperState.Streams` — what the helper has written, where it is;
* `BackendPc.Reads` — what the backend knows, where it is; `Copies` — the invariant, and
  `Copies.step`;
* `copyFrom_complete` — the result has been handed on whole, and the helper ended cleanly.
-/

variable {job : CopyJob} {k : Kind} {s s' : System}

/-! ### The helper's side -/

/-- The stream has come to its end, and all of it has been written. -/
def HelperState.Complete (sent : Bytes) (h : HelperState) : Prop :=
  sent = h.fetched.flatten ∧ ∃ chunks, h.fetched = chunks ++ [[]]

/-- What the helper has written to the data channel. -/
def HelperState.Streams (sent : Bytes) (h : HelperState) : Prop :=
  match h.pc with
  | .setup => h.fetched = [] ∧ sent = []
  | .writing rest => sent ++ rest = h.fetched.flatten
  | .reading => False
  | .exits code => code = 0 → h.Complete sent
  | .ended st => st = .exited 0 → h.Complete sent

section
variable {h h' : HelperState} {sent rest k : Bytes}

theorem Fetches.streams (hf : Fetches h h') (hsent : sent = h.fetched.flatten) :
    h'.Streams sent := by
  cases hf with
  | @chunk c hc =>
    show sent ++ c = (h.fetched ++ [c]).flatten
    rw [List.flatten_append, List.flatten_singleton, hsent]
  | last =>
    refine fun _ => ⟨?_, h.fetched, rfl⟩
    show sent = (h.fetched ++ [[]]).flatten
    rw [List.flatten_append, List.flatten_singleton, List.append_nil, hsent]
  | error text => exact fun hzero => absurd hzero (by decide)

theorem Starts.streams {cmd : ChdbCmdType} (hs : Starts cmd h h') (hcmd : cmd ≠ .insert)
    (hsent : sent = h.fetched.flatten) : h'.Streams sent := by
  cases hs with
  | fails text => exact fun hzero => absurd hzero (by decide)
  | select _ hf => exact hf.streams hsent
  | insert hins => exact absurd hins hcmd

theorem WritesOn.streams (hw : WritesOn h rest h') (hsent : sent ++ rest = h.fetched.flatten) :
    h'.Streams sent := by
  cases hw with
  | more hrest => exact hsent
  | next hf =>
    rw [List.append_nil] at hsent
    exact hf.streams hsent

end

/-- The status of success is the helper's own. -/
theorem HelperStep.streams (h : HelperStep job s k s') (hcmd : job.cmd ≠ .insert)
    (hcrash : ¬ job.crashes (.exited 0)) (hs : s.helper.Streams s.data.sent) :
    s'.helper.Streams s'.data.sent ∧ s'.data.taken = s.data.taken := by
  have hdie : ∀ st, (st = .exited 0 → s.helper.Complete s.data.sent) →
      (s.die job.cmd st).helper.Streams (s.die job.cmd st).data.sent ∧
        (s.die job.cmd st).data.taken = s.data.taken := by
    intro st hst
    have hdata : (s.die job.cmd st).data = s.data.closeWrite := if_neg hcmd
    rw [hdata]
    exact ⟨hst, rfl⟩
  cases h with
  | readSetup hat live pos le => exact ⟨hs, rfl⟩
  | setupEnd hat live eof hstart =>
    unfold HelperState.Streams at hs
    rw [hat.1] at hs
    refine ⟨hstart.streams hcmd ?_, rfl⟩
    rw [hs.1, hs.2]
    rfl
  | setupFails text hat live => exact ⟨fun hzero => absurd hzero (by decide), rfl⟩
  | write hat live pos ropen room hw =>
    unfold HelperState.Streams at hs
    rw [hat.1] at hs
    refine ⟨hw.streams ?_, rfl⟩
    rw [Pipe.put_sent, List.append_assoc]
    exact hs
  | writePipe hat live closed => exact hdie _ nofun
  | read hat live pos le ha =>
    unfold HelperState.Streams at hs
    rw [hat.1] at hs
    exact hs.elim
  | readEnd hat live eof hd =>
    unfold HelperState.Streams at hs
    rw [hat.1] at hs
    exact hs.elim
  | ioFails hat live => exact ⟨fun hzero => absurd hzero (by decide), rfl⟩
  | say halive hsay live pos ropen room => exact ⟨hs, rfl⟩
  | sayPipe halive hsay live closed => exact hdie _ nofun
  | @exit code hat live =>
    unfold HelperState.Streams at hs
    rw [hat.1] at hs
    refine hdie _ fun hst => hs ?_
    cases hst
    rfl
  | speak text halive hsay => exact ⟨hs, rfl⟩
  | crash halive hst =>
    refine hdie _ ?_
    rintro rfl
    exact absurd hst hcrash
  | killed halive hkill => exact hdie _ nofun

/-! ### The backend's side -/

/-- What the backend knows in each of its loops: waiting in `chdb_helper_recv` it has read
    everything, waiting in `chdb_helper_finish` it has been told the end. -/
def Task.Reads (s : System) : Task → Prop
  | .setup _ => True
  | .write _ => False
  | .recv len => 0 < len
  | .reap .recv => s.data.content = [] ∧ s.helper.alive = false
  | .reap .finish => [] ∈ s.backend.received
  | .reap .report => True

def BackendPc.Reads (s : System) : BackendPc → Prop
  | .head t => t.Reads s
  | .drain t => t.Reads s
  | .wait t => t.Reads s
  | .waitpid a => (Task.reap a).Reads s
  | .returned => [] ∈ s.backend.received
  | _ => True

/-- The stream has been read to its end, and the helper has ended well. -/
def System.Ended (s : System) : Prop :=
  s.helper.pc = .ended (.exited 0) ∧ s.backend.status = some (some (.exited 0)) ∧
    s.data.content = []

structure Copies (job : CopyJob) (s : System) : Prop where
  ends : HelperEnds job.cmd s
  helper : s.helper.Streams s.data.sent
  taken : s.backend.received.flatten = s.data.taken
  status : ∀ st, s.backend.status = some (some st) → s.helper.pc = .ended st
  ended : [] ∈ s.backend.received → s.Ended
  pc : s.backend.pc.Reads s

theorem Copies.start (job : CopyJob) (setupCap errCap dataCap : ℕ+) (payload : Bytes)
    (todo : Option (List Bytes)) : Copies job (.start setupCap errCap dataCap payload todo) where
  ends := .start job.cmd setupCap errCap dataCap payload todo
  helper := ⟨rfl, rfl⟩
  taken := rfl
  status := nofun
  ended := nofun
  pc := trivial

theorem Copies.helperStep (hc : Copies job s) (h : HelperStep job s k s')
    (hcmd : job.cmd ≠ .insert) (hcrash : ¬ job.crashes (.exited 0)) : Copies job s' := by
  have halive := h.alive_of
  have hframe := h.frame
  obtain ⟨hstreams, htaken⟩ := h.streams hcmd hcrash hc.helper
  -- nothing that waits for the helper's end has had it
  have hgone : ∀ st, s.helper.pc ≠ .ended st := by
    intro st hst
    unfold HelperState.alive at halive
    rw [hst] at halive
    cases halive
  have htask : ∀ t : Task, t.Reads s → t.Reads s' := by
    intro t ht
    match t with
    | .setup _ => trivial
    | .write _ => exact ht
    | .recv _ => exact ht
    | .reap .recv => exact absurd ht.2 (by simp [halive])
    | .reap .finish =>
      show [] ∈ s'.backend.received
      rw [hframe.backend]
      exact ht
    | .reap .report => trivial
  refine ⟨hc.ends.step (.helper h), hstreams, ?_, ?_, ?_, ?_⟩
  · rw [hframe.backend, htaken]
    exact hc.taken
  · intro st hst
    rw [hframe.backend] at hst
    exact absurd (hc.status st hst) (hgone st)
  · intro hnil
    rw [hframe.backend] at hnil
    exact absurd (hc.ended hnil).1 (hgone _)
  · rw [hframe.backend]
    have hpc := hc.pc
    cases hat : s.backend.pc with
    | head t => rw [hat] at hpc; exact htask t hpc
    | drain t => rw [hat] at hpc; exact htask t hpc
    | wait t => rw [hat] at hpc; exact htask t hpc
    | waitpid a => rw [hat] at hpc; exact htask (.reap a) hpc
    | returned =>
      rw [hat] at hpc
      show [] ∈ s'.backend.received
      rw [hframe.backend]
      exact hpc
    | _ => trivial

/-- A step of the backend that neither reads data nor learns a status. -/
structure Quiet (s s' : System) : Prop where
  helper : s'.helper = s.helper
  received : s'.backend.received = s.backend.received
  status : s'.backend.status = s.backend.status
  taken : s'.data.taken = s.data.taken
  content : s'.data.content = s.data.content

theorem Quiet.closeData (cmd : ChdbCmdType) (s : System) : Quiet s (s.closeData cmd) := by
  unfold System.closeData
  refine ⟨rfl, rfl, rfl, ?_, ?_⟩
  · dsimp only
    split <;> rfl
  · dsimp only
    split <;> rfl

theorem Copies.quiet (hc : Copies job s) (hq : Quiet s s') (hends : HelperEnds job.cmd s')
    (hpc : s'.backend.pc.Reads s') : Copies job s' where
  ends := hends
  helper := by
    have hsent : s'.data.sent = s.data.sent := by
      rw [Pipe.sent, Pipe.sent, hq.taken, hq.content]
    rw [hq.helper, hsent]
    exact hc.helper
  taken := by
    rw [hq.received, hq.taken]
    exact hc.taken
  status := by
    rw [hq.status, hq.helper]
    exact hc.status
  ended := by
    rw [hq.received]
    unfold System.Ended
    rw [hq.helper, hq.status, hq.content]
    exact hc.ended
  pc := hpc

/-- A status that was known before is the same after. -/
theorem System.Ended.reaped {b : BackendState} {status : Option WaitStatus} (he : s.Ended)
    (hold : s.backend.status = none ∨ s.backend.status = some status)
    (hb : b.status = some status) : System.Ended { s with backend := b } := by
  obtain ⟨hhelper, hzero, hcontent⟩ := he
  refine ⟨hhelper, ?_, hcontent⟩
  rcases hold with hnone | hsome
  · rw [hnone] at hzero
    cases hzero
  · exact hb.trans (hsome.symm.trans hzero)

/-- The status comes to `chdb_helper_recv`, which reports the end of the stream when it is 0,
    or to `chdb_helper_finish`, which has been told before. -/
theorem Copies.afterReap {a : After} {status : Option WaitStatus} (hc : Copies job s)
    (hat : s.backend.pc = .waitpid a) (hst : ∀ st, status = some st → s.helper.pc = .ended st)
    (hold : s.backend.status = none ∨ s.backend.status = some status) :
    Copies job { s with backend := s.backend.afterReap status a } := by
  have hpc := hc.pc
  rw [hat] at hpc
  have hsome : ∀ st, some status = some (some st) → s.helper.pc = .ended st :=
    fun st h => hst st (Option.some.inj h)
  rcases s.backend.afterReap_cases status a with ⟨rfl, hzero, hreap⟩ | ⟨rfl, -, hreap⟩ | hreap
  · -- nothing was left in the channel when its end was read
    rw [hreap]
    refine ⟨⟨hc.ends.setup, hc.ends.err, hc.ends.data⟩, hc.helper, ?_, hsome, ?_, trivial⟩
    · show (s.backend.received ++ [[]]).flatten = s.data.taken
      rw [List.flatten_append, List.flatten_singleton, List.append_nil]
      exact hc.taken
    · exact fun _ => ⟨hst _ hzero, congrArg some hzero, hpc.1⟩
  · rw [hreap]
    exact ⟨⟨hc.ends.setup, hc.ends.err, hc.ends.data⟩, hc.helper, hc.taken, hsome,
      fun hnil => (hc.ended hnil).reaped hold rfl, hpc⟩
  · rw [hreap]
    exact ⟨⟨hc.ends.setup, hc.ends.err, hc.ends.data⟩, hc.helper, hc.taken, hsome,
      fun hnil => (hc.ended hnil).reaped hold rfl, trivial⟩

/-- What `chdb_helper_recv` reads is handed on. -/
theorem Copies.recvGot {n : ℕ} (hc : Copies job s) (pos : 0 < n)
    (le : n ≤ s.data.content.length) (hends : HelperEnds job.cmd s')
    (hhelper : s'.helper = s.helper)
    (hdata : s'.data = s.data.get n) (hbackend : s'.backend = { s.backend with
      pc := .calling, received := s.backend.received ++ [s.data.content.take n] }) :
    Copies job s' where
  ends := hends
  helper := by
    rw [hhelper, hdata, Pipe.get_sent]
    exact hc.helper
  taken := by
    rw [hbackend, hdata, Pipe.get_taken, ← hc.taken]
    simp
  status := by
    rw [hbackend, hhelper]
    exact hc.status
  ended := by
    rw [hbackend]
    intro hnil
    -- the piece is not empty, and after the end of the stream there is none
    rcases List.mem_append.mp hnil with hold | hnew
    · rw [(hc.ended hold).2.2, List.length_nil] at le
      omega
    · have hlen := congrArg List.length (List.mem_singleton.mp hnew)
      rw [List.length_take, List.length_nil] at hlen
      omega
  pc := by
    rw [hbackend]
    trivial

/-- What the code relies on in the vendored reader: it asks for something, and is finished
    only once it has been told the end of the stream. -/
structure ReaderFaithful (job : CopyJob) : Prop where
  asks : ∀ hist len, job.reader hist = .recv len → 0 < len
  finishes : ∀ hist, job.reader hist = .finished → [] ∈ hist

theorem Copies.backendStep (hc : Copies job s) (h : BackendStep job s k s')
    (hcmd : job.cmd ≠ .insert) (hreader : ReaderFaithful job) : Copies job s' := by
  have hends : HelperEnds job.cmd s' := hc.ends.step (.backend h)
  have hpc := hc.pc
  have hclose := Quiet.closeData job.cmd s
  cases h with
  | sendRaises hat hins | writeCall hat hins | sendFinished hat hins => exact absurd hins hcmd
  | dataWrite hat =>
    rw [hat] at hpc
    exact hpc.elim
  | eintr hat => exact hc
  | drainGot hat => exact hc.quiet ⟨rfl, rfl, rfl, rfl, rfl⟩ hends hpc
  | again hat | drainEnd hat | drained hat | drainedAll hat | wake hat | errEnded hat =>
    -- what the backend knew it still knows
    rw [hat] at hpc
    exact hc.quiet ⟨rfl, rfl, rfl, rfl, rfl⟩ hends hpc
  | recvCall hat _ hr => exact hc.quiet ⟨rfl, rfl, rfl, rfl, rfl⟩ hends (hreader.asks _ _ hr)
  | readerFinished hat _ hr =>
    exact hc.quiet ⟨rfl, rfl, rfl, hclose.taken, hclose.content⟩ hends (hreader.finishes _ hr)
  | recvGot hat pos le le' ropen => exact hc.recvGot pos le' hends rfl rfl rfl
  | recvEnd hat ropen eof =>
    -- the channel is empty, and its writer has gone with the helper
    rw [hat] at hpc
    obtain ⟨hcontent, hwrite⟩ := eof.resolve_left (Nat.ne_of_gt hpc)
    refine hc.quiet ⟨rfl, rfl, rfl, hclose.taken, hclose.content⟩ hends ⟨?_, ?_⟩
    · exact hclose.content.trans hcontent
    · have hdata := hc.ends.data
      unfold System.helperData at hdata
      rw [if_neg hcmd] at hdata
      exact hdata.symm.trans hwrite
  | reap hat hn hst =>
    refine hc.afterReap hat ?_ (Or.inl hn)
    rintro _ ⟨⟩
    exact hst
  | reapFails hat hn => exact hc.afterReap hat nofun (Or.inl hn)
  | reapAgain hat hs =>
    refine hc.afterReap hat ?_ (Or.inr hs)
    rintro st rfl
    exact hc.status st hs
  | stopData hat =>
    exact hc.quiet ⟨rfl, rfl, rfl, hclose.taken, hclose.content⟩ hends trivial
  | stopReap hat hst =>
    refine ⟨hends, hc.helper, hc.taken, ?_, ?_, trivial⟩
    · rintro _ ⟨⟩
      exact hst
    · intro hnil
      obtain ⟨hhelper, -, hcontent⟩ := hc.ended hnil
      refine ⟨hhelper, ?_, hcontent⟩
      rw [hst] at hhelper
      cases hhelper
      rfl
  | setupWrite hat | setupWritten hat | setupPipe hat | setupFails hat | readerRaises hat
  | recvClosed hat | recvFails hat | dataWritten hat | dataPipe hat | dataFails hat | raises hat
  | interrupt hat | stopErr hat | stopSetup hat | stopReaped hat | stopKill hat =>
    -- there the backend relies on nothing it has read
    exact hc.quiet ⟨rfl, rfl, rfl, rfl, rfl⟩ hends trivial

/-! ### Success -/

/-- **A copy that succeeds has had the whole result.**  Whatever the channels and the two
    processes do, `chdb_copy` returns from a SELECT only when the helper has ended with status
    0 after the end of the stream, and what `chdb_helper_recv` has returned is all of it. -/
theorem copyFrom_complete (job : CopyJob) (hcmd : job.cmd ≠ .insert)
    (hreader : ReaderFaithful job) (hcrash : ¬ job.crashes (.exited 0))
    (setupCap errCap dataCap : ℕ+) (payload : Bytes) (todo : Option (List Bytes)) {s : System}
    (hrun : Run (Step job) (fun _ _ _ => True)
      (.start setupCap errCap dataCap payload todo) s)
    (hreturn : s.backend.pc = .returned) :
    s.backend.status = some (some (.exited 0)) ∧ s.helper.pc = .ended (.exited 0) ∧
      ∃ chunks, s.helper.fetched = chunks ++ [[]] ∧
        s.backend.received.flatten = chunks.flatten := by
  have hc : Copies job s := by
    refine hrun.invariant (.start job setupCap errCap dataCap payload todo) ?_
    intro k a b ha hstep _
    cases hstep with
    | helper h => exact ha.helperStep h hcmd hcrash
    | backend h => exact ha.backendStep h hcmd hreader
  have hnil : [] ∈ s.backend.received := by
    have hpc := hc.pc
    rwa [hreturn] at hpc
  obtain ⟨hhelper, hstatus, hcontent⟩ := hc.ended hnil
  have hcomplete : s.helper.Complete s.data.sent := by
    have hstreams := hc.helper
    unfold HelperState.Streams at hstreams
    rw [hhelper] at hstreams
    exact hstreams rfl
  obtain ⟨hsent, chunks, hchunks⟩ := hcomplete
  refine ⟨hstatus, hhelper, chunks, hchunks, ?_⟩
  calc s.backend.received.flatten = s.data.taken := hc.taken
    _ = s.data.sent := Pipe.taken_eq_sent hcontent
    _ = s.helper.fetched.flatten := hsent
    _ = chunks.flatten := by
      rw [hchunks, List.flatten_append, List.flatten_singleton, List.append_nil]

/-- A reader that takes four bytes at a time, and a helper that can be killed. -/
def fourBytes : CopyJob where
  cmd := .select
  reader hist := if [] ∈ hist then .finished else .recv 4
  crashes st := st ≠ .exited 0

theorem fourBytes_faithful : ReaderFaithful fourBytes where
  asks := by
    intro hist len h
    unfold fourBytes at h
    dsimp only at h
    split at h
    · cases h
    · cases h
      decide
  finishes := by
    intro hist h
    unfold fourBytes at h
    dsimp only at h
    split at h
    · assumption
    · cases h

/-- Over channels of one byte, a result of one chunk of one byte. -/
theorem copyFrom_complete_oneByte :
    ∃ s, Run (Step fourBytes) (fun _ _ _ => True) (.start 1 1 1 (lit "S") none) s ∧
      s.backend.pc = .returned ∧ s.backend.received = [lit "7", []] ∧
      s.backend.status = some (some (.exited 0)) ∧ s.helper.pc = .ended (.exited 0) ∧
      ∃ chunks, s.helper.fetched = chunks ++ [[]] ∧
        s.backend.received.flatten = chunks.flatten := by
  have h₀ : Run (Step fourBytes) (fun _ _ _ => True) (.start 1 1 1 (lit "S") none) _ := .start
  -- the setup payload crosses
  have h₁ := h₀.next (.backend (.setupWrite (k := lit "S") rfl nofun rfl (by decide))) trivial
  have h₂ := h₁.next (.helper (.readSetup (n := 1) ⟨rfl, rfl⟩ rfl (by decide) (by decide))) trivial
  have h₃ := h₂.next (.backend (.setupWritten rfl)) trivial
  have h₄ := h₃.next (.backend (.recvCall rfl nofun rfl)) trivial
  -- the helper writes its only chunk
  have h₅ := h₄.next (.helper (.setupEnd ⟨rfl, rfl⟩ rfl ⟨rfl, rfl⟩
    (.select nofun (.chunk (c := lit "7") nofun)))) trivial
  have h₆ := h₅.next (.helper (.write (k := lit "7") ⟨rfl, rfl⟩ rfl nofun rfl (by decide)
    (.next .last))) trivial
  have h₇ := h₆.next (.backend (.recvGot (n := 1) rfl (by decide) (by decide) (by decide) rfl))
    trivial
  -- and exits, which the backend waits for
  have h₈ := h₇.next (.backend (.recvCall rfl nofun rfl)) trivial
  have h₉ := h₈.next (.helper (.exit ⟨rfl, rfl⟩ rfl)) trivial
  have h₁₀ := h₉.next (.backend (.recvEnd rfl rfl (Or.inr ⟨rfl, rfl⟩))) trivial
  have h₁₁ := h₁₀.next (.backend (.again rfl rfl)) trivial
  have h₁₂ := h₁₁.next (.backend (.drainEnd rfl rfl ⟨rfl, rfl⟩)) trivial
  have h₁₃ := h₁₂.next (.backend (.drainedAll rfl rfl)) trivial
  have h₁₄ := h₁₃.next (.backend (.errEnded rfl rfl)) trivial
  have h₁₅ := h₁₄.next (.backend (.reap rfl rfl rfl)) trivial
  have h₁₆ := h₁₅.next (.backend (.readerFinished rfl nofun rfl)) trivial
  have h₁₇ := h₁₆.next (.backend (.errEnded rfl rfl)) trivial
  have h₁₈ := h₁₇.next (.backend (.reapAgain rfl rfl)) trivial
  exact ⟨_, h₁₈, rfl, rfl,
    copyFrom_complete fourBytes nofun fourBytes_faithful (by simp [fourBytes])
    1 1 1 (lit "S") none h₁₈ rfl⟩

end PgChdb
