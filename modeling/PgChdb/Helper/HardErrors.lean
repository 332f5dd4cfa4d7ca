import PgChdb.Helper.Progress
import Mathlib.Data.Prod.Lex

namespace PgChdb

open CText Channels

/-!
# Waiting for the helper after an error

`report_helper` and `drain_and_reap` wait, without a limit, for the error channel to end.  The
helper has to come to its exit meanwhile, so it must not itself be waiting for the backend.

* `BackendPc.Reaping` — the backend is in that wait;
* `rank` — what is ahead of the helper and the backend: every step that gets anything done
  takes some of it away, as long as the helper finds its channels closed;
* `Live.wait_ends` — the wait can end, from wherever it has started;
* `hardErrors_waitEnds` — so it does in every run in which no call on an open data channel
  fails hard before the helper has gone;
* `hardError_waits` — such a call leaves the two waiting for each other.
-/

variable {job : CopyJob} {k : Kind} {s s' : System} {a : After}

/-- The backend is in `drain_and_reap`. -/
inductive BackendPc.Reaping (a : After) : BackendPc → Prop
  | head : Reaping a (.head (.reap a))
  | drain : Reaping a (.drain (.reap a))
  | wait : Reaping a (.wait (.reap a))
  | waitpid : Reaping a (.waitpid a)

/-- The helper has ended, and the backend is out of its wait. -/
def WaitEnded (s : System) : Prop :=
  s.helper.alive = false ∧ ∀ a, ¬ s.backend.pc.Reaping a

/-- It relies on the helper's not waiting for it. -/
theorem Live.reaping (hlive : Live job s) (hr : s.backend.pc.Reaping a) :
    (Task.reap a).Agrees job s := by
  have hagree := hlive.backend
  generalize s.backend.pc = pc at hr hagree
  cases hr with
  | head => exact hagree
  | drain => exact hagree
  | wait => exact hagree
  | waitpid => exact hagree.2

/-- A helper that is still there finds both its channels closed. -/
theorem Live.closed (hlive : Live job s) (hr : s.backend.pc.Reaping a)
    (halive : s.helper.alive = true) :
    s.setup.writeOpen = false ∧ s.backendData job.cmd = false := by
  refine (hlive.reaping hr).resolve_right ?_
  rintro ⟨-, hgone⟩
  rw [halive] at hgone
  cases hgone

/-! ### What is ahead -/

def HelperPc.phase : HelperPc → ℕ
  | .setup => 3
  | .writing _ => 2
  | .reading => 2
  | .exits _ => 1
  | .ended _ => 0

def BackendPc.ahead : BackendPc → ℕ
  | .wait _ => 3
  | .drain _ => 2
  | .head _ => 1
  | _ => 0

/-- In order: the helper's way to its exit, its input, what it has to say and what of that has to
    be read; and, once the error channel is closed, the backend's way out of its loop. -/
def rank (s : System) : ℕ ×ₗ ℕ ×ₗ ℕ :=
  toLex (s.helper.pc.phase, toLex (s.setup.content.length + s.data.content.length,
    2 * s.helper.saying.length + s.err.content.length +
      if s.err.readOpen then 4 else s.backend.pc.ahead))

theorem rank_lt_of_phase (h : s'.helper.pc.phase < s.helper.pc.phase) : rank s' < rank s :=
  Prod.Lex.toLex_lt_toLex.mpr (Or.inl h)

theorem rank_lt_of_input (hpc : s'.helper.pc = s.helper.pc)
    (h : s'.setup.content.length + s'.data.content.length
      < s.setup.content.length + s.data.content.length) : rank s' < rank s :=
  Prod.Lex.toLex_lt_toLex.mpr (Or.inr ⟨congrArg HelperPc.phase hpc,
    Prod.Lex.toLex_lt_toLex.mpr (Or.inl h)⟩)

theorem rank_lt_of_rest (hpc : s'.helper.pc = s.helper.pc) (hsetup : s'.setup = s.setup)
    (hdata : s'.data = s.data)
    (h : 2 * s'.helper.saying.length + s'.err.content.length +
        (if s'.err.readOpen then 4 else s'.backend.pc.ahead)
      < 2 * s.helper.saying.length + s.err.content.length +
        if s.err.readOpen then 4 else s.backend.pc.ahead) : rank s' < rank s := by
  refine Prod.Lex.toLex_lt_toLex.mpr (Or.inr ⟨congrArg HelperPc.phase hpc,
    Prod.Lex.toLex_lt_toLex.mpr (Or.inr ⟨?_, h⟩)⟩)
  rw [hsetup, hdata]

theorem phase_pos {h : HelperState} (halive : h.alive = true) : 0 < h.pc.phase := by
  unfold HelperState.alive at halive
  generalize h.pc = pc at halive ⊢
  cases pc with
  | ended st => cases halive
  | setup => exact Nat.succ_pos 2
  | writing rest => exact Nat.succ_pos 1
  | reading => exact Nat.succ_pos 1
  | exits code => exact Nat.one_pos

/-! ### The helper's steps -/

section
variable {h h' : HelperState} {got : Bytes}

theorem Fetches.phase_le (hf : Fetches h h') : h'.pc.phase ≤ 2 := by
  cases hf with
  | chunk hc => exact Nat.le_refl 2
  | last => exact Nat.le_succ 1
  | error text => exact Nat.le_succ 1

theorem Starts.phase_le (hs : Starts job.cmd h h') : h'.pc.phase ≤ 2 := by
  cases hs with
  | fails text => exact Nat.le_succ 1
  | select hcmd hf => exact hf.phase_le
  | insert hcmd => exact Nat.le_refl 2

theorem Done.phase (hd : Done h h') : h'.pc.phase = 1 := by
  cases hd <;> rfl

end

/-- Whatever a helper does whose channels are closed takes it nearer to its exit. -/
theorem HelperStep.rank_lt (h : HelperStep job s .work s') (hlive : Live job s)
    (hclosed : s.backendData job.cmd = false) : rank s' < rank s := by
  have hdie : ∀ st, rank (s.die job.cmd st) < rank s := fun st =>
    rank_lt_of_phase (phase_pos h.alive_of)
  cases h with
  | readSetup hat live pos le =>
    refine rank_lt_of_input rfl ?_
    show (s.setup.content.drop _).length + s.data.content.length < _
    rw [List.length_drop]
    omega
  | setupEnd hat live eof hs =>
    apply rank_lt_of_phase
    have hle := hs.phase_le
    rw [hat.1]
    exact Nat.lt_succ_of_le hle
  | write hat live pos ropen room hw =>
    -- the backend's end is the reading one
    have hagree := hlive.helper
    unfold HelperState.Agrees at hagree
    rw [hat.1] at hagree
    unfold System.backendData at hclosed
    rw [if_neg hagree.1.1, ropen] at hclosed
    cases hclosed
  | read hat live pos le ha =>
    cases ha with
    | ok =>
      refine rank_lt_of_input rfl ?_
      show s.setup.content.length + (s.data.content.drop _).length < _
      rw [List.length_drop]
      omega
    | error text =>
      apply rank_lt_of_phase
      rw [hat.1]
      exact Nat.one_lt_two
  | readEnd hat live eof hd =>
    apply rank_lt_of_phase
    rw [hat.1]
    show HelperPc.phase _ < 2
    rw [hd.phase]
    exact Nat.one_lt_two
  | @say k rest halive hsay live pos ropen room =>
    -- said, a byte is still to be read
    have hpos := List.length_pos_iff.mpr pos
    refine rank_lt_of_rest rfl rfl rfl ?_
    show 2 * rest.length + (s.err.content ++ k).length +
      (if s.err.readOpen then 4 else s.backend.pc.ahead) < _
    rw [hsay, List.length_append, List.length_append]
    omega
  | writePipe hat live closed => exact hdie _
  | sayPipe halive hsay live closed => exact hdie _
  | exit hat live => exact hdie _
  | killed halive hkill => exact hdie _

/-! ### The backend's -/

/-- As long as the error channel is open, the turns of the loop do not count. -/
theorem rank_goto_open (hopen : s.err.readOpen = true) (pc : BackendPc) :
    rank (s.goto pc) = rank s := by
  unfold rank
  show toLex (_, toLex (_, _ + if s.err.readOpen then 4 else pc.ahead)) = _
  rw [if_pos hopen, if_pos hopen]
  rfl

theorem rank_goto_closed (hclosed : s.err.readOpen = false) {pc : BackendPc}
    (h : pc.ahead < s.backend.pc.ahead) : rank (s.goto pc) < rank s := by
  refine rank_lt_of_rest rfl rfl rfl ?_
  show 2 * s.helper.saying.length + s.err.content.length +
    (if s.err.readOpen then 4 else pc.ahead) < _
  rw [hclosed]
  exact Nat.add_lt_add_left h _

/-- With the status the backend leaves its wait. -/
theorem afterReap_left (b : BackendState) (status : Option WaitStatus) (a : After) :
    ∀ a', ¬ (b.afterReap status a).pc.Reaping a' := by
  intro a' hr
  rcases b.afterReap_cases status a with ⟨-, -, h⟩ | ⟨-, -, h⟩ | h
  all_goals
    rw [h] at hr
    cases hr

/-- In its wait the backend takes what there is on the error channel, or leaves with the status
    of a helper that has ended. -/
theorem BackendStep.reaping (h : BackendStep job s k s') (hlive : Live job s)
    (hr : s.backend.pc.Reaping a) (hk : k = .work ∨ k = .idle) :
    (k = .work ∧ WaitEnded s') ∨
      s'.backend.pc.Reaping a ∧ rank s' ≤ rank s ∧ (k = .work → rank s' < rank s) := by
  have hframe := h.frame
  have hgone : ∀ {a'}, s.backend.pc = .waitpid a' → s'.helper.alive = false := by
    intro a' hat
    rw [hframe.helper]
    exact waitpid_gone hlive hat
  cases h with
  | again hat hl =>
    rw [hat] at hr
    cases hr
    exact Or.inr ⟨.drain, (rank_goto_open hl _).le, nofun⟩
  | eintr hat hl => exact Or.inr ⟨hr, le_refl _, nofun⟩
  | @drainGot t n hat pos le ropen =>
    have hlt : rank { s with err := s.err.get n } < rank s := by
      refine rank_lt_of_rest rfl rfl rfl ?_
      show 2 * s.helper.saying.length + (s.err.content.drop n).length +
        (if s.err.readOpen then 4 else s.backend.pc.ahead) < _
      rw [List.length_drop]
      omega
    exact Or.inr ⟨hr, hlt.le, fun _ => hlt⟩
  | drainEnd hat ropen eof =>
    rw [hat] at hr
    cases hr
    have hlt : rank ({ s with err := s.err.closeRead }.goto (.drain (.reap a))) < rank s := by
      refine rank_lt_of_rest rfl rfl rfl ?_
      rw [if_pos ropen]
      show 2 * s.helper.saying.length + s.err.content.length + 2 < _
      omega
    exact Or.inr ⟨.drain, hlt.le, fun _ => hlt⟩
  | drained hat hw =>
    rw [hat] at hr
    cases hr
    exact Or.inr ⟨.wait, (rank_goto_open hw _).le, nofun⟩
  | drainedAll hat closed =>
    rw [hat] at hr
    cases hr
    have hlt : rank (s.goto (.head (.reap a))) < rank s := by
      refine rank_goto_closed closed ?_
      rw [hat]
      exact Nat.one_lt_two
    exact Or.inr ⟨.head, hlt.le, fun _ => hlt⟩
  | wake hat =>
    rw [hat] at hr
    cases hr
    have hle : rank (s.goto (.head (.reap a))) ≤ rank s := by
      cases hopen : s.err.readOpen with
      | true => exact (rank_goto_open hopen _).le
      | false =>
        refine (rank_goto_closed hopen ?_).le
        rw [hat]
        show 1 < 3
        omega
    exact Or.inr ⟨.head, hle, nofun⟩
  | errEnded hat closed =>
    rw [hat] at hr
    cases hr
    have hlt : rank (s.goto (.waitpid a)) < rank s := by
      refine rank_goto_closed closed ?_
      rw [hat]
      exact Nat.one_pos
    exact Or.inr ⟨.waitpid, hlt.le, fun _ => hlt⟩
  | reap hat hn hst => exact Or.inl ⟨rfl, hgone hat, afterReap_left _ _ _⟩
  | reapAgain hat hs => exact Or.inl ⟨rfl, hgone hat, afterReap_left _ _ _⟩
  | interrupt hat hl | raises hat | reapFails hat hn => rcases hk with hk | hk <;> cases hk
  | setupWrite hat | setupWritten hat | setupPipe hat | setupFails hat | recvCall hat
  | readerRaises hat | readerFinished hat | recvGot hat | recvEnd hat | recvClosed hat
  | recvFails hat | sendRaises hat | writeCall hat | sendFinished hat | dataWrite hat
  | dataWritten hat | dataPipe hat | dataFails hat | stopData hat | stopErr hat | stopSetup hat
  | stopReaped hat | stopKill hat | stopReap hat =>
    -- these start elsewhere
    rw [hat] at hr
    cases hr

/-! ### The wait can end -/

/-- From wherever the backend waits, the two come to the end of the wait, by steps none of which
    is a failure, an interrupt, or more to say. -/
theorem Live.wait_ends (hlive : Live job s) (hr : s.backend.pc.Reaping a) :
    ∃ t, Run (Step job) (fun k _ _ => k = .work ∨ k = .idle) s t ∧ WaitEnded t := by
  have hsoft : ∀ {k b c}, k = .work ∨ k = .idle → ¬ FailsOpen job k b c := by
    rintro k b c (rfl | rfl) ⟨hhard, -⟩ <;> cases hhard
  refine Run.reaches rank (I := fun s => Live job s ∧ s.backend.pc.Reaping a) ?_ ⟨hlive, hr⟩
  rintro s ⟨hlive, hr⟩
  have hgoing : s.backend.pc ≠ .returned ∧ s.backend.pc ≠ .raised := by
    constructor
    all_goals
      intro hat
      rw [hat] at hr
      cases hr
  obtain ⟨t, hidle, u, hwork⟩ := hlive.canWork hgoing.1 hgoing.2
  -- the turns that get nothing done leave it where it is
  obtain ⟨hlive', hr', hle⟩ : Live job t ∧ t.backend.pc.Reaping a ∧ rank t ≤ rank s := by
    refine hidle.invariant (I := fun t => Live job t ∧ t.backend.pc.Reaping a ∧ rank t ≤ rank s)
      ⟨hlive, hr, le_refl _⟩ ?_
    rintro k b c ⟨hb, hrb, hle⟩ hstep rfl
    have hc := hb.step hstep (hsoft (Or.inr rfl))
    cases hstep with
    | helper h => cases h
    | backend h =>
      rcases h.reaping hb hrb (Or.inr rfl) with ⟨hk, -⟩ | ⟨hrc, hle', -⟩
      · cases hk
      · exact ⟨hc, hrc, hle'.trans hle⟩
  have hrun : Run (Step job) (fun k _ _ => k = .work ∨ k = .idle) s u :=
    (hidle.mono fun _ _ _ hk => Or.inr hk).next hwork (Or.inl rfl)
  refine Or.inr ⟨u, hrun, ?_⟩
  have hu := hlive'.step hwork (hsoft (Or.inl rfl))
  cases hwork with
  | helper h =>
    have hlt := h.rank_lt hlive' (hlive'.closed hr' h.alive_of).2
    refine Or.inr ⟨⟨hu, ?_⟩, hlt.trans_le hle⟩
    rw [h.frame.backend]
    exact hr'
  | backend h =>
    rcases h.reaping hlive' hr' (Or.inl rfl) with hleft | ⟨hru, -, hlt⟩
    · exact Or.inl hleft.2
    · exact Or.inr ⟨⟨hu, hru⟩, (hlt rfl).trans_le hle⟩

/-- A wait that has started finds the channels the helper may be blocked on closed, if the helper
    is still there, and can end. -/
def WaitsWell (job : CopyJob) (s : System) : Prop :=
  ∀ a, s.backend.pc.Reaping a →
    (s.helper.alive = true → s.setup.writeOpen = false ∧ s.backendData job.cmd = false) ∧
    ∃ t, Run (Step job) (fun k _ _ => k = .work ∨ k = .idle) s t ∧ WaitEnded t

theorem Live.waitsWell (hlive : Live job s) : WaitsWell job s :=
  fun _ hr => ⟨hlive.closed hr, hlive.wait_ends hr⟩

/-- **The backend never waits for a helper that waits for it**, in every run in which no call on
    the open data channel fails hard before the helper has gone, whatever else fails, in
    whichever state; after the first such failure it does. -/
theorem hardErrors_waitEnds (job : CopyJob) (setupCap errCap dataCap : ℕ+) (payload : Bytes)
    (todo : Option (List Bytes)) {s : System}
    (hrun : Run (Step job) (fun k a b => ¬ FailsOpen job k a b)
      (.start setupCap errCap dataCap payload todo) s) :
    WaitsWell job s ∧ ∀ k s', FailsOpen job k s s' → ¬ WaitsWell job s' := by
  have hlive : Live job s :=
    Live.run (fun _ _ _ h => h) (.start job setupCap errCap dataCap payload todo) hrun
  refine ⟨hlive.waitsWell, ?_⟩
  rintro k s' ⟨rfl, h, ⟨t, hdata, hat⟩, halive, hopen⟩ hwell
  -- the report goes straight into its wait
  obtain ⟨hpc, hsame⟩ : s'.backend.pc = .head (.reap .report) ∧
      s'.backendData job.cmd = s.backendData job.cmd := by
    cases h with
    | recvFails hat' => exact ⟨rfl, rfl⟩
    | dataFails hat' pos => exact ⟨rfl, rfl⟩
    | setupFails hat' pos =>
      rw [hat'] at hat
      cases hat
      cases hdata
    | reapFails hat' hn =>
      rw [hat'] at hat
      cases hat
  obtain ⟨-, hclosed⟩ := (hwell .report (hpc ▸ .head)).1 (by rw [h.frame.helper]; exact halive)
  rw [hsame, hopen] at hclosed
  cases hclosed

/-- A read fails after the helper has been killed from outside: the wait is short. -/
theorem hardErrors_waitEnds_crashed :
    ∃ s, s.backend.pc = .head (.reap .report) ∧ s.helper.alive = false ∧ WaitsWell endlessRecv s := by
  have h₁ : Run (Step endlessRecv) (fun k a b => ¬ FailsOpen endlessRecv k a b)
    (.start 1 1 1 (lit "S") none) _ := .start
  have hsoft : ∀ {k a b}, k ≠ .hard → ¬ FailsOpen endlessRecv k a b := fun hk hf => hk hf.1
  have h₂ := h₁.next (.backend (.setupWrite (k := lit "S") rfl nofun rfl
    (Nat.le_of_ble_eq_true rfl)))
    (hsoft nofun)
  have h₃ := h₂.next (.backend (.setupWritten rfl)) (hsoft nofun)
  have h₄ := h₃.next (.backend (.recvCall rfl nofun rfl)) (hsoft nofun)
  have hcrash : endlessRecv.crashes (.signaled sigkill) := trivial
  have h₅ := h₄.next (.helper (.crash rfl hcrash)) (hsoft nofun)
  have h₆ := h₅.next (.backend (.recvFails rfl)) fun hf => nomatch hf.2.2.2.1
  exact ⟨_, rfl, rfl, (hardErrors_waitEnds endlessRecv 1 1 1 (lit "S") none h₆).1⟩

/-! ### Where it cannot -/

/-- The helper is blocked on the data channel and silent, and the backend waits for it to speak. -/
structure Stuck (a : After) (s : System) : Prop where
  helper : ∃ rest, s.helper.At (.writing rest)
  full : s.data.cap < s.data.content.length + 1
  ropen : s.data.readOpen = true
  err : s.err.content = [] ∧ s.err.readOpen = true ∧ s.err.writeOpen = true
  waits : s.backend.pc.Reaping a ∧ s.backend.pc ≠ .waitpid a
  spared : s.killed = false

theorem Stuck.not_helper (hs : Stuck a s) (h : HelperStep job s .work s') : False := by
  obtain ⟨rest, hpc, hsay⟩ := hs.helper
  cases h with
  | write hat live pos ropen room hw =>
    have hpos := List.length_pos_iff.mpr pos
    have hfull := hs.full
    omega
  | writePipe hat live closed => exact Bool.false_ne_true (closed.symm.trans hs.ropen)
  | say halive hsay' live pos ropen room =>
    rw [hsay] at hsay'
    exact pos (List.append_eq_nil_iff.mp hsay'.symm).1
  | sayPipe halive hsay' live closed => exact hsay' hsay
  | killed halive hkill => exact Bool.false_ne_true (hs.spared.symm.trans hkill)
  | readSetup hat | setupEnd hat | read hat | readEnd hat | exit hat => cases hpc.symm.trans hat.1

/-- Neither has anything to do but to wake up and wait again. -/
theorem Stuck.step (hs : Stuck a s) (h : Step job k s s') (hk : k = .work ∨ k = .idle) :
    Stuck a s' := by
  have hidle : ∀ {pc}, BackendPc.Reaping a pc → pc ≠ .waitpid a → Stuck a (s.goto pc) :=
    fun hr hne => ⟨hs.helper, hs.full, hs.ropen, hs.err, ⟨hr, hne⟩, hs.spared⟩
  obtain ⟨hnil, hropen, hwopen⟩ := hs.err
  obtain ⟨hr, hne⟩ := hs.waits
  cases h with
  | helper h =>
    rcases hk with rfl | rfl
    · exact (hs.not_helper h).elim
    · cases h
  | backend h =>
    cases h with
    | again hat hl =>
      rw [hat] at hr
      cases hr
      exact hidle .drain nofun
    | eintr hat hl => exact hs
    | drained hat hw =>
      rw [hat] at hr
      cases hr
      exact hidle .wait nofun
    | wake hat =>
      rw [hat] at hr
      cases hr
      exact hidle .head nofun
    | drainGot hat pos le ropen =>
      rw [hnil, List.length_nil] at le
      omega
    | drainEnd hat ropen eof => exact (Bool.false_ne_true (eof.2.symm.trans hwopen)).elim
    | drainedAll hat closed | errEnded hat closed =>
      exact (Bool.false_ne_true (closed.symm.trans hropen)).elim
    | reap hat | reapAgain hat =>
      rw [hat] at hr hne
      cases hr
      exact absurd rfl hne
    | interrupt hat hl | raises hat | reapFails hat hn => rcases hk with hk | hk <;> cases hk
    | setupWrite hat | setupWritten hat | setupPipe hat | setupFails hat | recvCall hat
    | readerRaises hat | readerFinished hat | recvGot hat | recvEnd hat | recvClosed hat
    | recvFails hat | sendRaises hat | writeCall hat | sendFinished hat | dataWrite hat
    | dataWritten hat | dataPipe hat | dataFails hat | stopData hat | stopErr hat | stopSetup hat
    | stopReaped hat | stopKill hat | stopReap hat =>
      rw [hat] at hr
      cases hr

/-- **After a failed read the two wait for each other.**  The helper has filled the data channel,
    which `chdb_helper_recv` leaves open when its `read` fails, and `report_helper` waits for the
    end of the error channel. -/
theorem hardError_waits :
    ∃ s, Run (Step endlessRecv) (fun _ _ _ => True) (.start 1 1 1 (lit "S") none) s ∧
      s.backend.pc = .head (.reap .report) ∧ s.helper.alive = true ∧
      s.backendData endlessRecv.cmd = true ∧
      ¬ ∃ t, Run (Step endlessRecv) (fun k _ _ => k = .work ∨ k = .idle) s t ∧ WaitEnded t := by
  have h₁ : Run (Step endlessRecv) (fun _ _ _ => True) (.start 1 1 1 (lit "S") none) _ := .start
  have h₂ := h₁.next (.backend (.setupWrite (k := lit "S") rfl nofun rfl
    (Nat.le_of_ble_eq_true rfl))) trivial
  have h₃ := h₂.next (.helper (.readSetup (n := 1) ⟨rfl, rfl⟩ rfl (by decide) (Nat.le_refl 1)))
    trivial
  have h₄ := h₃.next (.backend (.setupWritten rfl)) trivial
  have h₅ := h₄.next (.helper (.setupEnd ⟨rfl, rfl⟩ rfl ⟨rfl, rfl⟩
    (.select nofun (.chunk (c := lit "ab") nofun)))) trivial
  have h₆ := h₅.next (.helper (.write (k := lit "a") ⟨rfl, rfl⟩ rfl nofun rfl
    (Nat.le_of_ble_eq_true rfl) (WritesOn.more (show lit "b" ≠ [] from nofun)))) trivial
  have h₇ := h₆.next (.backend (.recvCall rfl nofun rfl)) trivial
  have h₈ := h₇.next (.backend (.recvFails rfl)) trivial
  refine ⟨_, h₈, rfl, rfl, rfl, ?_⟩
  rintro ⟨t, hrun, hgone, -⟩
  have hstuck : Stuck .report t := by
    refine hrun.invariant ?_ fun k b c hb hstep hk => hb.step hstep hk
    exact ⟨⟨lit "b", rfl, rfl⟩, Nat.lt_succ_self 1, rfl, ⟨rfl, rfl, rfl⟩, ⟨.head, nofun⟩, rfl⟩
  obtain ⟨rest, hat⟩ := hstuck.helper
  rw [hat.alive nofun] at hgone
  cases hgone

end PgChdb
