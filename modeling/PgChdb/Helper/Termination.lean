import PgChdb.Helper.HardErrors
import PgChdb.Helper.Whole
import PgChdb.Lib.Fairness
import Mathlib.Data.Finset.Lattice.Fold
import Mathlib.Data.Finset.Range

namespace PgChdb

open CText Channels Fairness Filter

/-!
# A copy comes to its end

The loops of `helper.c` have no limit of their own: `write_all`, `chdb_helper_recv` and
`drain_and_reap` go round until the helper lets them go on.  Turns that get nothing done apart,
a run has only so many steps as there is something to move, and if none of the two processes is
passed over for ever the backend returns or raises an error.

* `System.gained` — what a step adds to: what has crossed each channel, and how far the two
  processes have come; `Step.gain` — every step but a wake-up and a message adds to it;
* `work_bounded` — how many such steps a run has, whatever else happens in it;
* `Fair` — nothing that can be done for ever is left undone for ever;
* `fair_ends` — the end of a fair run, in which the helper writes only so much.
-/

variable {job : CopyJob} {k : Kind} {s s' : System}

/-! ### How far the two have come -/

/-- The reading side's last calls come after it has closed its end. -/
def Task.far (s : System) : Task → ℕ
  | .setup _ => 0
  | .write _ => 1
  | .recv _ => if s.data.readOpen then 3 else 8
  | .reap .recv => 4
  | .reap _ => 9

/-- `drain_and_reap` has only to leave its loop. -/
def Task.late (s : System) : Task → ℕ
  | .reap _ => (!s.err.readOpen).toNat
  | _ => 0

def StopPhase.far : StopPhase → ℕ
  | .closeData => 12
  | .closeErr => 13
  | .closeSetup => 14
  | .kill => 15
  | .reap => 16

def BackendPc.far (cmd : ChdbCmdType) (s : System) : BackendPc → ℕ
  | .calling => if cmd = .insert ∨ s.data.readOpen = true then 2 else 7
  | .head t => t.far s + t.late s
  | .drain t => t.far s
  | .wait t => t.far s
  | .waitpid a => (Task.reap a).far s + 2
  | .returned => 12
  | .stopping p => p.far
  | .raised => 17

/-- The calls of `chdb_helper_write` still to come. -/
def BackendState.ahead (b : BackendState) : ℕ := (b.todo.getD []).length

/-- What has crossed the channels; a result is asked for before it is taken. -/
def System.moved (s : System) : ℕ :=
  s.setup.sent.length + s.setup.taken.length + s.err.sent.length + s.err.taken.length
    + s.data.sent.length + 2 * s.data.taken.length + (!s.err.readOpen).toNat

/-- That, and how far the two processes have come. -/
def System.gained (cmd : ChdbCmdType) (s : System) : ℤ :=
  s.moved + s.backend.pc.far cmd s - s.helper.pc.phase - 2 * s.backend.ahead

/-- A step that is more than a turn of a loop that has to wait, or something to say. -/
def Kind.counts : Kind → Bool
  | .idle => false
  | .speak => false
  | _ => true

/-- `chdb_helper_recv` is called for a result only, and waits for the helper's end once it has
    closed its own end of the channel. -/
def Task.Shut (cmd : ChdbCmdType) (s : System) : Task → Prop
  | .recv _ => cmd ≠ .insert
  | .reap .recv => cmd ≠ .insert ∧ s.data.readOpen = false
  | _ => True

def BackendPc.Shut (cmd : ChdbCmdType) (s : System) : BackendPc → Prop
  | .head t => t.Shut cmd s
  | .drain t => t.Shut cmd s
  | .wait t => t.Shut cmd s
  | .waitpid a => (Task.reap a).Shut cmd s
  | _ => True

theorem BackendPc.Shut.congr {cmd : ChdbCmdType} {pc : BackendPc} (h : pc.Shut cmd s)
    (hdata : cmd ≠ .insert → s'.data.readOpen = s.data.readOpen) : pc.Shut cmd s' := by
  have htask : ∀ t : Task, t.Shut cmd s → t.Shut cmd s' := by
    intro t ht
    unfold Task.Shut at ht ⊢
    split at ht
    · exact ht
    · exact ⟨ht.1, (hdata ht.1).trans ht.2⟩
    · trivial
  cases pc with
  | head t => exact htask t h
  | drain t => exact htask t h
  | wait t => exact htask t h
  | waitpid a => exact htask _ h
  | _ => trivial

theorem afterReap_shut {a : After} (cmd : ChdbCmdType) (status : Option WaitStatus)
    (b : BackendState) : (b.afterReap status a).pc.Shut cmd s := by
  rcases b.afterReap_cases status a with ⟨rfl, -, hreap⟩ | ⟨rfl, -, hreap⟩ | hreap
  · rw [hreap]
    trivial
  · rw [hreap]
    trivial
  · rw [hreap]
    trivial

theorem BackendStep.shut (h : BackendStep job s k s') (hshut : s.backend.pc.Shut job.cmd s) :
    s'.backend.pc.Shut job.cmd s' := by
  cases h with
  | recvCall hat hcmd => exact hcmd
  | recvEnd hat ropen eof =>
    rw [hat] at hshut
    refine ⟨hshut, ?_⟩
    show (s.closeData job.cmd).data.readOpen = false
    unfold System.closeData
    rw [if_neg hshut]
    rfl
  | again hat | drained hat | drainedAll hat | wake hat | errEnded hat =>
    rw [hat] at hshut
    exact hshut
  | @drainEnd t hat =>
    rw [hat] at hshut
    have hdrain : BackendPc.Shut job.cmd s (.drain t) := hshut
    exact hdrain.congr fun _ => rfl
  | drainGot | eintr => exact hshut.congr fun _ => rfl
  | reap | reapFails | reapAgain => exact afterReap_shut _ _ _
  | _ => trivial

theorem Step.shut (h : Step job k s s') (hshut : s.backend.pc.Shut job.cmd s) :
    s'.backend.pc.Shut job.cmd s' := by
  cases h with
  | backend h => exact h.shut hshut
  | helper h =>
    have hframe := h.frame
    rw [hframe.backend]
    refine hshut.congr fun hcmd => ?_
    have hdata := hframe.data
    unfold System.backendData at hdata
    rwa [if_neg hcmd, if_neg hcmd] at hdata

/-! ### What a step adds -/

/-- A channel that is closed takes the backend no less far. -/
theorem BackendPc.far_le (cmd : ChdbCmdType) (pc : BackendPc)
    (herr : s'.err.readOpen = s.err.readOpen)
    (hdata : s.data.readOpen = false → s'.data.readOpen = false) :
    pc.far cmd s ≤ pc.far cmd s' := by
  have htask : ∀ t : Task, t.far s ≤ t.far s' := by
    intro t
    unfold Task.far
    split
    · exact le_refl _
    · exact le_refl _
    · split <;> split <;> simp_all
    · exact le_refl _
    · exact le_refl _
  cases pc with
  | calling =>
    show (if cmd = .insert ∨ s.data.readOpen = true then 2 else 7)
      ≤ if cmd = .insert ∨ s'.data.readOpen = true then 2 else 7
    split <;> split <;> simp_all
  | head t =>
    have hlate : t.late s' = t.late s := by
      unfold Task.late
      rw [herr]
    show t.far s + t.late s ≤ t.far s' + t.late s'
    rw [hlate]
    exact Nat.add_le_add_right (htask t) _
  | drain t => exact htask t
  | wait t => exact htask t
  | waitpid a => exact Nat.add_le_add_right (htask _) 2
  | returned | raised | stopping => exact le_refl _

theorem Pipe.get_taken_length {p : Pipe UInt8} {n : ℕ} (h : n ≤ p.content.length) :
    (p.get n).taken.length = p.taken.length + n := by
  simp [h]

/-- A step of the helper adds what it moves and how far it gets. -/
theorem gained_helper (h : HelperFrame job.cmd s s')
    (hdata : s.data.readOpen = false → s'.data.readOpen = false) {n : ℕ}
    (hmoved : s.moved + n + s'.helper.pc.phase ≤ s'.moved + s.helper.pc.phase) :
    s.gained job.cmd + n ≤ s'.gained job.cmd := by
  have hfar := s.backend.pc.far_le job.cmd h.err hdata
  unfold System.gained
  rw [h.backend]
  omega

theorem gained_die (halive : s.helper.alive = true) (st : WaitStatus) :
    s.gained job.cmd + 1 ≤ (s.die job.cmd st).gained job.cmd := by
  have hphase := phase_pos halive
  refine gained_helper (n := 1) (s.die_frame job.cmd st) ?_ ?_
  · intro hclosed
    unfold System.die
    dsimp only
    split
    · rfl
    · exact hclosed
  · have hmoved : (s.die job.cmd st).moved = s.moved := by
      unfold System.die System.moved
      dsimp only
      split <;> rfl
    rw [hmoved]
    show s.moved + 1 + 0 ≤ s.moved + s.helper.pc.phase
    omega

/-- A helper that goes on without reading or writing has got further. -/
theorem gained_on {h : HelperState} (hphase : h.pc.phase < s.helper.pc.phase)
    (hframe : HelperFrame job.cmd s { s with helper := h }) :
    s.gained job.cmd + 1 ≤ System.gained job.cmd { s with helper := h } := by
  refine gained_helper (n := 1) hframe id ?_
  show s.moved + 1 + h.pc.phase ≤ s.moved + s.helper.pc.phase
  omega

theorem HelperStep.gain (h : HelperStep job s k s') :
    s.gained job.cmd + k.counts.toNat ≤ s'.gained job.cmd := by
  have hframe := h.frame
  have halive := h.alive_of
  cases h with
  | readSetup hat live pos le =>
    refine gained_helper (n := 1) hframe id ?_
    simp only [System.moved, Pipe.get_sent, Pipe.get_taken_length le]
    omega
  | setupEnd hat live eof hs =>
    refine gained_on ?_ hframe
    have hle := hs.phase_le
    rw [hat.1]
    exact Nat.lt_succ_of_le hle
  | setupFails text hat live =>
    refine gained_on ?_ hframe
    rw [hat.1]
    exact Nat.lt_of_sub_eq_succ rfl
  | @write put rest h' hat live pos ropen room hw =>
    refine gained_helper (n := 1) hframe id ?_
    have hpos := List.length_pos_iff.mpr pos
    have hle : h'.pc.phase ≤ 2 := by
      cases hw with
      | more => exact le_refl 2
      | next hf => exact hf.phase_le
    have hphase : s.helper.pc.phase = 2 := by
      rw [hat.1]
      rfl
    simp only [System.moved, hphase, Pipe.put_sent, Pipe.put_taken, List.length_append]
    omega
  | @read n h' hat live pos le ha =>
    refine gained_helper (n := 1) hframe id ?_
    have hle : h'.pc.phase ≤ 2 := by
      cases ha with
      | ok =>
        rw [hat.1]
        exact le_refl 2
      | error text => exact Nat.le_succ 1
    have hphase : s.helper.pc.phase = 2 := by
      rw [hat.1]
      rfl
    simp only [System.moved, hphase, Pipe.get_sent, Pipe.get_taken_length le]
    omega
  | readEnd hat live eof hd =>
    refine gained_on ?_ hframe
    rw [hat.1, hd.phase]
    exact Nat.one_lt_two
  | ioFails hat live =>
    refine gained_on ?_ hframe
    rcases hat with hat | ⟨rest, hat⟩
    · rw [hat.1]
      exact Nat.one_lt_two
    · rw [hat.1]
      exact Nat.one_lt_two
  | say halive hsay live pos ropen room =>
    refine gained_helper (n := 1) hframe id ?_
    have hpos := List.length_pos_iff.mpr pos
    simp only [System.moved, Pipe.put_sent, Pipe.put_taken, Pipe.put_readOpen, List.length_append]
    omega
  | speak text halive hsay => exact gained_helper (n := 0) hframe id (le_refl _)
  | writePipe | sayPipe | exit | crash | killed => exact gained_die halive _

/-- A step of the backend adds what it moves and how far it gets. -/
theorem gained_backend (s s' : System) (hhelper : s'.helper = s.helper)
    (hahead : s'.backend.ahead = s.backend.ahead) {n : ℕ}
    (hmoved : s.moved + s.backend.pc.far job.cmd s + n
      ≤ s'.moved + s'.backend.pc.far job.cmd s') :
    s.gained job.cmd + n ≤ s'.gained job.cmd := by
  unfold System.gained
  rw [hhelper, hahead]
  omega

/-- Where it goes on without reading or writing, it has got further. -/
theorem gained_goto {pc : BackendPc} {n : ℕ}
    (hfar : s.backend.pc.far job.cmd s + n ≤ pc.far job.cmd s) :
    s.gained job.cmd + n ≤ (s.goto pc).gained job.cmd := by
  refine gained_backend s (s.goto pc) rfl rfl ?_
  show s.moved + _ + n ≤ s.moved + pc.far job.cmd s
  omega

theorem moved_closeData (cmd : ChdbCmdType) (s : System) : (s.closeData cmd).moved = s.moved := by
  unfold System.moved
  rw [(closeData_sent cmd s).1, (closeData_sent cmd s).2]
  rfl

theorem far_calling_le (cmd : ChdbCmdType) (s : System) : BackendPc.calling.far cmd s ≤ 7 := by
  show (if cmd = .insert ∨ s.data.readOpen = true then 2 else 7) ≤ 7
  split <;> omega

theorem le_far_calling (cmd : ChdbCmdType) (s : System) : 2 ≤ BackendPc.calling.far cmd s := by
  show 2 ≤ if cmd = .insert ∨ s.data.readOpen = true then 2 else 7
  split <;> omega

theorem Task.far_le (t : Task) (s : System) : t.far s ≤ 9 := by
  unfold Task.far
  split
  · omega
  · omega
  · split <;> omega
  · omega
  · omega

theorem Task.late_le (t : Task) (s : System) : t.late s ≤ 1 := by
  unfold Task.late
  split
  · exact Bool.toNat_le _
  · omega

theorem BackendPc.far_bound (cmd : ChdbCmdType) (pc : BackendPc) (s : System) :
    pc.far cmd s ≤ 17 := by
  cases pc with
  | calling => exact (far_calling_le cmd s).trans (by omega)
  | head t => exact (Nat.add_le_add (t.far_le s) (t.late_le s)).trans (by omega)
  | drain t | wait t => exact (t.far_le s).trans (by omega)
  | waitpid a => exact (Nat.add_le_add_right (Task.far_le _ s) 2).trans (by omega)
  | returned => exact Nat.le_add_left 12 5
  | stopping p =>
    show p.far ≤ 17
    cases p <;> decide
  | raised => exact le_refl 17

theorem moved_closeErr (s : System) :
    s.moved ≤ System.moved { s with err := s.err.closeRead } := by
  have hopen := (!s.err.readOpen).toNat_le
  exact Nat.add_le_add_left hopen _

theorem moved_finish (cmd : ChdbCmdType) (s : System) : (s.finish cmd).moved = s.moved :=
  moved_closeData cmd s

theorem gained_finish (hat : s.backend.pc = .calling) :
    s.gained job.cmd + 1 ≤ (s.finish job.cmd).gained job.cmd := by
  refine gained_backend s (s.finish job.cmd) (n := 1) rfl rfl ?_
  have hcall := far_calling_le job.cmd s
  rw [hat, moved_finish]
  show _ ≤ s.moved + (9 + Task.late _ _)
  omega

/-- An error that is raised takes the backend further than it ever gets without. -/
theorem gained_raise (hnot : ∀ a, s.backend.pc ≠ .waitpid a) (hreturn : s.backend.pc ≠ .returned)
    (hraising : ¬ s.backend.pc.Raising) :
    s.gained job.cmd + 1 ≤ (s.goto (.stopping .closeData)).gained job.cmd := by
  refine gained_goto (n := 1) ?_
  show _ ≤ 12
  cases hpc : s.backend.pc with
  | calling =>
    have hcall := far_calling_le job.cmd s
    omega
  | head t =>
    have hfar := t.far_le s
    have hlate := t.late_le s
    show t.far s + t.late s + 1 ≤ 12
    omega
  | drain t | wait t =>
    have hfar := t.far_le s
    show t.far s + 1 ≤ 12
    omega
  | waitpid a => exact absurd hpc (hnot a)
  | returned => exact absurd hpc hreturn
  | stopping p => exact absurd (Or.inr ⟨p, hpc⟩) hraising
  | raised => exact absurd (Or.inl hpc) hraising

/-- With the status known, the backend returns or raises, unless `chdb_helper_recv` had closed
    the channel. -/
theorem gained_afterReap {a : After} (status : Option WaitStatus) (hat : s.backend.pc = .waitpid a)
    (hshut : (Task.reap a).Shut job.cmd s) :
    s.gained job.cmd + 1
      ≤ System.gained job.cmd { s with backend := s.backend.afterReap status a } := by
  have hahead : (s.backend.afterReap status a).ahead = s.backend.ahead := by
    rcases s.backend.afterReap_cases status a with ⟨-, -, hreap⟩ | ⟨-, -, hreap⟩ | hreap <;>
      rw [hreap] <;> rfl
  refine gained_backend s { s with backend := s.backend.afterReap status a } (n := 1) rfl hahead ?_
  show s.moved + _ + 1 ≤ s.moved + _
  rw [hat]
  show s.moved + ((Task.reap a).far s + 2) + 1 ≤ _
  have hfar := (Task.reap a).far_le s
  rcases s.backend.afterReap_cases status a with ⟨rfl, -, hreap⟩ | ⟨-, -, hreap⟩ | hreap
  · rw [hreap]
    show s.moved + (4 + 2) + 1
      ≤ s.moved + if job.cmd = .insert ∨ s.data.readOpen = true then 2 else 7
    rw [if_neg (by simp [hshut.1, hshut.2])]
  · rw [hreap]
    show _ ≤ s.moved + 12
    omega
  · rw [hreap]
    show _ ≤ s.moved + 12
    omega

/-- A turn of a loop begins at its head, whose last turn is over. -/
theorem Task.late_eq_zero {t : Task} (hl : t.Loops s) : t.late s = 0 := by
  cases t with
  | reap a =>
    show (!s.err.readOpen).toNat = 0
    rw [show s.err.readOpen = true from hl]
    rfl
  | _ => rfl

theorem Task.late_eq_one {a : After} (hclosed : s.err.readOpen = false) :
    (Task.reap a).late s = 1 := by
  show (!s.err.readOpen).toNat = 1
  rw [hclosed]
  rfl

theorem BackendStep.gain (h : BackendStep job s k s') (hshut : s.backend.pc.Shut job.cmd s) :
    s.gained job.cmd + k.counts.toNat ≤ s'.gained job.cmd := by
  have hhelper := h.frame.helper
  cases h with
  | @setupWrite put rest hat pos ropen room =>
    refine gained_backend s _ (n := 1) hhelper rfl ?_
    have hpos := List.length_pos_iff.mpr pos
    simp only [System.moved, System.goto, hat, Pipe.put_sent, Pipe.put_taken, List.length_append,
      BackendPc.far, Task.far, Task.late]
    omega
  | setupWritten hat =>
    refine gained_backend s _ (n := 1) hhelper rfl ?_
    rw [hat]
    exact Nat.add_le_add_left ((Nat.le_succ 1).trans (le_far_calling job.cmd _)) s.moved
  | setupPipe hat | dataPipe hat | dataFails hat =>
    refine gained_goto (n := 1) ?_
    rw [hat]
    exact Nat.le_add_right_of_le (Nat.le_of_ble_eq_true rfl)
  | setupFails hat | readerRaises hat | sendRaises hat | raises hat | interrupt hat =>
    apply gained_raise <;> simp [hat, BackendPc.Raising]
  | recvCall hat hcmd hr =>
    refine gained_goto (n := 1) ?_
    rw [hat]
    show (if job.cmd = .insert ∨ s.data.readOpen = true then 2 else 7) + 1
      ≤ (if s.data.readOpen then 3 else 8) + 0
    simp only [hcmd, false_or]
    split <;> omega
  | readerFinished hat | sendFinished hat => exact gained_finish hat
  | @recvGot n len hat pos le le' ropen =>
    refine gained_backend s _ (n := 1) hhelper rfl ?_
    rw [hat]
    simp only [System.moved, Pipe.get_sent, Pipe.get_taken_length le', Pipe.get_readOpen,
      BackendPc.far, Task.far, Task.late, ropen]
    simp only [or_true, if_true]
    omega
  | recvEnd hat ropen eof =>
    refine gained_backend s _ (n := 1) hhelper rfl ?_
    rw [hat]
    show s.moved + ((if s.data.readOpen then 3 else 8) + 0) + 1
      ≤ (s.closeData job.cmd).moved + (4 + Task.late _ _)
    rw [moved_closeData, if_pos ropen]
    omega
  | recvClosed hat | recvFails hat =>
    refine gained_goto (n := 1) ?_
    rw [hat]
    show (if s.data.readOpen then 3 else 8) + 0 + 1 ≤ 9 + Task.late _ _
    split <;> omega
  | @writeCall p ps hat hcmd ht =>
    have hahead : s.backend.ahead = ps.length + 1 := by
      unfold BackendState.ahead
      rw [ht]
      rfl
    have hcall : s.backend.pc.far job.cmd s ≤ 2 := by
      rw [hat]
      show (if job.cmd = .insert ∨ s.data.readOpen = true then 2 else 7) ≤ 2
      rw [if_pos (Or.inl hcmd)]
    refine le_trans (b := (s.moved : ℤ) + (1 : ℕ) - s.helper.pc.phase - 2 * ps.length) ?_
      (le_refl _)
    show _ + ((1 : ℕ) : ℤ) ≤ _
    unfold System.gained
    rw [hahead]
    omega
  | @dataWrite put rest hat pos ropen room =>
    refine gained_backend s _ (n := 1) hhelper rfl ?_
    have hpos := List.length_pos_iff.mpr pos
    simp only [System.moved, System.goto, hat, Pipe.put_sent, Pipe.put_taken, List.length_append,
      BackendPc.far, Task.far, Task.late]
    omega
  | dataWritten hat =>
    refine gained_goto (n := 1) ?_
    rw [hat]
    exact le_far_calling job.cmd s
  | again hat hl =>
    refine gained_goto (n := 0) ?_
    rw [hat]
    show _ + Task.late s _ + 0 ≤ _
    rw [Task.late_eq_zero hl]
    exact le_refl _
  | eintr => exact (add_zero _).le
  | @drainGot t n hat pos le ropen =>
    refine gained_backend s _ (n := 1) hhelper rfl ?_
    simp only [System.moved, Pipe.get_sent, Pipe.get_taken_length le, Pipe.get_readOpen, hat]
    show _ ≤ _ + t.far s
    show _ + t.far s + 1 ≤ _
    omega
  | @drainEnd t hat ropen eof =>
    refine gained_backend s _ (n := 1) hhelper rfl ?_
    simp only [System.moved, System.goto, Pipe.closeRead_sent, Pipe.closeRead_taken,
      Pipe.closeRead_readOpen, hat, ropen]
    show _ + 0 + t.far s + 1 ≤ _ + 1 + t.far s
    omega
  | drained hat hw =>
    refine gained_goto (n := 0) ?_
    rw [hat]
    exact le_refl _
  | wake hat =>
    refine gained_goto (n := 0) ?_
    rw [hat]
    exact Nat.le_add_right _ _
  | drainedAll hat closed | errEnded hat closed =>
    refine gained_goto (n := 1) ?_
    rw [hat]
    simp only [BackendPc.far, Task.late_eq_one closed]
    exact le_refl _
  | reap hat | reapFails hat | reapAgain hat =>
    rw [hat] at hshut
    exact gained_afterReap _ hat hshut
  | stopData hat =>
    refine gained_backend s _ (n := 1) hhelper rfl ?_
    rw [hat]
    exact (Nat.add_assoc _ _ _).trans_le (Nat.add_le_add_right (moved_closeData _ _).ge _)
  | stopErr hat =>
    refine gained_backend s _ (n := 1) hhelper rfl ?_
    rw [hat]
    exact Nat.add_le_add_right (moved_closeErr s) 14
  | stopSetup hat | stopKill hat | stopReap hat =>
    refine gained_backend s _ (n := 1) hhelper rfl ?_
    rw [hat]
    exact le_refl _
  | stopReaped hat =>
    refine gained_goto (n := 1) ?_
    rw [hat]
    exact Nat.le_succ 16

/-- **What a step adds.** -/
theorem Step.gain (h : Step job k s s') (hshut : s.backend.pc.Shut job.cmd s) :
    s.gained job.cmd + k.counts.toNat ≤ s'.gained job.cmd := by
  cases h with
  | helper h => exact h.gain
  | backend h => exact h.gain hshut

/-! ### How many steps a run has -/

theorem Step.handed {payload : Bytes} (h : Step job k s s') (hs : Program.Handed payload s) :
    Program.Handed payload s' := by
  cases h with
  | helper h =>
    have hframe := h.frame
    exact hs.congr (by rw [hframe.backend]) hframe.setup hframe.setupSent
  | backend h => exact hs.backendStep h

/-- What a run can have gained. -/
theorem System.gained_le (cmd : ChdbCmdType) {payload : Bytes} (hs : Program.Handed payload s) :
    s.gained cmd
      ≤ 2 * payload.length + 2 * s.err.sent.length + 3 * s.data.sent.length + 18 := by
  have htaken : ∀ p : Pipe UInt8, p.taken.length ≤ p.sent.length := by
    intro p
    unfold Pipe.sent
    rw [List.length_append]
    omega
  have hsetup := htaken s.setup
  have herr := htaken s.err
  have hdata := htaken s.data
  have hpayload := hs.sent.length_le
  have hfar := s.backend.pc.far_bound cmd s
  have hopen := (!s.err.readOpen).toNat_le
  unfold System.gained System.moved
  omega

/-- **No run goes on for ever.**  In every run, whatever fails in it, the steps that are more than a
    wake-up or a message of the helper's are at most so many: twice for each byte of the payload
    and of the error text, three times for each byte of data, and a few for each call. -/
theorem work_bounded (job : CopyJob) (setupCap errCap dataCap : ℕ+) (payload : Bytes)
    (todo : Option (List Bytes)) {ks : List Kind} {s : System}
    (hrun : Trace (Step job) (.start setupCap errCap dataCap payload todo) ks s) :
    ks.countP Kind.counts ≤ 2 * payload.length + 2 * s.err.sent.length
      + 3 * s.data.sent.length + 2 * (todo.getD []).length + 21 := by
  have hhanded : Program.Handed payload s :=
    hrun.invariant (.start setupCap errCap dataCap payload todo) fun _ _ _ ha hstep =>
      hstep.handed ha
  have hcount := hrun.count_le (I := fun a => a.backend.pc.Shut job.cmd a)
    (System.gained job.cmd) trivial (fun _ _ _ ha hstep => hstep.shut ha)
    fun _ _ _ ha hstep => hstep.gain ha
  have hle := System.gained_le job.cmd hhanded
  have hstart : System.gained job.cmd (.start setupCap errCap dataCap payload todo)
      = -3 - 2 * (todo.getD []).length := by
    show ((0 : ℕ) : ℤ) + (0 : ℕ) - (3 : ℕ) - 2 * ((todo.getD []).length : ℤ) = _
    omega
  omega

/-- The kinds of the steps of a file that is empty. -/
def emptyKinds : List Kind :=
  [.work, .work, .work, .work, .work, .work, .work, .idle, .work, .work, .work, .work, .work,
    .work, .work]

/-- A file that is empty: the helper exits, and the backend finds both channels ended. -/
theorem trace_empty : ∃ s, Trace (Step fourBytes) (.start 1 1 1 (lit "S") none) emptyKinds s ∧
    s.backend.pc = .returned ∧ s.helper.pc = .ended (.exited 0) ∧ s.err.sent = [] := by
  have h₀ : Trace (Step fourBytes) (.start 1 1 1 (lit "S") none) [] _ := .start
  have h₁ := h₀.next (.backend (.setupWrite (k := lit "S") rfl nofun rfl (le_refl 1)))
  have h₂ := h₁.next (.backend (.setupWritten rfl))
  have h₃ := h₂.next (.helper (.readSetup (n := 1) ⟨rfl, rfl⟩ rfl Nat.one_pos (le_refl 1)))
  have h₄ := h₃.next (.helper (.setupEnd ⟨rfl, rfl⟩ rfl ⟨rfl, rfl⟩ (.select nofun .last)))
  have h₅ := h₄.next (.helper (.exit ⟨rfl, rfl⟩ rfl))
  have h₆ := h₅.next (.backend (.recvCall rfl nofun rfl))
  have h₇ := h₆.next (.backend (.recvEnd rfl rfl (Or.inr ⟨rfl, rfl⟩)))
  have h₈ := h₇.next (.backend (.again rfl rfl))
  have h₉ := h₈.next (.backend (.drainEnd rfl rfl ⟨rfl, rfl⟩))
  have h₁₀ := h₉.next (.backend (.drainedAll rfl rfl))
  have h₁₁ := h₁₀.next (.backend (.errEnded rfl rfl))
  have h₁₂ := h₁₁.next (.backend (.reap rfl rfl rfl))
  have h₁₃ := h₁₂.next (.backend (.readerFinished rfl nofun rfl))
  have h₁₄ := h₁₃.next (.backend (.errEnded rfl rfl))
  exact ⟨_, h₁₄.next (.backend (.reapAgain rfl rfl)), rfl, rfl, rfl⟩

theorem work_bounded_empty :
    ∃ s, Trace (Step fourBytes) (.start 1 1 1 (lit "S") none) emptyKinds s ∧
      emptyKinds.countP Kind.counts = 14 ∧ 14 ≤ 2 * (lit "S").length + 2 * s.err.sent.length
        + 3 * s.data.sent.length + 2 * 0 + 21 := by
  obtain ⟨s, hrun, -⟩ := trace_empty
  exact ⟨s, hrun, rfl, work_bounded fourBytes 1 1 1 (lit "S") none hrun⟩

/-! ### Where only turns are left -/

/-- The next place in the turn of a loop. -/
def BackendPc.turn : BackendPc → BackendPc
  | .head t => .drain t
  | .drain t => .wait t
  | .wait t => .head t
  | pc => pc

theorem System.goto_goto (s : System) (pc pc' : BackendPc) : (s.goto pc).goto pc' = s.goto pc' :=
  rfl

/-- A step that gets nothing done is a place further in a loop, or a call that was interrupted. -/
theorem BackendStep.turns (h : BackendStep job s k s') (hk : k.counts = false) :
    s' = s ∨ s' = s.goto s.backend.pc.turn := by
  cases h with
  | again hat | drained hat | wake hat =>
    rw [hat]
    exact Or.inr rfl
  | eintr => exact Or.inl rfl
  | _ => cases hk

/-- One of the helper's is a message. -/
theorem HelperStep.speaks (h : HelperStep job s k s') (hk : k.counts = false) :
    s.helper.saying = [] ∧ ∃ text, s' = { s with helper := { s.helper with saying := text } } := by
  cases h with
  | speak text halive hsay => exact ⟨hsay, text, rfl⟩
  | _ => cases hk

theorem HelperStep.not_idle (h : HelperStep job s .idle s') : False := by
  cases h

/-- Turns alone lead round the loop. -/
theorem turns_of_run (h : Run (Step job) (fun k _ _ => k = .idle) s s') :
    ∃ n, s' = s.goto (BackendPc.turn^[n] s.backend.pc) := by
  induction h with
  | start => exact ⟨0, rfl⟩
  | @next t u k _ hstep hidle ih =>
    obtain ⟨n, rfl⟩ := ih
    subst hidle
    cases hstep with
    | helper h => exact h.not_idle.elim
    | backend h =>
      rcases h.turns rfl with rfl | rfl
      · exact ⟨n, rfl⟩
      · refine ⟨n + 1, ?_⟩
        rw [Function.iterate_succ_apply']
        rfl

/-! ### What a scan still has to write -/

/-- What is left of the block that is being written. -/
def BackendPc.left : BackendPc → Bytes
  | .head (.write rest) => rest
  | .drain (.write rest) => rest
  | .wait (.write rest) => rest
  | _ => []

def BackendState.unsent (b : BackendState) : ℕ :=
  b.pc.left.length + (b.todo.getD []).flatten.length

theorem left_place (t : Task) :
    BackendPc.left (.drain t) = BackendPc.left (.head t) ∧
      BackendPc.left (.wait t) = BackendPc.left (.head t) := by
  cases t <;> exact ⟨rfl, rfl⟩

theorem BackendState.unsent_le {b b' : BackendState} (htodo : b'.todo = b.todo)
    (hleft : b'.pc.left = b.pc.left ∨ b'.pc.left = []) : b'.unsent ≤ b.unsent := by
  unfold BackendState.unsent
  rw [htodo]
  rcases hleft with hleft | hleft
  · rw [hleft]
  · rw [hleft]
    exact Nat.add_le_add_right (Nat.zero_le _) _

theorem afterReap_unsent_le (b : BackendState) (status : Option WaitStatus) (a : After) :
    (b.afterReap status a).unsent ≤ b.unsent := by
  rcases b.afterReap_cases status a with ⟨-, -, hreap⟩ | ⟨-, -, hreap⟩ | hreap
  · rw [hreap]
    exact BackendState.unsent_le rfl (Or.inr rfl)
  · rw [hreap]
    exact BackendState.unsent_le rfl (Or.inr rfl)
  · rw [hreap]
    exact BackendState.unsent_le rfl (Or.inr rfl)

/-- A step that writes nothing leaves as much to write, or drops the rest of a block. -/
theorem unsent_goes (hsent : s'.data.sent = s.data.sent)
    (htodo : s'.backend.todo = s.backend.todo)
    (hleft : s'.backend.pc.left = s.backend.pc.left ∨ s'.backend.pc.left = []) :
    s'.data.sent.length + s'.backend.unsent ≤ s.data.sent.length + s.backend.unsent := by
  rw [hsent]
  exact Nat.add_le_add_left (BackendState.unsent_le htodo hleft) _

/-- What has been written and what is left to write are never more. -/
theorem Step.unsent_le (h : Step job k s s') (hcmd : job.cmd = .insert)
    (hagree : s.helper.Agrees job s.setup.writeOpen) (hshut : s.backend.pc.Shut job.cmd s) :
    s'.data.sent.length + s'.backend.unsent ≤ s.data.sent.length + s.backend.unsent := by
  have hclose := (closeData_sent job.cmd s).1
  cases h with
  | helper h => rw [Program.helper_sent h hcmd hagree, h.frame.backend]
  | backend h =>
    cases h with
    | @dataWrite put rest hat pos ropen room =>
      simp only [System.goto, BackendState.unsent, BackendPc.left, hat, Pipe.put_sent,
        List.length_append]
      omega
    | @writeCall p ps hat _ ht =>
      simp only [BackendState.unsent, BackendPc.left, hat, ht, Option.getD_some,
        List.flatten_cons, List.length_append, List.length_nil]
      omega
    | recvGot hat =>
      rw [hat] at hshut
      exact absurd hcmd hshut
    | again hat | drained hat | wake hat | drainEnd hat =>
      apply unsent_goes
      · rfl
      · rfl
      · rw [hat]
        simp [System.goto, left_place]
    | eintr | drainGot => exact le_refl _
    | reap | reapFails | reapAgain => exact Nat.add_le_add_left (afterReap_unsent_le _ _ _) _
    | readerFinished | sendFinished | recvEnd | stopData =>
      apply unsent_goes
      · exact hclose
      · rfl
      · exact Or.inr rfl
    | _ =>
      apply unsent_goes
      · rfl
      · rfl
      · exact Or.inr rfl

/-! ### Fair runs -/

/-- The backend has returned, or has raised. -/
def System.Over (s : System) : Prop := s.backend.pc = .returned ∨ s.backend.pc = .raised

/-- A fair run.  If something can be done again and again, something is done again and again,
    and no call of a loop is interrupted for ever: `drain_err` ends, and so does `wait_fd`, at
    the latest after its 200 ms. -/
structure Fair (job : CopyJob) (s : ℕ → System) (k : ℕ → Kind) : Prop extends
    Behaviour (Step job) System.Over s k where
  work : (∃ᶠ i in atTop, Works job (s i)) → ∃ᶠ i in atTop, (k i).counts = true
  loop (n : ℕ) (t : Task) :
    (s n).backend.pc = .head t ∨ (s n).backend.pc = .drain t ∨ (s n).backend.pc = .wait t →
    ∃ i, n ≤ i ∧ (s i).backend.pc ≠ (s n).backend.pc

section
variable {sys : ℕ → System} {kind : ℕ → Kind} {N : ℕ}

/-- When only turns and messages are left, the helper finds at most one thing more to say. -/
theorem only_turns (hend : Endless (Step job) sys kind)
    (hquiet : ∀ i, N ≤ i → (kind i).counts = false) :
    ∃ M, N ≤ M ∧ ∀ i, M ≤ i →
      sys (i + 1) = sys i ∨ sys (i + 1) = (sys i).goto (sys i).backend.pc.turn := by
  by_cases hsays : ∃ M, N ≤ M ∧ (sys M).helper.saying ≠ []
  · obtain ⟨M, hM, hsay⟩ := hsays
    -- what it says is never written
    have hturn : ∀ i, N ≤ i → (sys i).helper.saying ≠ [] →
        sys (i + 1) = sys i ∨ sys (i + 1) = (sys i).goto (sys i).backend.pc.turn := by
      intro i hi hne
      cases hend i with
      | backend h => exact h.turns (hquiet i hi)
      | helper h => exact absurd (h.speaks (hquiet i hi)).1 hne
    have hkeeps : ∀ n, (sys (M + n)).helper.saying ≠ [] := by
      intro n
      induction n with
      | zero => exact hsay
      | succ n ih =>
        rw [← Nat.add_assoc]
        rcases hturn (M + n) (by omega) ih with hsame | hgoto
        · rwa [hsame]
        · rwa [hgoto]
    refine ⟨M, hM, fun i hi => hturn i (by omega) ?_⟩
    obtain ⟨n, rfl⟩ := Nat.exists_eq_add_of_le hi
    exact hkeeps n
  · have hsilent : ∀ i, N ≤ i → (sys i).helper.saying = [] := by
      intro i hi
      by_contra hne
      exact hsays ⟨i, hi, hne⟩
    refine ⟨N, le_refl N, fun i hi => ?_⟩
    cases hend i with
    | backend h => exact h.turns (hquiet i hi)
    | helper h =>
      obtain ⟨hsay, text, hnext⟩ := h.speaks (hquiet i hi)
      have htext := hsilent (i + 1) (by omega)
      rw [hnext] at htext
      have hempty : text = (sys i).helper.saying := htext.trans hsay.symm
      refine Or.inl ?_
      rw [hnext, hempty]

/-- The backend does not stay where it is in its loop. -/
theorem turns_on (hfair : Fair job sys kind)
    (hturn : ∀ i, N ≤ i → sys (i + 1) = sys i ∨
      sys (i + 1) = (sys i).goto (sys i).backend.pc.turn) :
    ∃ i, N ≤ i ∧ sys i = (sys N).goto (sys N).backend.pc.turn := by
  by_contra hnever
  -- then it is there all the time
  have hstays : ∀ n, sys (N + n) = sys N := by
    intro n
    induction n with
    | zero => rfl
    | succ n ih =>
      rw [← Nat.add_assoc]
      rcases hturn (N + n) (by omega) with hsame | hgoto
      · exact hsame.trans ih
      · rw [ih] at hgoto
        exact absurd ⟨N + n + 1, by omega, hgoto⟩ hnever
  have hleaves : ∀ t : Task, ¬ ((sys N).backend.pc = .head t ∨ (sys N).backend.pc = .drain t ∨
      (sys N).backend.pc = .wait t) := by
    intro t hloop
    obtain ⟨i, hi, hne⟩ := hfair.loop N t hloop
    obtain ⟨n, rfl⟩ := Nat.exists_eq_add_of_le hi
    exact hne (by rw [hstays n])
  have hsame : (sys N).backend.pc.turn = (sys N).backend.pc := by
    cases hpc : (sys N).backend.pc with
    | head t => exact absurd (Or.inl hpc) (hleaves t)
    | drain t => exact absurd (Or.inr (Or.inl hpc)) (hleaves t)
    | wait t => exact absurd (Or.inr (Or.inr hpc)) (hleaves t)
    | _ => rfl
  exact hnever ⟨N, le_refl N, by rw [hsame]; rfl⟩

/-- So a fair run takes it to every place of the loop. -/
theorem turns_visit (hfair : Fair job sys kind)
    (hturn : ∀ i, N ≤ i → sys (i + 1) = sys i ∨
      sys (i + 1) = (sys i).goto (sys i).backend.pc.turn) (n : ℕ) :
    ∃ i, N ≤ i ∧ sys i = (sys N).goto (BackendPc.turn^[n] (sys N).backend.pc) := by
  induction n with
  | zero => exact ⟨N, le_refl N, rfl⟩
  | succ n ih =>
    obtain ⟨i, hi, hat⟩ := ih
    obtain ⟨j, hj, hnext⟩ := turns_on hfair fun j hj => hturn j (hi.trans hj)
    refine ⟨j, hi.trans hj, ?_⟩
    rw [hnext, hat, Function.iterate_succ_apply']
    rfl

end

/-- **A fair run comes to its end.**  Whatever the capacities, the payload and the blocks to write,
    in a fair run in which no call on an open data channel fails hard and the helper writes only
    so much, the backend returns or raises an error. -/
theorem fair_ends (job : CopyJob) (setupCap errCap dataCap : ℕ+) (payload : Bytes)
    (todo : Option (List Bytes)) {s : ℕ → System} {k : ℕ → Kind}
    (hstart : s 0 = .start setupCap errCap dataCap payload todo) (hfair : Fair job s k)
    (hsoft : ∀ i, ¬ FailsOpen job (k i) (s i) (s (i + 1))) {bound : ℕ}
    (herr : ∀ i, (s i).err.sent.length ≤ bound)
    (hout : job.cmd ≠ .insert → ∀ i, (s i).data.sent.length ≤ bound) : ∃ i, (s i).Over := by
  by_contra hover
  have hend : Endless (Step job) s k := hfair.endless fun i hi => hover ⟨i, hi⟩
  have hlive : ∀ i, Live job (s i) := by
    intro i
    induction i with
    | zero =>
      rw [hstart]
      exact .start job setupCap errCap dataCap payload todo
    | succ i ih => exact ih.step (hend i) (hsoft i)
  have hshut : ∀ i, (s i).backend.pc.Shut job.cmd (s i) := by
    refine hend.invariant (I := fun a => a.backend.pc.Shut job.cmd a) ?_ fun _ _ _ ha hstep =>
      hstep.shut ha
    rw [hstart]
    trivial
  have hhanded : ∀ i, Program.Handed payload (s i) := by
    refine hend.invariant (I := Program.Handed payload) ?_ fun _ _ _ ha hstep => hstep.handed ha
    rw [hstart]
    exact .start setupCap errCap dataCap payload todo
  -- what is written to the data channel is bounded, in either direction
  have hdata : ∀ i, (s i).data.sent.length ≤ bound + (todo.getD []).flatten.length := by
    intro i
    by_cases hcmd : job.cmd = .insert
    · have hunsent : ∀ i, (s i).data.sent.length + (s i).backend.unsent
          ≤ (todo.getD []).flatten.length := by
        intro i
        induction i with
        | zero =>
          rw [hstart]
          exact Nat.le_of_eq (by simp [System.start, BackendState.unsent, BackendPc.left]; rfl)
        | succ i ih =>
          exact ((hend i).unsent_le hcmd (hlive i).helper (hshut i)).trans ih
      have hi := hunsent i
      omega
    · exact (hout hcmd i).trans (Nat.le_add_right _ _)
  -- so in the end nothing is done any more, nor can be
  have hquiet : ∀ᶠ i in atTop, (k i).counts = false := by
    refine hend.settles (I := fun a => a.backend.pc.Shut job.cmd a) (System.gained job.cmd)
      (hshut 0) (fun _ _ _ ha hstep => hstep.shut ha) (fun _ _ _ ha hstep => hstep.gain ha)
      (b := 2 * payload.length + 2 * bound + 3 * (bound + (todo.getD []).flatten.length) + 18) ?_
    intro i
    have hle := System.gained_le job.cmd (hhanded i)
    have herri := herr i
    have hdatai := hdata i
    omega
  obtain ⟨N, hN⟩ := eventually_atTop.mp hquiet
  obtain ⟨L, hL⟩ := eventually_atTop.mp (gives_up hfair.work hquiet)
  obtain ⟨M, hM, hturn⟩ := only_turns hend fun i (hi : max N L ≤ i) => hN i (by omega)
  -- but the backend passes the place where something can be done
  obtain ⟨t, hrun, hworks⟩ := (hlive M).canWork (fun h => hover ⟨M, Or.inl h⟩)
    fun h => hover ⟨M, Or.inr h⟩
  obtain ⟨n, rfl⟩ := turns_of_run hrun
  obtain ⟨i, hi, hat⟩ := turns_visit hfair hturn n
  rw [← hat] at hworks
  exact hL i (by omega) hworks

/-- Once both have ended there is nothing to do. -/
theorem not_works_of_over (hover : s.Over) (hgone : s.helper.alive = false) : ¬ Works job s := by
  rintro ⟨t, hstep⟩
  cases hstep with
  | helper h =>
    rw [h.alive_of] at hgone
    cases hgone
  | backend h => rcases hover with hover | hover <;> cases h <;> simp_all

/-- A run to the end of both is fair. -/
theorem fair_of_trace {s t : System} {ks : List Kind} (h : Trace (Step job) s ks t)
    (hover : t.Over) (hgone : t.helper.alive = false) :
    ∃ (f : ℕ → System) (l : ℕ → Kind), f 0 = s ∧ Fair job f l ∧
      (∀ i, ks.length ≤ i → f i = t) ∧ ∀ i, l i ∈ ks ∨ l i = .work := by
  obtain ⟨f, l, hzero, hbehaviour, hlast, hkinds⟩ := h.behaviour hover .work
  refine ⟨f, l, hzero, ⟨hbehaviour, fun hoften => ?_, fun n u hloop => ?_⟩, hlast, hkinds⟩
  · obtain ⟨i, hi, hworks⟩ := frequently_atTop.mp hoften ks.length
    rw [hlast i hi] at hworks
    exact absurd hworks (not_works_of_over hover hgone)
  · refine ⟨max n ks.length, le_max_left _ _, ?_⟩
    rw [hlast _ (le_max_right _ _)]
    rcases hover with hover | hover <;> rcases hloop with hloop | hloop | hloop <;>
      simp [hover, hloop]

theorem fair_ends_empty :
    ∃ (s : ℕ → System) (k : ℕ → Kind), s 0 = .start 1 1 1 (lit "S") none ∧ Fair fourBytes s k ∧
      ∃ i, (s i).Over := by
  obtain ⟨t, htrace, hreturned, hended, -⟩ := trace_empty
  have hgone : t.helper.alive = false := by
    unfold HelperState.alive
    rw [hended]
  obtain ⟨s, k, hstart, hfair, hlast, hkinds⟩ := fair_of_trace htrace (Or.inl hreturned) hgone
  have hsoft : ∀ i, ¬ FailsOpen fourBytes (k i) (s i) (s (i + 1)) := by
    rintro i ⟨hhard, -⟩
    have hmem := hkinds i
    rw [hhard] at hmem
    revert hmem
    decide
  -- it has only so many states
  obtain ⟨bound, hbound⟩ :
      ∃ bound, ∀ i, (s i).err.sent.length + (s i).data.sent.length ≤ bound := by
    refine ⟨(Finset.range (emptyKinds.length + 1)).sup fun i =>
      (s i).err.sent.length + (s i).data.sent.length, fun i => ?_⟩
    by_cases hi : i ≤ emptyKinds.length
    · exact Finset.le_sup (f := fun i => (s i).err.sent.length + (s i).data.sent.length)
        (Finset.mem_range.mpr (by omega))
    · have hle := Finset.le_sup (f := fun i => (s i).err.sent.length + (s i).data.sent.length)
        (Finset.mem_range.mpr (Nat.lt_succ_self emptyKinds.length))
      rw [hlast _ (le_refl _)] at hle
      rw [hlast i (by omega)]
      exact hle
  exact ⟨s, k, hstart, hfair, fair_ends fourBytes 1 1 1 (lit "S") none hstart hfair hsoft
    (fun i => (Nat.le_add_right _ _).trans (hbound i))
    fun _ i => (Nat.le_add_left _ _).trans (hbound i)⟩

end PgChdb
