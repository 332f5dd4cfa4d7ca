import PgChdb.Helper.Process

namespace PgChdb.Process

open CText Descriptors Machine

/-!
# What the functions of `helper.c` keep

Between them the functions that run after the fork do little to the process: they use answers
and interrupts up, read, fill the capture, close a descriptor and reap the helper.  An
invariant these keep is kept by every one of the functions, whichever way it ends.

* `ends_nextAnswer`, `ends_sysRead`, `ends_allocate`, `ends_forever` — how the calls and the
  loops end;
* `Quiet` — invariants that `drain_err` and with it the loops keep, `Steady` — those that
  reaping the helper keeps as well, with a lemma for each function.
-/

/-! ### How calls and loops end -/

section
variable {w : World} {E : Stop → World → Prop}

theorem ends_nextAnswer {Q : Answer → World → Prop} (hcut : w.answers = [] → E .cut w)
    (hanswer : ∀ a answers, w.answers = a :: answers → Q a { w with answers }) :
    Ends nextAnswer w Q E := by
  unfold Ends nextAnswer
  cases hw : w.answers with
  | nil => exact hcut hw
  | cons a answers => exact hanswer a answers hw

theorem ends_checkForInterrupts {Q : Unit → World → Prop} (hnone : w.interrupts = [] → Q () w)
    (hpass : ∀ interrupts, w.interrupts = false :: interrupts → Q () { w with interrupts })
    (hraise : ∀ interrupts, w.interrupts = true :: interrupts →
      E .canceled { w with interrupts }) : Ends checkForInterrupts w Q E := by
  unfold Ends checkForInterrupts
  cases hw : w.interrupts with
  | nil => exact hnone hw
  | cons raises interrupts =>
    cases raises with
    | true => exact hraise interrupts hw
    | false => exact hpass interrupts hw

theorem ends_sysRead {fd : ℤ} {len : ℕ} {Q : Except Errno Bytes → World → Prop}
    (hclosed : w.table.entry fd = none → Q (.error .ebadf) w)
    (hcut : w.answers = [] → E .cut w)
    (herror : ∀ errno answers, w.answers = .error errno :: answers →
      Q (.error errno) { w with answers })
    (hread : ∀ e n answers, w.table.entry fd = some e → w.answers = .ok n :: answers →
      Q (.ok ((w.unread e.file).take (min (n + 1) len)))
        { w with
          answers
          unread := Function.update w.unread e.file
            ((w.unread e.file).drop (min (n + 1) len)) }) :
    Ends (sysRead fd len) w Q E := by
  unfold sysRead
  rw [ends_bind, ends_get]
  cases hfd : w.table.entry fd with
  | none => exact hclosed hfd
  | some e =>
    simp only [ends_bind]
    refine ends_nextAnswer hcut fun a answers ha => ?_
    cases a with
    | error errno => exact herror errno answers ha
    | ok n => exact hread e n answers hfd ha

theorem ends_sysRead_closed {fd : ℤ} {len : ℕ} {Q : Except Errno Bytes → World → Prop}
    (h : w.table.entry fd = none) (hQ : Q (.error .ebadf) w) : Ends (sysRead fd len) w Q E := by
  unfold sysRead
  rw [ends_bind, ends_get, h]
  exact hQ

theorem ends_allocate {sys : Sys} {low : ℤ} {file : OpenFile} {Q : Except Errno ℤ → World → Prop}
    (hnone : Q (.error .emfile) w)
    (hsome : ∀ (fd : ℤ) (hfd : 0 ≤ fd), low ≤ fd → w.table.entry fd = none →
      Q (.ok fd) { w with table := w.table.put fd hfd ⟨file, false⟩ }) :
    Ends (allocate sys low file) w Q E := by
  unfold Ends allocate
  split
  · rename_i a t hr
    split at hr
    · cases hr
      exact hnone
    · rename_i fd hfree
      obtain ⟨hlow, hfd, hentry⟩ := sys.alloc.spec _ _ _ hfree
      cases hr
      exact hsome fd hfd hlow hentry
  · rename_i e t hr
    split at hr <;> cases hr

/-- A loop goes on until one of its turns ends it. -/
theorem ends_forever {α β : Type} {body : β → Run (β ⊕ α)} {b : β} {Q : α → World → Prop}
    (I : β → World → Prop)
    (turn : ∀ b w, I b w → Ends (body b) w (fun r w' =>
      match r with
      | .inl b => I b w' ∧ w'.answers.length < w.answers.length
      | .inr a => Q a w') E) (h : I b w) : Ends (forever body b) w Q E := by
  unfold forever
  rw [ends_bind, ends_get]
  exact Ends.loop_of_decreasing I (fun w => w.answers.length) turn (Nat.lt_succ_self _) h

end

/-! ### Invariants -/

/-- An invariant that `drain_err` does not break. -/
structure Quiet (I : World → Prop) : Prop where
  answers : ∀ w answers, I w → I { w with answers }
  interrupts : ∀ w interrupts, I w → I { w with interrupts }
  readErr : ∀ w e k, I w → w.table.entry (w.h.fd .err) = some e →
    I { w with unread := Function.update w.unread e.file ((w.unread e.file).drop k) }
  capture : ∀ w capture, I w → I { w with h := { w.h with capture } }
  closeErr : Keeps I (closeFd .err)

/-- One that neither another closed descriptor nor reaping the helper breaks. -/
structure Steady (I : World → Prop) : Prop extends Quiet I where
  close : ∀ f, Keeps I (closeFd f)
  reap : Keeps I reap

theorem keepForever {I : World → Prop} {α β : Type} {body : β → Run (β ⊕ α)}
    (hbody : ∀ b, Keeps I (body b)) (b : β) : Keeps I (forever body b) :=
  Keeps.state.bind fun _ => Keeps.loop hbody _ b

namespace Quiet
variable {I : World → Prop}

theorem nextAnswer (hI : Quiet I) : Keeps I nextAnswer := fun w hw =>
  ends_nextAnswer (fun _ => hw) fun _ answers _ => hI.answers w answers hw

theorem checkForInterrupts (hI : Quiet I) : Keeps I checkForInterrupts := fun w hw =>
  ends_checkForInterrupts (fun _ => hw) (fun interrupts _ => hI.interrupts w interrupts hw)
    (fun interrupts _ => hI.interrupts w interrupts hw)

theorem sysWrite (hI : Quiet I) (fd : ℤ) (p : Bytes) : Keeps I (sysWrite fd p) := by
  refine Keeps.state.bind fun w => ?_
  cases w.table.entry fd with
  | none => exact Keeps.pure _
  | some e =>
    refine hI.nextAnswer.bind fun a => ?_
    cases a <;> exact Keeps.pure _

theorem drainErr (hI : Quiet I) : Keeps I drainErr := by
  refine keepForever (fun _ w hw => ?_) ()
  unfold drainTurn
  rw [ends_bind, ends_get]
  have hturn : Ends (sysRead (w.h.fd .err)
      (if w.h.capture.room = 0 then chdbHelperErrMax else w.h.capture.room)) w
      (fun _ => I) (fun _ => I) :=
    ends_sysRead (fun _ => hw) (fun _ => hw) (fun _ answers _ => hI.answers w answers hw)
      fun e n answers he _ => hI.readErr _ e _ (hI.answers w answers hw) he
  by_cases hfd : w.h.fd .err < 0
  · rw [if_pos hfd]
    exact hw
  · rw [if_neg hfd, ends_bind]
    refine hturn.imp fun r w' hw' => ?_
    cases r with
    | ok got =>
      refine Keeps.ite (fun _ => ?_) (fun _ => ?_) w' hw'
      · exact hI.closeErr.bind fun _ => Keeps.pure _
      · exact (Keeps.update fun w => hI.capture w _).bind fun _ => Keeps.pure _
    | error errno => exact Keeps.ite (fun _ => Keeps.pure _) (fun _ => Keeps.pure _) w' hw'

theorem writeAll (hI : Quiet I) (fd : ℤ) (p : Bytes) : Keeps I (writeAll fd p) := by
  refine keepForever (fun p => Keeps.ite (fun _ => Keeps.pure _) fun _ => ?_) p
  refine hI.checkForInterrupts.bind fun _ => (hI.sysWrite fd p).bind fun r => ?_
  cases r with
  | ok put => exact Keeps.pure _
  | error errno =>
    refine Keeps.ite (fun _ => ?_) fun _ => Keeps.ite (fun _ => Keeps.pure _) fun _ => Keeps.pure _
    exact hI.drainErr.bind fun _ => (Keeps.pure _).bind fun _ => Keeps.pure _

end Quiet

namespace Steady
variable {I : World → Prop}

theorem drainAndReap (hI : Steady I) : Keeps I drainAndReap := by
  refine Keeps.bind (keepForever (fun _ => ?_) ()) fun _ => hI.reap
  refine Keeps.state.bind fun w => Keeps.ite (fun _ => Keeps.pure _) fun _ => ?_
  refine hI.toQuiet.checkForInterrupts.bind fun _ => ?_
  refine hI.toQuiet.drainErr.bind fun _ => Keeps.state.bind fun w => ?_
  exact Keeps.ite (fun _ => (Keeps.pure _).bind fun _ => Keeps.pure _) fun _ => Keeps.pure _

/-- A report does not come back. -/
theorem reportHelper_ends (hI : Steady I) {α : Type} (sys : Sys) (what : Bytes) {w : World}
    (hw : I w) : Ends (reportHelper sys what : Run α) w (fun _ _ => False) (fun _ => I) := by
  unfold reportHelper
  refine (hI.drainAndReap w hw).seq fun _ w₁ h₁ => ?_
  simp only [ends_bind]
  have hdetail : Keeps I (takeHelperError sys) :=
    Keeps.state.bind fun w => (Keeps.update fun w => hI.capture w _).bind fun _ => Keeps.pure _
  refine (hdetail w₁ h₁).imp fun detail w₂ h₂ => ?_
  rw [ends_get]
  split <;> exact h₂

theorem reportHelper (hI : Steady I) {α : Type} (sys : Sys) (what : Bytes) :
    Keeps I (reportHelper sys what : Run α) := fun _ hw =>
  (hI.reportHelper_ends sys what hw).imp fun _ _ hf => hf.elim

theorem writeSetup (hI : Steady I) (sys : Sys) (payload : Bytes) :
    Keeps I (writeSetup sys payload) := by
  refine Keeps.state.bind fun w => (hI.toQuiet.writeAll _ _).bind fun r => ?_
  cases r with
  | none => exact hI.close .setup
  | some errno => exact Keeps.ite (fun _ => hI.reportHelper sys _) fun _ => Keeps.stop _

theorem chdbHelperRecv (hI : Steady I) (hdata : ∀ w e k, I w →
      w.table.entry (w.h.fd .data) = some e →
      I { w with unread := Function.update w.unread e.file ((w.unread e.file).drop k) })
    (sys : Sys) (len : ℕ) : Keeps I (chdbHelperRecv sys len) := by
  refine keepForever (fun _ => hI.toQuiet.checkForInterrupts.bind fun _ w hw => ?_) ()
  rw [ends_bind, ends_get, ends_bind]
  have hread : Ends (sysRead (w.h.fd .data) len) w (fun _ => I) (fun _ => I) :=
    ends_sysRead (fun _ => hw) (fun _ => hw) (fun _ answers _ => hI.answers w answers hw)
      fun e n answers he _ => hdata _ e _ (hI.answers w answers hw) he
  refine hread.imp fun r w' hw' => ?_
  cases r with
  | ok got =>
    refine Keeps.ite (fun _ => ?_) (fun _ => Keeps.pure _) w' hw'
    refine (hI.close .data).bind fun _ => hI.drainAndReap.bind fun _ => ?_
    exact Keeps.ite (fun _ => Keeps.pure _) fun _ => hI.reportHelper sys _
  | error errno =>
    refine Keeps.ite (fun _ => ?_) (fun _ => Keeps.ite (fun _ => Keeps.pure _) fun _ =>
      hI.reportHelper sys _) w' hw'
    exact hI.toQuiet.drainErr.bind fun _ => (Keeps.pure _).bind fun _ => Keeps.pure _

theorem chdbHelperWrite (hI : Steady I) (sys : Sys) (p : Bytes) :
    Keeps I (chdbHelperWrite sys p) := by
  refine Keeps.state.bind fun w => (hI.toQuiet.writeAll _ _).bind fun r => ?_
  cases r with
  | none => exact Keeps.pure _
  | some errno => exact hI.reportHelper sys _

theorem chdbHelperFinish (hI : Steady I) (sys : Sys) : Keeps I (chdbHelperFinish sys) := by
  refine (hI.close .data).bind fun _ => hI.drainAndReap.bind fun _ => ?_
  exact Keeps.ite (fun _ => Keeps.pure _) fun _ => hI.reportHelper sys _

end Steady

theorem steady_true : Steady fun _ => True where
  answers _ _ h := h
  interrupts _ _ h := h
  readErr _ _ _ h _ := h
  capture _ _ h := h
  closeErr := Keeps.true _
  close _ := Keeps.true _
  reap := Keeps.true _

theorem reportHelper_never {α : Type} (sys : Sys) (what : Bytes) (w : World) :
    Ends (reportHelper sys what : Run α) w (fun _ _ => False) (fun _ _ => True) :=
  steady_true.reportHelper_ends sys what trivial

/-- When `write_setup` comes back, it has made no report. -/
theorem Quiet.writeSetup {I : World → Prop} (hI : Quiet I) (hsetup : Keeps I (closeFd .setup))
    (sys : Sys) (payload : Bytes) {w : World} (hw : I w) :
    Ends (writeSetup sys payload) w (fun _ => I) (fun _ _ => True) := by
  unfold PgChdb.Process.writeSetup
  rw [ends_bind, ends_get, ends_bind]
  refine (hI.writeAll _ _ w hw).mono (fun r w' hw' => ?_) fun _ _ _ => trivial
  cases r with
  | none => exact (hsetup w' hw').mono (fun _ _ h => h) fun _ _ _ => trivial
  | some errno =>
    show Ends (if _ then _ else _) _ _ _
    split
    · exact (reportHelper_never sys _ w').mono (fun _ _ hf => hf.elim) fun _ _ _ => trivial
    · exact trivial

end PgChdb.Process
