import PgChdb.Helper.Steady
import Mathlib.Data.List.Nodup

namespace PgChdb.Process

open CText Descriptors Machine

/-!
# Descriptors and the child are released once

`h` owns what `chdb_helper_start` opens and forks from the moment it has it, and every function
that closes or reaps something takes it out of `h` again.  So `stop_helper`, which is called
for a helper in whatever state an error left it in, releases what is left and nothing else.

* `ledger`, `childLedger` — the accounts of a run: they have no value once a descriptor is
  closed that is not open, or a process that is not the helper's, or no longer, is killed or
  waited for;
* `Owned`, `Owns` — the account shows what `h` holds, and the rest of the descriptor table is
  the backend's;
* `life`, `Released` — a helper from its start on, and a run that ends with everything released;
* `life_released` — `stop_helper` ends any prefix of any life like that.
-/

/-! ### Accounts -/

/-- The descriptors a call leaves open. -/
def ledgerStep (held : List ℤ) : SysCall → Option (List ℤ)
  | .opened fd => if fd ∈ held then none else some (fd :: held)
  | .closed fd => if fd ∈ held then some (held.erase fd) else none
  | _ => some held

/-- The descriptors a run leaves open, if it has closed none that was not. -/
def ledger (log : List SysCall) : Option (List ℤ) := log.foldlM ledgerStep []

/-- What has become of the child. -/
inductive Child where
  | none
  | running (pid : ℤ)
  | killed (pid : ℤ)
  | reaped (pid : ℤ)
  deriving DecidableEq, Repr

/-- What a call makes of the child: one process is forked, killed at most once with `SIGKILL`,
    and waited for once. -/
def childStep : Child → SysCall → Option Child
  | .none, .forked pid => if 0 < pid then some (.running pid) else Option.none
  | .running pid, .killed p sig => if p = pid ∧ sig = sigkill then some (.killed pid) else Option.none
  | .running pid, .waited p => if p = pid then some (.reaped pid) else Option.none
  | .killed pid, .waited p => if p = pid then some (.reaped pid) else Option.none
  | _, .forked _ => Option.none
  | _, .killed _ _ => Option.none
  | _, .waited _ => Option.none
  | c, _ => some c

/-- What a run makes of the child. -/
def childLedger (log : List SysCall) : Option Child := log.foldlM childStep .none

theorem ledger_concat (log : List SysCall) (call : SysCall) :
    ledger (log ++ [call]) = (ledger log).bind fun held => ledgerStep held call := by
  simp [ledger, List.foldlM_append]

theorem childLedger_concat (log : List SysCall) (call : SysCall) :
    childLedger (log ++ [call]) = (childLedger log).bind fun c => childStep c call := by
  simp [childLedger, List.foldlM_append]

/-! ### What the helper owns -/

/-- What `h` says of the child. -/
def childOf (pid : ℤ) (reaped : Bool) : Child :=
  if 0 < pid then (if reaped then .reaped pid else .running pid) else .none

/-- The descriptors in `h` are open and are all that was opened and not closed; `before` is the
    table of the rest. -/
structure Owned (before : Table OpenFile) (fd : FdField → ℤ) (table : Table OpenFile)
    (log : List SysCall) : Prop where
  fresh : ∀ f, 0 ≤ fd f → before.entry (fd f) = none
  isOpen : ∀ f, 0 ≤ fd f → (table.entry (fd f)).map Entry.file = some f.file
  distinct : ∀ f g, 0 ≤ fd f → fd f = fd g → f = g
  rest : ∀ n, 0 ≤ n → (∀ f, fd f ≠ n) → table.entry n = before.entry n
  held : ∃ held, ledger log = some held ∧ held.Nodup ∧ ∀ n, n ∈ held ↔ 0 ≤ n ∧ ∃ f, fd f = n

/-- The invariant of a helper's life. -/
def Owns (before : Table OpenFile) (w : World) : Prop :=
  Owned before w.h.fd w.table w.log ∧ childLedger w.log = some (childOf w.h.pid w.h.reaped)

/-- The same once it is forked. -/
def OwnsChild (before : Table OpenFile) (w : World) : Prop := Owns before w ∧ 0 < w.h.pid

/-- Everything opened is closed, once, and the child, if there is one, has been waited for. -/
structure Released (before : Table OpenFile) (w : World) : Prop where
  descriptors : ledger w.log = some []
  table : w.table = before
  child : childLedger w.log = some .none ∨ ∃ pid, 0 < pid ∧ childLedger w.log = some (.reaped pid)

/-- Closing a descriptor takes it out of the account. -/
theorem Owned.close {before table : Table OpenFile} {fd : FdField → ℤ} {log : List SysCall}
    (h : Owned before fd table log) {f : FdField} (hf : 0 ≤ fd f) :
    Owned before (Function.update fd f (-1)) (table.close (fd f)) (log ++ [.closed (fd f)]) := by
  have hother : ∀ g n, 0 ≤ n → (Function.update fd f (-1) g = n ↔ fd g = n ∧ g ≠ f) := by
    intro g n hn
    by_cases hg : g = f
    · subst hg
      simp only [Function.update_self, ne_eq, not_true_eq_false, and_false, iff_false]
      omega
    · simp [hg]
  refine ⟨fun g hg => ?_, fun g hg => ?_, fun g g' hg he => ?_, fun n hn hfree => ?_, ?_⟩
  · obtain ⟨hfd, _⟩ := (hother g _ hg).mp rfl
    rw [← hfd] at hg ⊢
    exact h.fresh g hg
  · obtain ⟨hfd, hgf⟩ := (hother g _ hg).mp rfl
    rw [← hfd] at hg ⊢
    rw [Table.entry_close, if_neg fun he => hgf (h.distinct g f hg he)]
    exact h.isOpen g hg
  · obtain ⟨hfd, _⟩ := (hother g _ hg).mp rfl
    obtain ⟨hfd', _⟩ := (hother g' _ hg).mp he.symm
    exact h.distinct g g' (hfd ▸ hg) (hfd.trans hfd'.symm)
  · rw [Table.entry_close]
    by_cases hnf : n = fd f
    · rw [if_pos hnf, hnf, h.fresh f hf]
    · rw [if_neg hnf]
      refine h.rest n hn fun g hg => hfree g ((hother g n hn).mpr ⟨hg, ?_⟩)
      rintro rfl
      exact hnf hg.symm
  · obtain ⟨held, hledger, hnodup, hmem⟩ := h.held
    have hin : fd f ∈ held := (hmem _).mpr ⟨hf, f, rfl⟩
    refine ⟨held.erase (fd f), ?_, hnodup.erase _, fun n => ?_⟩
    · rw [ledger_concat, hledger, Option.bind_some, ledgerStep, if_pos hin]
    · rw [hnodup.mem_erase_iff, hmem]
      constructor
      · rintro ⟨hne, hn, g, hg⟩
        refine ⟨hn, g, (hother g n hn).mpr ⟨hg, ?_⟩⟩
        rintro rfl
        exact hne hg.symm
      · rintro ⟨hn, g, hg⟩
        obtain ⟨hgn, hgf⟩ := (hother g n hn).mp hg
        refine ⟨?_, hn, g, hgn⟩
        rintro rfl
        exact hgf (h.distinct g f (hgn ▸ hn) hgn)

/-- With nothing left in `h`, nothing is left open. -/
theorem Owned.released {before table : Table OpenFile} {fd : FdField → ℤ} {log : List SysCall}
    (h : Owned before fd table log) (hfd : ∀ f, fd f < 0) : ledger log = some [] ∧ table = before := by
  constructor
  · obtain ⟨held, hledger, -, hmem⟩ := h.held
    have hnil : held = [] := by
      apply List.eq_nil_iff_forall_not_mem.mpr
      intro n hn
      obtain ⟨hpos, f, rfl⟩ := (hmem n).mp hn
      have hneg := hfd f
      omega
    rw [hledger, hnil]
  · ext1
    funext n
    by_cases hn : n < 0
    · rw [Table.entry_of_neg _ hn, Table.entry_of_neg _ hn]
    · refine h.rest n (by omega) fun f hf => ?_
      have hneg := hfd f
      omega

/-- A new descriptor is put into a field that had none. -/
theorem Owned.open {before table : Table OpenFile} {fd : FdField → ℤ} {log : List SysCall}
    (h : Owned before fd table log) {f : FdField} (hf : fd f < 0) {n : ℤ} (hn : 0 ≤ n)
    (hfree : table.entry n = none) (cloexec : Bool) :
    Owned before (Function.update fd f n) (table.put n hn ⟨f.file, cloexec⟩)
      (log ++ [.opened n]) := by
  have hfields : ∀ g, fd g ≠ n := by
    rintro g rfl
    have hopen := h.isOpen g hn
    rw [hfree] at hopen
    cases hopen
  have hnew : ∀ g m, 0 ≤ m → (Function.update fd f n g = m ↔ fd g = m ∨ g = f ∧ m = n) := by
    intro g m hm
    by_cases hg : g = f
    · subst hg
      simp only [Function.update_self, true_and]
      omega
    · simp [hg]
  have hbefore : before.entry n = none := by rw [← h.rest n hn hfields, hfree]
  refine ⟨fun g hg => ?_, fun g hg => ?_, fun g g' hg he => ?_, fun m hm hother => ?_, ?_⟩
  · rcases (hnew g _ hg).mp rfl with hfd | ⟨rfl, hfd⟩
    · rw [← hfd] at hg ⊢
      exact h.fresh g hg
    · rw [hfd, hbefore]
  · rcases (hnew g _ hg).mp rfl with hfd | ⟨rfl, hfd⟩
    · rw [← hfd] at hg ⊢
      rw [Table.entry_put, if_neg (hfields g)]
      exact h.isOpen g hg
    · rw [hfd, Table.entry_put, if_pos rfl]
      rfl
  · rcases (hnew g _ hg).mp rfl with hfd | ⟨rfl, hfd⟩
    · rcases (hnew g' _ hg).mp he.symm with hfd' | ⟨rfl, hfd'⟩
      · exact h.distinct g g' (hfd ▸ hg) (hfd.trans hfd'.symm)
      · exact absurd (hfd.trans hfd') (hfields g)
    · rcases (hnew g' _ hg).mp he.symm with hfd' | ⟨rfl, hfd'⟩
      · exact absurd (hfd'.trans hfd) (hfields g')
      · rfl
  · have hmn : m ≠ n := by
      rintro rfl
      exact hother f (Function.update_self ..)
    rw [Table.entry_put, if_neg hmn]
    exact h.rest m hm fun g hg => hother g ((hnew g m hm).mpr (Or.inl hg))
  · obtain ⟨held, hledger, hnodup, hmem⟩ := h.held
    have hnot : n ∉ held := by
      intro hin
      obtain ⟨_, g, hg⟩ := (hmem n).mp hin
      exact hfields g hg
    refine ⟨n :: held, ?_, List.nodup_cons.mpr ⟨hnot, hnodup⟩, fun m => ?_⟩
    · rw [ledger_concat, hledger, Option.bind_some, ledgerStep, if_neg hnot]
    · rw [List.mem_cons, hmem]
      constructor
      · rintro (rfl | ⟨hm, g, hg⟩)
        · exact ⟨hn, f, Function.update_self ..⟩
        · exact ⟨hm, g, (hnew g m hm).mpr (Or.inl hg)⟩
      · rintro ⟨hm, g, hg⟩
        rcases (hnew g m hm).mp hg with hg | ⟨-, rfl⟩
        · exact Or.inr ⟨hm, g, hg⟩
        · exact Or.inl rfl

theorem Owned.setCloexec {before table : Table OpenFile} {fd : FdField → ℤ} {log : List SysCall}
    (h : Owned before fd table log) (f : FdField) (b : Bool) :
    Owned before fd (table.setCloexec (fd f) b) log := by
  refine ⟨h.fresh, fun g hg => ?_, h.distinct, fun n hn hfree => ?_, h.held⟩
  · have hopen := h.isOpen g hg
    rw [Table.entry_setCloexec]
    split
    · rw [Option.map_map]
      exact hopen
    · exact hopen
  · rw [Table.entry_setCloexec, if_neg fun he => hfree f he.symm]
    exact h.rest n hn hfree

/-! ### The functions keep it -/

section
variable {before : Table OpenFile} {w : World} {E : Stop → World → Prop}

/-- The two differ in nothing but descriptors. -/
structure SameButFds (w w' : World) : Prop where
  pid : w'.h.pid = w.h.pid
  reaped : w'.h.reaped = w.h.reaped
  status : w'.h.status = w.h.status
  answers : w'.answers = w.answers
  interrupts : w'.interrupts = w.interrupts
  unread : w'.unread = w.unread
  exit : w'.exit = w.exit

theorem closeFd_same (f : FdField) : Ends (closeFd f) w (fun _ w' => SameButFds w w') E := by
  unfold closeFd
  rw [ends_bind, ends_get]
  by_cases hf : 0 ≤ w.h.fd f
  · rw [if_pos hf]
    exact ⟨rfl, rfl, rfl, rfl, rfl, rfl, rfl⟩
  · rw [if_neg hf]
    exact ⟨rfl, rfl, rfl, rfl, rfl, rfl, rfl⟩

/-- What `close_fd` leaves: the field is closed, and nothing else has changed in `h`. -/
theorem closeFd_owns (h : Owns before w) (f : FdField) :
    Ends (closeFd f) w (fun _ w' => Owns before w' ∧ w'.h.fd f < 0 ∧
      (∀ g, g ≠ f → w'.h.fd g = w.h.fd g) ∧ w'.h.pid = w.h.pid ∧ w'.h.reaped = w.h.reaped ∧
      w'.answers = w.answers) E := by
  unfold closeFd
  rw [ends_bind, ends_get]
  by_cases hf : 0 ≤ w.h.fd f
  · rw [if_pos hf]
    refine ⟨⟨h.1.close hf, ?_⟩, ?_, fun g hg => ?_, rfl, rfl, rfl⟩
    · show childLedger (w.log ++ [.closed (w.h.fd f)]) = some (childOf w.h.pid w.h.reaped)
      rw [childLedger_concat, h.2, Option.bind_some]
      cases childOf w.h.pid w.h.reaped <;> rfl
    · show Function.update w.h.fd f (-1) f < 0
      rw [Function.update_self]
      decide
    · exact Function.update_of_ne hg _ _
  · rw [if_neg hf]
    exact ⟨h, by omega, fun _ _ => rfl, rfl, rfl, rfl⟩

/-- `waitpid` gives up only for an answer that is not an interrupt. -/
def Interrupted (a : Answer) : Prop := a = .error .eintr ∨ a = .error .eagain

theorem ends_sysWaitpid {pid : ℤ} {Q : Except Errno WaitStatus → World → Prop}
    (hcut : w.answers = [] → E .cut w)
    (hintr : ∀ a answers, w.answers = a :: answers → Interrupted a →
      Q (.error .eintr) { w with answers })
    (hend : ∀ a answers r, w.answers = a :: answers → ¬ Interrupted a →
      r = a.map (fun _ => w.exit) → Q r { w with answers, log := w.log ++ [.waited pid] }) :
    Ends (sysWaitpid pid) w Q E := by
  unfold sysWaitpid
  rw [ends_bind]
  refine ends_nextAnswer hcut fun a answers ha => ?_
  cases a with
  | ok n => exact hend _ answers (.ok w.exit) ha (by simp [Interrupted]) rfl
  | error errno =>
    by_cases hi : errno = .eintr ∨ errno = .eagain
    · show Ends (if _ then _ else _) _ Q E
      rw [if_pos hi]
      refine hintr _ answers ha ?_
      rcases hi with rfl | rfl
      · exact Or.inl rfl
      · exact Or.inr rfl
    · show Ends (if _ then _ else _) _ Q E
      rw [if_neg hi]
      refine hend _ answers _ ha (fun hint => hi ?_) rfl
      rcases hint with hint | hint
      · exact Or.inl (by simpa using hint)
      · exact Or.inr (by simpa using hint)

/-- `reap` waits for the child, if that has not happened, and does not come back only as long as
    it is interrupted.  The child may have been killed before. -/
theorem reap_ends (hown : Owned before w.h.fd w.table w.log)
    (hrun : w.h.reaped = false → childLedger w.log = some (.running w.h.pid) ∨
      childLedger w.log = some (.killed w.h.pid))
    (hdone : w.h.reaped = true → childLedger w.log = some (.reaped w.h.pid)) :
    Ends reap w (fun _ w' => Owned before w'.h.fd w'.table w'.log ∧ w'.h.fd = w.h.fd ∧
        w'.h.pid = w.h.pid ∧ w'.h.reaped = true ∧ childLedger w'.log = some (.reaped w.h.pid))
      (fun e w' => e = .cut ∧ (∀ a ∈ w.answers, Interrupted a) ∧ w'.h = w.h ∧
        w'.table = w.table ∧ w'.log = w.log) := by
  unfold reap
  rw [ends_bind, ends_get]
  by_cases hreaped : w.h.reaped = true
  · rw [if_pos hreaped]
    exact ⟨hown, rfl, rfl, hreaped, hdone hreaped⟩
  · rw [if_neg hreaped]
    have hchild := hrun (by simpa using hreaped)
    have hwaited : childLedger (w.log ++ [.waited w.h.pid]) = some (.reaped w.h.pid) := by
      rcases hchild with hchild | hchild <;>
        rw [childLedger_concat, hchild, Option.bind_some, childStep, if_pos rfl]
    have hledger : Owned before w.h.fd w.table (w.log ++ [.waited w.h.pid]) := by
      refine ⟨hown.fresh, hown.isOpen, hown.distinct, hown.rest, ?_⟩
      obtain ⟨held, hl, hrest⟩ := hown.held
      exact ⟨held, by rw [ledger_concat, hl]; rfl, hrest⟩
    rw [ends_bind]
    refine ends_forever (fun _ w' => w'.h = w.h ∧ w'.table = w.table ∧ w'.log = w.log ∧
      ∃ used, w.answers = used ++ w'.answers ∧ ∀ a ∈ used, Interrupted a) ?_
      ⟨rfl, rfl, rfl, [], rfl, nofun⟩
    rintro - w' ⟨hh, ht, hl, used, hused, hint⟩
    unfold reapTurn
    rw [ends_bind, ends_get, ends_bind, hh]
    refine ends_sysWaitpid ?_ ?_ ?_
    · intro hnil
      rw [hnil, List.append_nil] at hused
      exact ⟨rfl, hused ▸ hint, hh, ht, hl⟩
    · intro a answers ha hia
      show _ ∧ answers.length < w'.answers.length
      refine ⟨⟨hh, ht, hl, used ++ [a], ?_, ?_⟩, ?_⟩
      · rw [hused, ha]; simp
      · intro b hb
        rcases List.mem_append.mp hb with hb | hb
        · exact hint b hb
        · rw [List.mem_singleton.mp hb]; exact hia
      · rw [ha]; simp
    · intro a answers r ha hia hr
      have hend : Owned before w'.h.fd w'.table (w'.log ++ [.waited w.h.pid]) ∧ w'.h.fd = w.h.fd ∧
          w'.h.pid = w.h.pid ∧ childLedger (w'.log ++ [.waited w.h.pid]) = some (.reaped w.h.pid) := by
        rw [hh, ht, hl]
        exact ⟨hledger, rfl, rfl, hwaited⟩
      obtain ⟨h₁, h₂, h₃, h₄⟩ := hend
      cases a with
      | ok n =>
        subst hr
        exact ⟨h₁, h₂, h₃, rfl, h₄⟩
      | error errno =>
        subst hr
        have hne : errno ≠ .eintr := fun he => hia (Or.inl (by rw [he]))
        show Ends (if _ then _ else _) _ _ _
        rw [if_neg hne]
        exact ⟨h₁, h₂, h₃, rfl, h₄⟩

theorem closeFd_ownsChild (f : FdField) : Keeps (OwnsChild before) (closeFd f) := by
  intro w h
  refine (closeFd_owns h.1 f).imp fun _ w' hw' => ⟨hw'.1, ?_⟩
  rw [hw'.2.2.2.1]
  exact h.2

/-- Nothing done after the fork breaks the invariant. -/
theorem ownsChild_steady (before : Table OpenFile) : Steady (OwnsChild before) where
  answers _ _ h := h
  interrupts _ _ h := h
  readErr _ _ _ h _ := h
  capture _ _ h := h
  closeErr := closeFd_ownsChild .err
  close := closeFd_ownsChild
  reap w h := by
    have hpid : childOf w.h.pid w.h.reaped = if w.h.reaped then .reaped w.h.pid else .running w.h.pid :=
      if_pos h.2
    refine (reap_ends h.1.1 (fun hr => Or.inl ?_) fun hr => ?_).mono ?_ ?_
    · rw [h.1.2, hpid, hr]; rfl
    · rw [h.1.2, hpid, hr]; rfl
    · rintro - w' ⟨hown, -, hp, hr, hc⟩
      have hpos : 0 < w'.h.pid := hp ▸ h.2
      refine ⟨⟨hown, ?_⟩, hpos⟩
      rw [hc, hr, childOf, if_pos hpos, if_pos rfl, hp]
    · rintro - w' ⟨-, -, hh, ht, hl⟩
      refine ⟨⟨?_, ?_⟩, ?_⟩
      · rw [hh, ht, hl]; exact h.1.1
      · rw [hh, hl]; exact h.1.2
      · rw [hh]; exact h.2

/-- From `w` to `w'` a channel has been opened, and nothing else has changed but the schedule. -/
structure OpensChannel (before : Table OpenFile) (f g : FdField) (w w' : World) : Prop where
  owns : Owns before w'
  opened : 0 ≤ w'.h.fd f ∧ 0 ≤ w'.h.fd g
  others : ∀ k, k ≠ f → k ≠ g → w'.h.fd k = w.h.fd k
  unforked : w'.h.pid = w.h.pid ∧ w'.h.reaped = w.h.reaped
  same : w'.unread = w.unread ∧ w'.exit = w.exit

/-- Opening a channel puts both its ends into `h`, or leaves everything as it was. -/
theorem openChannel_owns (sys : Sys) (h : Owns before w) {f g : FdField} (hf : w.h.fd f < 0)
    (hg : w.h.fd g < 0) (hfg : f ≠ g) :
    Ends (openChannel sys f g) w (fun _ w' => OpensChannel before f g w w')
      (fun _ w' => Owns before w') := by
  unfold openChannel sysPair
  rw [ends_bind, ends_bind]
  refine ends_nextAnswer (fun _ => h) fun a answers _ => ?_
  cases a with
  | error errno => exact h
  | ok n =>
    dsimp only
    rw [ends_bind]
    refine ends_allocate h fun fd hfd _ hfree => ?_
    dsimp only
    rw [ends_bind]
    refine ends_allocate ?_ fun fd' hfd' _ hfree' => ?_
    · -- the second one is not to be had, and the first is given back
      show Owns before { w with answers, table := (w.table.put fd hfd _).close fd }
      rw [Table.close_put hfd _ hfree]
      exact h
    · have hfirst := h.1.open hf hfd hfree false
      have hg' : Function.update w.h.fd f fd g < 0 := by
        rw [Function.update_of_ne hfg.symm]
        exact hg
      have hboth := hfirst.open hg' hfd' hfree' false
      refine ⟨⟨hboth, ?_⟩, ⟨?_, ?_⟩, fun k hkf hkg => ?_, ⟨rfl, rfl⟩, rfl, rfl⟩
      · show childLedger (w.log ++ [.opened fd] ++ [.opened fd']) = some (childOf w.h.pid w.h.reaped)
        rw [childLedger_concat, childLedger_concat, h.2]
        cases childOf w.h.pid w.h.reaped <;> rfl
      · show 0 ≤ Function.update (Function.update w.h.fd f fd) g fd' f
        rw [Function.update_of_ne hfg, Function.update_self]
        exact hfd
      · show 0 ≤ Function.update (Function.update w.h.fd f fd) g fd' g
        rw [Function.update_self]
        exact hfd'
      · show Function.update (Function.update w.h.fd f fd) g fd' k = w.h.fd k
        rw [Function.update_of_ne hkg, Function.update_of_ne hkf]

/-- What is open at the number does not survive an exec. -/
def CloexecAt (t : Table OpenFile) (n : ℤ) : Prop := ∀ e, t.entry n = some e → e.cloexec = true

/-- The flag has been set on these descriptors. -/
def Marked (fs : List FdField) (w : World) : Prop := ∀ f ∈ fs, CloexecAt w.table (w.h.fd f)

theorem CloexecAt.setCloexec {t : Table OpenFile} {n m : ℤ} (h : n ≠ m → CloexecAt t n) :
    CloexecAt (t.setCloexec m true) n := by
  intro e he
  rw [Table.entry_setCloexec] at he
  split at he
  · obtain ⟨e', _, rfl⟩ := Option.map_eq_some_iff.mp he
    rfl
  · rename_i hne
    exact h hne e he

theorem sysOnFd_keeps {I : World → Prop} (hI : ∀ w answers, I w → I { w with answers }) (fd : ℤ) :
    Keeps I (sysOnFd fd) := by
  refine Keeps.state.bind fun w => ?_
  cases w.table.entry fd with
  | none => exact Keeps.pure _
  | some e =>
    refine Keeps.bind (fun w hw => ends_nextAnswer (fun _ => hw) fun _ answers _ => hI w answers hw)
      fun a => ?_
    cases a <;> exact Keeps.pure _

/-- The flags change nothing that is accounted for. -/
theorem setFlag_owns (sys : Sys) (h : Owns before w) (f : FdField) (flag : FdFlag) :
    Ends (setFlag sys f flag) w
      (fun _ w' => Owns before w' ∧ w'.h = w.h ∧ (w'.unread = w.unread ∧ w'.exit = w.exit) ∧
        ∀ fs, Marked fs w → Marked (if flag = .cloexec then f :: fs else fs) w')
      (fun _ w' => Owns before w') := by
  have hkeep : ∀ fd, Keeps (fun w' => Owns before w' ∧ w'.h = w.h ∧
      (w'.unread = w.unread ∧ w'.exit = w.exit) ∧ w'.table = w.table) (sysOnFd fd) :=
    sysOnFd_keeps fun _ _ hw' => hw'
  unfold setFlag
  rw [ends_bind, ends_get, ends_bind]
  refine (hkeep _ w ⟨h, rfl, ⟨rfl, rfl⟩, rfl⟩).mono (fun r w₁ hw₁ => ?_) fun _ _ he => he.1
  cases r with
  | error errno => exact hw₁.1
  | ok _ =>
    dsimp only
    rw [ends_bind]
    refine (hkeep _ w₁ hw₁).mono (fun r w₂ hw₂ => ?_) fun _ _ he => he.1
    cases r with
    | error errno => exact hw₂.1
    | ok _ =>
      show Ends (if _ then _ else _) _ _ _
      split
      · refine ⟨⟨?_, hw₂.1.2⟩, hw₂.2.1, hw₂.2.2.1, fun fs hfs g hg => ?_⟩
        · have hset := hw₂.1.1.setCloexec f true
          rw [hw₂.2.1] at hset
          show Owned before w₂.h.fd _ _
          rw [hw₂.2.1]
          exact hset
        · show CloexecAt (w₂.table.setCloexec (w.h.fd f) true) (w₂.h.fd g)
          rw [hw₂.2.1, hw₂.2.2.2]
          refine CloexecAt.setCloexec fun hne => ?_
          rcases List.mem_cons.mp hg with rfl | hg
          · exact absurd rfl hne
          · exact hfs g hg
      · refine ⟨hw₂.1, hw₂.2.1, hw₂.2.2.1, fun fs hfs g hg => ?_⟩
        rw [hw₂.2.1, hw₂.2.2.2]
        exact hfs g hg

/-! ### Its whole life -/

/-- On the way from `w` to `w'` these descriptors have been opened, and no others. -/
structure Opening (before : Table OpenFile) (done : List FdField) (w w' : World) : Prop where
  owns : Owns before w'
  opened : ∀ f ∈ done, 0 ≤ w'.h.fd f
  closed : ∀ f ∉ done, w'.h.fd f < 0
  unforked : w'.h.pid < 0 ∧ w'.h.reaped = false
  same : w'.unread = w.unread ∧ w'.exit = w.exit

theorem Opening.channel {done : List FdField} {w₀ : World} (h : Opening before done w₀ w)
    (sys : Sys) {f g : FdField} (hf : f ∉ done) (hg : g ∉ done) (hfg : f ≠ g) :
    Ends (openChannel sys f g) w (fun _ w' => Opening before (f :: g :: done) w₀ w')
      (fun _ w' => Owns before w') := by
  refine (openChannel_owns sys h.owns (h.closed f hf) (h.closed g hg) hfg).imp fun _ w' h' => ?_
  refine ⟨h'.owns, fun k hk => ?_, fun k hk => ?_, ?_, ?_⟩
  · by_cases hkf : k = f
    · subst hkf
      exact h'.opened.1
    by_cases hkg : k = g
    · subst hkg
      exact h'.opened.2
    rw [h'.others k hkf hkg]
    refine h.opened k ?_
    simpa [hkf, hkg] using hk
  · simp only [List.mem_cons, not_or] at hk
    rw [h'.others k hk.1 hk.2.1]
    exact h.closed k hk.2.2
  · rw [h'.unforked.1, h'.unforked.2]
    exact h.unforked
  · rw [h'.same.1, h'.same.2]
    exact h.same

/-- What `chdb_helper_start` has done when it forks. -/
structure Unforked (before : Table OpenFile) (w w' : World) : Prop where
  owns : Owns before w'
  opened : ∀ f, 0 ≤ w'.h.fd f
  unforked : w'.h.pid < 0 ∧ w'.h.reaped = false
  same : w'.unread = w.unread ∧ w'.exit = w.exit

/-- Before the fork every descriptor has an owner as soon as it is open. -/
theorem startChannels_owns (sys : Sys) (ctx : ChdbHelperContext) (query : Bytes)
    (params : List (Bytes × Bytes)) (hlog : w.log = []) :
    Ends (startChannels sys ctx query params) w
      (fun _ w' => Unforked w.table w w' ∧ Marked [.setup, .err, .data] w')
      (fun _ w' => Owns w.table w') := by
  have hclosed : ∀ f, (ChdbHelper.fresh query).fd f < 0 := fun f => by
    rw [ChdbHelper.fresh_fd]; decide
  have hfresh : Owns w.table { w with h := .fresh query } := by
    refine ⟨⟨?_, ?_, ?_, fun _ _ _ => rfl, [], ?_, List.nodup_nil, fun n => ?_⟩, ?_⟩
    · exact fun f hf => absurd hf (not_le.mpr (hclosed f))
    · exact fun f hf => absurd hf (not_le.mpr (hclosed f))
    · exact fun f g hf => absurd hf (not_le.mpr (hclosed f))
    · show ledger w.log = _
      rw [hlog]; rfl
    · constructor
      · exact nofun
      · rintro ⟨hn, f, hf⟩
        have hf : (-1 : ℤ) = n := hf
        omega
    · show childLedger w.log = _
      rw [hlog]; rfl
  unfold startChannels
  rw [ends_bind]
  show Ends _ { w with h := .fresh query } _ _
  unfold sysCall
  rw [ends_bind, ends_bind]
  refine ends_nextAnswer (fun _ => hfresh) fun a answers _ => ?_
  cases a with
  | error errno => exact hfresh
  | ok n =>
    rw [ends_pure]
    cases buildSetup ctx sys.timezone query params with
    | error e => exact hfresh
    | ok payload =>
      dsimp only
      have hstart : Opening w.table [] w { w with h := .fresh query, answers } :=
        ⟨hfresh, nofun, fun f _ => hclosed f, ⟨by show (-1 : ℤ) < 0; decide, rfl⟩, rfl, rfl⟩
      refine (hstart.channel sys (f := .data) (g := .dataPeer) (by decide) (by decide)
        (by decide)).seq fun _ w₁ h₁ => ?_
      refine (h₁.channel sys (f := .err) (g := .errPeer) (by decide) (by decide)
        (by decide)).seq fun _ w₂ h₂ => ?_
      refine (h₂.channel sys (f := .setupPeer) (g := .setup) (by decide) (by decide)
        (by decide)).seq fun _ w₃ h₃ => ?_
      have hall : Unforked w.table w w₃ :=
        ⟨h₃.owns, fun f => h₃.opened f (by cases f <;> decide), h₃.unforked, h₃.same⟩
      -- the flags
      have hflag : ∀ f flag fs {w'}, Unforked w.table w w' ∧ Marked fs w' →
          Ends (setFlag sys f flag) w' (fun _ w'' => Unforked w.table w w'' ∧
            Marked (if flag = .cloexec then f :: fs else fs) w'') (fun _ w'' => Owns w.table w'') := by
        intro f flag fs w' hw'
        refine (setFlag_owns sys hw'.1.owns f flag).imp fun _ w'' hw'' => ?_
        refine ⟨⟨hw''.1, ?_, ?_, ?_⟩, hw''.2.2.2 fs hw'.2⟩
        · rw [hw''.2.1]; exact hw'.1.opened
        · rw [hw''.2.1]; exact hw'.1.unforked
        · rw [hw''.2.2.1.1, hw''.2.2.1.2]; exact hw'.1.same
      refine (hflag .data .cloexec [] ⟨hall, nofun⟩).seq fun _ _ h₄ => ?_
      refine (hflag .err .cloexec _ h₄).seq fun _ _ h₅ => ?_
      refine (hflag .setup .cloexec _ h₅).seq fun _ _ h₆ => ?_
      refine (hflag .data .nonblock _ h₆).seq fun _ _ h₇ => ?_
      refine (hflag .err .nonblock _ h₇).seq fun _ _ h₈ => ?_
      exact (hflag .setup .nonblock _ h₈).seq fun _ _ h₉ => h₉

/-- The child is in `h` as soon as it exists. -/
theorem forkHelper_owns (sys : Sys) {w₀ : World} (h : Unforked before w₀ w) :
    Ends (forkHelper sys) w (fun _ w' => OwnsChild before w' ∧ w'.h.fd = w.h.fd ∧
      w'.h.reaped = false ∧ w'.unread = w.unread ∧ w'.exit = w.exit) (fun _ w' => Owns before w') := by
  unfold forkHelper
  rw [ends_bind]
  refine ends_nextAnswer (fun _ => h.owns) fun a answers _ => ?_
  cases a with
  | error errno => exact h.owns
  | ok n =>
    have hpos : (0 : ℤ) < n + 1 := by omega
    obtain ⟨held, hledger, hrest⟩ := h.owns.1.held
    have hown := h.owns.1
    refine ⟨⟨⟨⟨hown.fresh, hown.isOpen, hown.distinct, hown.rest, held, ?_, hrest⟩, ?_⟩, hpos⟩,
      rfl, h.unforked.2, rfl, rfl⟩
    · rw [ledger_concat, hledger]; rfl
    · show childLedger (w.log ++ [.forked (n + 1)]) = some (childOf (n + 1) w.h.reaped)
      have hnone : childOf w.h.pid w.h.reaped = .none :=
        if_neg (by have hneg := h.unforked.1; omega)
      rw [childLedger_concat, h.owns.2, hnone, h.unforked.2, childOf, if_pos hpos]
      exact if_pos hpos

/-- Nor is anything after it. -/
theorem chdbHelperStart_owns (sys : Sys) (ctx : ChdbHelperContext) (query : Bytes)
    (params : List (Bytes × Bytes)) (hlog : w.log = []) :
    Ends (chdbHelperStart sys ctx query params) w (fun _ w' => OwnsChild w.table w')
      (fun _ w' => Owns w.table w') := by
  have hsteady := ownsChild_steady w.table
  unfold chdbHelperStart
  refine (startChannels_owns sys ctx query params hlog).seq fun payload w' h => ?_
  refine (forkHelper_owns sys h.1).seq fun _ w'' hw'' => ?_
  have hkeep : Keeps (OwnsChild w.table) (do
      checkForInterrupts
      closeFd .dataPeer
      closeFd .errPeer
      closeFd .setupPeer
      writeSetup sys payload) :=
    hsteady.toQuiet.checkForInterrupts.bind fun _ => (hsteady.close _).bind fun _ =>
      (hsteady.close _).bind fun _ => (hsteady.close _).bind fun _ => hsteady.writeSetup sys payload
  exact (hkeep _ hw''.1).mono (fun _ _ hw => hw) fun _ _ hw => hw.1

/-- A call of `chdb_copy_receive` or `chdb_copy_send`. -/
inductive Call where
  | recv (len : ℕ)
  | write (p : Bytes)
  | finish
  deriving DecidableEq, Repr

def Call.run (sys : Sys) : Call → Run Unit
  | .recv len => do
    let _ ← chdbHelperRecv sys len
    return ()
  | .write p => chdbHelperWrite sys p
  | .finish => chdbHelperFinish sys

/-- The calls in turn, up to the one that raises. -/
def runCalls (sys : Sys) : List Call → Run Unit
  | [] => return ()
  | c :: cs => do
    c.run sys
    runCalls sys cs

/-- A helper's life up to its cleanup. -/
def life (sys : Sys) (ctx : ChdbHelperContext) (query : Bytes) (params : List (Bytes × Bytes))
    (calls : List Call) : Run Unit := do
  chdbHelperStart sys ctx query params
  runCalls sys calls

theorem runCalls_keeps (sys : Sys) (calls : List Call) :
    Keeps (OwnsChild before) (runCalls sys calls) := by
  have hsteady := ownsChild_steady before
  induction calls with
  | nil => exact Keeps.pure ()
  | cons c cs ih =>
    refine Keeps.bind ?_ fun _ => ih
    cases c with
    | recv len =>
      exact (hsteady.chdbHelperRecv (fun _ _ _ h _ => h) sys len).bind fun _ => Keeps.pure ()
    | write p => exact hsteady.chdbHelperWrite sys p
    | finish => exact hsteady.chdbHelperFinish sys

theorem life_owns (sys : Sys) (ctx : ChdbHelperContext) (query : Bytes)
    (params : List (Bytes × Bytes)) (calls : List Call) (hlog : w.log = []) :
    Ends (life sys ctx query params calls) w (fun _ w' => Owns w.table w')
      (fun _ w' => Owns w.table w') := by
  unfold life
  refine (chdbHelperStart_owns sys ctx query params hlog).seq fun _ w' h => ?_
  exact (runCalls_keeps sys calls w' h).mono (fun _ _ hw => hw.1) fun _ _ hw => hw.1

/-- On the way from `w` to `w'` these descriptors have been closed, and no answer used. -/
structure Closing (before : Table OpenFile) (done : List FdField) (w w' : World) : Prop where
  owns : Owns before w'
  closed : ∀ f ∈ done, w'.h.fd f < 0
  answers : w'.answers = w.answers

theorem Closing.closeFd {done : List FdField} {w₀ : World} (h : Closing before done w₀ w)
    (f : FdField) :
    Ends (closeFd f) w (fun _ w' => Closing before (f :: done) w₀ w') E := by
  refine (closeFd_owns h.owns f).imp fun _ w' h' => ?_
  refine ⟨h'.1, fun g hg => ?_, by rw [h'.2.2.2.2.2, h.answers]⟩
  by_cases hgf : g = f
  · subst hgf
    exact h'.2.1
  · rw [h'.2.2.1 g hgf]
    exact h.closed g ((List.mem_cons.mp hg).resolve_left hgf)

/-- `stop_helper` releases what is left, unless it is interrupted for ever. -/
theorem stopHelper_released (h : Owns before w) :
    Ends stopHelper w (fun _ w' => Released before w')
      (fun e _ => e = .cut ∧ ∀ a ∈ w.answers, Interrupted a) := by
  unfold stopHelper
  have hnone : Closing before [] w w := ⟨h, nofun, rfl⟩
  refine (hnone.closeFd .data).seq fun _ w₁ h₁ => ?_
  refine (h₁.closeFd .err).seq fun _ w₂ h₂ => ?_
  refine (h₂.closeFd .setup).seq fun _ w₃ h₃ => ?_
  refine (h₃.closeFd .dataPeer).seq fun _ w₄ h₄ => ?_
  refine (h₄.closeFd .errPeer).seq fun _ w₅ h₅ => ?_
  refine (h₅.closeFd .setupPeer).seq fun _ w₆ h₆ => ?_
  have hclosed : ∀ f, w₆.h.fd f < 0 := fun f => h₆.closed f (by cases f <;> decide)
  have hown := h₆.owns
  rw [ends_bind, ends_get]
  by_cases hkill : 0 < w₆.h.pid ∧ w₆.h.reaped = false
  · -- the child is killed and waited for
    rw [if_pos hkill]
    have hrunning : childLedger w₆.log = some (.running w₆.h.pid) := by
      rw [hown.2, childOf, if_pos hkill.1, hkill.2]
      rfl
    have hkilled : childLedger (w₆.log ++ [.killed w₆.h.pid sigkill]) = some (.killed w₆.h.pid) := by
      rw [childLedger_concat, hrunning, Option.bind_some]
      exact if_pos ⟨rfl, rfl⟩
    have hledger : Owned before w₆.h.fd w₆.table (w₆.log ++ [.killed w₆.h.pid sigkill]) := by
      refine ⟨hown.1.fresh, hown.1.isOpen, hown.1.distinct, hown.1.rest, ?_⟩
      obtain ⟨held, hl, hrest⟩ := hown.1.held
      exact ⟨held, by rw [ledger_concat, hl]; rfl, hrest⟩
    simp only [ends_bind]
    show Ends reap { w₆ with log := w₆.log ++ [.killed w₆.h.pid sigkill] } _ _
    refine (reap_ends (w := { w₆ with log := w₆.log ++ [.killed w₆.h.pid sigkill] }) hledger
      (fun _ => Or.inr hkilled) ?_).mono ?_ ?_
    · intro hr
      rw [hkill.2] at hr
      cases hr
    · rintro - w' ⟨hown', hfd, -, -, hchild⟩
      have hall : ∀ f, w'.h.fd f < 0 := fun f => by rw [hfd]; exact hclosed f
      exact ⟨(hown'.released hall).1, (hown'.released hall).2, Or.inr ⟨_, hkill.1, hchild⟩⟩
    · rintro e w' ⟨he, hint, -⟩
      exact ⟨he, h₆.answers ▸ hint⟩
  · rw [if_neg hkill]
    have hall := hown.1.released hclosed
    refine ⟨hall.1, hall.2, ?_⟩
    by_cases hpid : 0 < w₆.h.pid
    · have hreaped : w₆.h.reaped = true := by
        by_contra hr
        exact hkill ⟨hpid, by simpa using hr⟩
      refine Or.inr ⟨w₆.h.pid, hpid, ?_⟩
      rw [hown.2, childOf, if_pos hpid, if_pos hreaped]
    · refine Or.inl ?_
      rw [hown.2, childOf, if_neg hpid]

/-- The state a run stops in. -/
def finalWorld {α : Type} (m : Run α) (w : World) : World :=
  match m w with
  | .ok _ w' => w'
  | .error _ w' => w'

/-- **Whatever a helper's life was cut short by, `stop_helper` releases every descriptor and the
    child once**, and it comes back as soon as it is not interrupted. -/
theorem life_released (sys : Sys) (ctx : ChdbHelperContext) (query : Bytes)
    (params : List (Bytes × Bytes)) (calls : List Call) (w : World) (answers : List Answer) :
    Ends stopHelper
      { finalWorld (life sys ctx query params calls) { w with log := [] } with answers }
      (fun _ w' => Released w.table w') (fun e _ => e = .cut ∧ ∀ a ∈ answers, Interrupted a) := by
  have hlife := life_owns (w := { w with log := [] }) sys ctx query params calls rfl
  have hfinal : Owns w.table (finalWorld (life sys ctx query params calls) { w with log := [] }) := by
    unfold finalWorld
    unfold Ends at hlife
    cases hr : life sys ctx query params calls { w with log := [] } with
    | ok a w' => rw [hr] at hlife; exact hlife
    | error e w' => rw [hr] at hlife; exact hlife
  generalize finalWorld (life sys ctx query params calls) { w with log := [] } = w' at hfinal
  exact stopHelper_released (w := { w' with answers }) hfinal

end

end PgChdb.Process
