import PgChdb.Helper.Release

namespace PgChdb.Process

open CText Descriptors Machine

/-!
# The helper's standard descriptors

Between the fork and the exec the child puts its ends of the channels, and `/dev/null`, on
descriptors 0 to 3.  `dup2` onto one of these would take a source away that still stands
there, so `exec_helper` first moves every source above 3.  The backend's own ends are
close-on-exec since `chdb_helper_start` marked them.

* `Shut`, `Source` — the invariant of the table, and where a source is once it is out of the way;
* `reserveFd_ends`, `placeFd_ends` — the two steps;
* `Placed` — the descriptors the new program has to find;
* `execHelper_placed` — it does, whichever numbers the kernel has given out before, or the child
  exits.
-/

/-- Everything tried from `w` to `w'` has succeeded. -/
def Succeeded (w w' : World) : Prop := ∃ k, w'.log = w.log ++ List.replicate k (.tried true)

theorem Succeeded.refl (w : World) : Succeeded w w := ⟨0, by simp⟩

theorem Succeeded.trans {w₁ w₂ w₃ : World} (h : Succeeded w₁ w₂) (h' : Succeeded w₂ w₃) :
    Succeeded w₁ w₃ := by
  obtain ⟨k, hk⟩ := h
  obtain ⟨k', hk'⟩ := h'
  exact ⟨k + k', by rw [hk', hk, List.append_assoc, List.replicate_append_replicate]⟩

/-- The ends of the channels that only the backend is to have. -/
def BackendEnd (f : OpenFile) : Prop := f = .data ∨ f = .err ∨ f = .setup

instance (f : OpenFile) : Decidable (BackendEnd f) :=
  inferInstanceAs (Decidable (f = .data ∨ f = .err ∨ f = .setup))

/-- An exec closes the backend's ends, wherever they are in the table. -/
def Shut (t : Table OpenFile) : Prop :=
  ∀ n e, t.entry n = some e → BackendEnd e.file → e.cloexec = true

theorem Shut.put {t : Table OpenFile} (h : Shut t) {n : ℤ} (hn : 0 ≤ n) {f : OpenFile}
    (hf : ¬ BackendEnd f) (cloexec : Bool) : Shut (t.put n hn ⟨f, cloexec⟩) := by
  intro m e he hend
  rw [Table.entry_put] at he
  split at he
  · cases he
    exact absurd hend hf
  · exact h m e he hend

theorem Shut.close {t : Table OpenFile} (h : Shut t) (n : ℤ) : Shut (t.close n) := by
  intro m e he hend
  rw [Table.entry_close] at he
  split at he
  · cases he
  · exact h m e he hend

/-- The file is open at the number, or could not be had. -/
def Had (t : Table OpenFile) (f : OpenFile) (fd : ℤ) : Prop :=
  fd = -1 ∨ (t.entry fd).map Entry.file = some f

/-- Moving the source of another file leaves this one where it is. -/
theorem Had.keep {t t' : Table OpenFile} {f g : OpenFile} {fd fd' : ℤ} (h : Had t g fd')
    (hsrc : Had t f fd) (hne : g ≠ f)
    (hkeep : ∀ n e, n ≠ fd ∨ chdbSetupFd < n → t.entry n = some e → t'.entry n = some e) :
    Had t' g fd' := by
  rcases h with h | h
  · exact Or.inl h
  obtain ⟨e, he, rfl⟩ := Option.map_eq_some_iff.mp h
  refine Or.inr ?_
  rw [hkeep fd' e (Or.inl ?_) he]
  · rfl
  rintro rfl
  rcases hsrc with rfl | hsrc
  · rw [Table.entry_of_neg _ (by decide)] at he
    cases he
  · rw [he] at hsrc
    exact hne (Option.some.inj hsrc)

/-- The same, above the standard numbers. -/
def Source (t : Table OpenFile) (f : OpenFile) (fd : ℤ) : Prop :=
  fd = -1 ∨ chdbSetupFd < fd ∧ (t.entry fd).map Entry.file = some f

theorem Source.mono {t t' : Table OpenFile} {f : OpenFile} {fd : ℤ} (h : Source t f fd)
    (hkeep : ∀ n e, chdbSetupFd < n → t.entry n = some e → t'.entry n = some e) : Source t' f fd := by
  rcases h with h | ⟨hfd, hf⟩
  · exact Or.inl h
  · obtain ⟨e, he, rfl⟩ := Option.map_eq_some_iff.mp hf
    exact Or.inr ⟨hfd, by rw [hkeep fd e hfd he]; rfl⟩

section
variable {w : World}

@[simp] theorem ends_tried {α : Type} {r : Except Errno α} {Q : Except Errno α → World → Prop}
    {E : Stop → World → Prop} :
    Ends (tried r) w Q E ↔ Q r { w with log := w.log ++ [.tried r.isOk] } := Iff.rfl

/-- `F_DUPFD`: the same file at a free number, or nothing. -/
theorem dupFd_ends (sys : Sys) (fd low : ℤ) :
    Ends (dupFd sys fd low) w (fun high w' => w'.h = w.h ∧
        (high = -1 ∧ w'.table = w.table ∨
          ∃ e, ∃ hhigh : 0 ≤ high, w.table.entry fd = some e ∧ low ≤ high ∧
            w.table.entry high = none ∧ w'.table = w.table.put high hhigh ⟨e.file, false⟩ ∧
            Succeeded w w'))
      (fun e _ => e = .cut) := by
  unfold dupFd
  rw [ends_bind, ends_get]
  cases hfd : w.table.entry fd with
  | none => exact ⟨rfl, Or.inl ⟨rfl, rfl⟩⟩
  | some e =>
    dsimp only
    rw [ends_bind]
    refine ends_nextAnswer (fun _ => rfl) fun a answers _ => ?_
    cases a with
    | error errno => exact ⟨rfl, Or.inl ⟨rfl, rfl⟩⟩
    | ok n =>
      dsimp only
      rw [ends_bind]
      refine ends_allocate ⟨rfl, Or.inl ⟨rfl, rfl⟩⟩ fun high hhigh hlow hfree => ?_
      exact ⟨rfl, Or.inr ⟨e, hhigh, rfl, hlow, hfree, rfl, 1, rfl⟩⟩

/-- `reserve_fd` moves a source above the standard descriptors, and nothing else that is open. -/
theorem reserveFd_ends (sys : Sys) {fd : ℤ} {f : OpenFile} (hf : ¬ BackendEnd f)
    (hsrc : Had w.table f fd) (hshut : Shut w.table) :
    Ends (reserveFd sys fd) w (fun r w' => w'.h = w.h ∧ Shut w'.table ∧
        (∀ n e, n ≠ fd ∨ chdbSetupFd < n → w.table.entry n = some e → w'.table.entry n = some e) ∧
        Source w'.table f r ∧ (r ≠ -1 → fd ≠ -1 ∧ Succeeded w w'))
      (fun e _ => e = .cut) := by
  have h3 : chdbSetupFd = 3 := rfl
  unfold reserveFd
  by_cases hhigh : fd > chdbSetupFd
  · -- it is out of the way
    rw [if_pos hhigh]
    refine ⟨rfl, hshut, fun _ _ _ he => he, ?_, fun _ => ⟨by omega, .refl w⟩⟩
    rcases hsrc with hneg | hopen
    · exact Or.inl hneg
    · exact Or.inr ⟨hhigh, hopen⟩
  rw [if_neg hhigh]
  refine (dupFd_ends sys fd 10).seq ?_
  rintro high w' ⟨hh, hdup⟩
  show w'.h = w.h ∧ Shut (w'.table.close fd) ∧
    (∀ (n : ℤ) (e : Entry OpenFile), n ≠ fd ∨ chdbSetupFd < n → w.table.entry n = some e →
      (w'.table.close fd).entry n = some e) ∧
    Source (w'.table.close fd) f high ∧
    (high ≠ -1 → fd ≠ -1 ∧ Succeeded w { w' with table := w'.table.close fd })
  have hkept : ∀ n : ℤ, n ≠ fd ∨ chdbSetupFd < n → n ≠ fd := by
    intro n hn
    rcases hn with hn | hn
    · exact hn
    · rintro rfl
      exact hhigh hn
  rcases hdup with ⟨rfl, htable⟩ | ⟨e, hpos, hentry, hlow, hfree, htable, hgood⟩
  · refine ⟨hh, ?_, fun n e' hn he' => ?_, Or.inl rfl, fun hne => absurd rfl hne⟩
    · rw [htable]; exact hshut.close fd
    · rw [htable, Table.entry_close, if_neg (hkept n hn)]; exact he'
  · -- the copy is not at `fd`, which is open
    have hne : high ≠ fd := by omega
    have hpos' : fd ≠ -1 := by
      have hfd := w.table.nonneg fd e hentry
      omega
    have hfile : e.file = f := by
      rcases hsrc with rfl | hopen
      · rw [Table.entry_of_neg _ (by decide)] at hentry
        cases hentry
      · rw [hentry] at hopen
        exact Option.some.inj hopen
    refine ⟨hh, ?_, fun n e' hn he' => ?_, Or.inr ⟨?_, ?_⟩, fun _ => ?_⟩
    · rw [htable]
      exact (hshut.put hpos (hfile ▸ hf) false).close fd
    · have hnh : n ≠ high := by
        rintro rfl
        rw [hfree] at he'
        cases he'
      rw [htable, Table.entry_close, if_neg (hkept n hn), Table.entry_put, if_neg hnh]
      exact he'
    · omega
    · rw [htable, Table.entry_close, if_neg hne, Table.entry_put, if_pos rfl, hfile]
      rfl
    · exact ⟨hpos', hgood⟩

/-- `place_fd` of a source: it fails, or the file is at the target and nothing else has moved. -/
theorem placeFd_ends {fd : ℤ} {target : ℕ} {f : OpenFile} (hf : ¬ BackendEnd f)
    (hsrc : Source w.table f fd) (htarget : (target : ℤ) ≤ chdbSetupFd) (hshut : Shut w.table) :
    Ends (placeFd fd target) w (fun placed w' => w'.h = w.h ∧ (placed = true →
        fd ≠ -1 ∧ w'.table.entry target = some ⟨f, false⟩ ∧
        (∀ n : ℤ, n ≠ target → w'.table.entry n = w.table.entry n) ∧ Shut w'.table ∧ Succeeded w w'))
      (fun e _ => e = .cut) := by
  have hnone : ∀ {b : Bool} {P : Prop}, b = false → (b = true → P) := fun hb h => by
    rw [hb] at h; cases h
  unfold placeFd
  unfold sysOnFd
  rw [ends_bind, ends_bind, ends_get]
  cases hentry : w.table.entry fd with
  | none => exact ⟨rfl, hnone rfl⟩
  | some e =>
    dsimp only
    unfold sysCall
    rw [ends_bind]
    refine ends_nextAnswer (fun _ => rfl) fun a answers _ => ?_
    cases a with
    | error errno => exact ⟨rfl, hnone rfl⟩
    | ok n =>
      obtain ⟨hhigh, hfile⟩ : chdbSetupFd < fd ∧ (w.table.entry fd).map Entry.file = some f := by
        rcases hsrc with rfl | h
        · rw [Table.entry_of_neg _ (by decide)] at hentry
          cases hentry
        · exact h
      rw [hentry] at hfile
      have hef : e.file = f := Option.some.inj hfile
      have hne : fd ≠ (target : ℤ) := by omega
      have hpos : fd ≠ -1 := by
        have h3 : chdbSetupFd = 3 := rfl
        omega
      rw [ends_pure, ends_bind, ends_tried]
      dsimp only
      rw [ends_bind, ends_get, if_neg hne]
      simp only [hentry]
      refine ⟨rfl, fun _ => ⟨hpos, ?_, fun m hm => ?_, ?_, 1, rfl⟩⟩
      · show (w.table.put target (Int.natCast_nonneg target) ⟨e.file, false⟩).entry target
          = some ⟨f, false⟩
        rw [Table.entry_put, if_pos rfl, hef]
      · show (w.table.put target (Int.natCast_nonneg target) ⟨e.file, false⟩).entry m
          = w.table.entry m
        rw [Table.entry_put, if_neg hm]
      · exact hshut.put (Int.natCast_nonneg target) (hef ▸ hf) false

/-- `open("/dev/null")`. -/
theorem openNull_ends (sys : Sys) (hshut : Shut w.table) :
    Ends (openNull sys) w (fun r w' => w'.h = w.h ∧ Shut w'.table ∧
        (∀ n e, w.table.entry n = some e → w'.table.entry n = some e) ∧
        (r = -1 ∨ w.table.entry r = none ∧ (w'.table.entry r).map Entry.file = some .devNull) ∧
        (r ≠ -1 → Succeeded w w'))
      (fun e _ => e = .cut) := by
  unfold openNull
  rw [ends_bind]
  refine ends_nextAnswer (fun _ => rfl) fun a answers _ => ?_
  cases a with
  | error errno => exact ⟨rfl, hshut, fun _ _ he => he, Or.inl rfl, fun hne => absurd rfl hne⟩
  | ok n =>
    dsimp only
    rw [ends_bind]
    refine ends_allocate ⟨rfl, hshut, fun _ _ he => he, Or.inl rfl, fun hne => absurd rfl hne⟩
      fun fd hfd _ hfree => ?_
    refine ⟨rfl, hshut.put hfd (by decide) false, fun m e he => ?_, Or.inr ⟨hfree, ?_⟩,
      fun _ => ⟨1, rfl⟩⟩
    · have hne : m ≠ fd := by
        rintro rfl
        have hfree : w.table.entry m = none := hfree
        rw [hfree] at he
        cases he
      show (w.table.put fd hfd ⟨.devNull, false⟩).entry m = some e
      rw [Table.entry_put, if_neg hne]
      exact he
    · show ((w.table.put fd hfd ⟨.devNull, false⟩).entry fd).map Entry.file = some .devNull
      rw [Table.entry_put, if_pos rfl]
      rfl

end

/-! ### The four of them -/

/-- What stands on each of the standard descriptors. -/
def standard (cmd : ChdbCmdType) : ℕ → OpenFile
  | 0 => if cmd = .insert then .dataPeer else .devNull
  | 1 => if cmd = .insert then .devNull else .dataPeer
  | 2 => .errPeer
  | _ => .setupPeer

/-- Where `exec_helper` takes it from. -/
def sourceOf (cmd : ChdbCmdType) (fd : FdField → ℤ) (null : ℤ) : ℕ → ℤ
  | 0 => if cmd = .insert then fd .dataPeer else null
  | 1 => if cmd = .insert then null else fd .dataPeer
  | 2 => fd .errPeer
  | _ => fd .setupPeer

theorem sourceOf_had {cmd : ChdbCmdType} {fd : FdField → ℤ} {null : ℤ}
    (h : ∀ i < 4, sourceOf cmd fd null i ≠ -1) :
    null ≠ -1 ∧ fd .dataPeer ≠ -1 ∧ fd .errPeer ≠ -1 ∧ fd .setupPeer ≠ -1 := by
  have h₀ := h 0 (by decide)
  have h₁ := h 1 (by decide)
  refine ⟨?_, ?_, h 2 (by decide), h 3 (by decide)⟩
  · by_cases hcmd : cmd = .insert
    · simpa only [sourceOf, if_pos hcmd] using h₁
    · simpa only [sourceOf, if_neg hcmd] using h₀
  · by_cases hcmd : cmd = .insert
    · simpa only [sourceOf, if_pos hcmd] using h₀
    · simpa only [sourceOf, if_neg hcmd] using h₁

theorem not_backendEnd_standard (cmd : ChdbCmdType) (i : ℕ) : ¬ BackendEnd (standard cmd i) := by
  unfold standard
  split
  · split <;> decide
  · split <;> decide
  · decide
  · decide

/-- The first `k` are in place, and the sources of the others have not been overwritten. -/
structure Seated (src : ℕ → ℤ) (cmd : ChdbCmdType) (k : ℕ) (w w' : World) : Prop where
  had : ∀ i < k, src i ≠ -1
  placed : ∀ i < k, w'.table.entry i = some ⟨standard cmd i, false⟩
  sources : ∀ i, Source w'.table (standard cmd i) (src i)
  shut : Shut w'.table
  good : Succeeded w w'

theorem Seated.place {src : ℕ → ℤ} {cmd : ChdbCmdType} {k : ℕ} {w w' : World}
    (h : Seated src cmd k w w') (hk : (k : ℤ) ≤ chdbSetupFd) :
    Ends (placeFd (src k) k) w' (fun placed w'' => placed = true → Seated src cmd (k + 1) w w'')
      (fun e _ => e = .cut) := by
  refine (placeFd_ends (not_backendEnd_standard cmd k) (h.sources k) hk h.shut).imp ?_
  rintro placed w'' ⟨-, hplaced⟩ htrue
  obtain ⟨hsrc, hentry, hothers, hshut, hgood⟩ := hplaced htrue
  refine ⟨fun i hi => ?_, fun i hi => ?_, fun i => ?_, hshut, h.good.trans hgood⟩
  · rcases Nat.lt_succ_iff_lt_or_eq.mp hi with hi | rfl
    · exact h.had i hi
    · exact hsrc
  · rcases Nat.lt_succ_iff_lt_or_eq.mp hi with hi | rfl
    · rw [hothers i (by omega)]
      exact h.placed i hi
    · exact hentry
  · -- the sources are above every target
    refine (h.sources i).mono fun n e hn he => ?_
    rw [hothers n (by omega)]
    exact he

/-- All four, in the order of the source. -/
theorem Seated.placeAll {fd : FdField → ℤ} {null : ℤ} {cmd : ChdbCmdType} {w w' : World}
    (h : Seated (sourceOf cmd fd null) cmd 0 w w') :
    Ends (do
        if ← placeFd (if cmd = .insert then fd .dataPeer else null) 0 then
          if ← placeFd (if cmd = .insert then null else fd .dataPeer) 1 then
            if ← placeFd (fd .errPeer) 2 then
              placeFd (fd .setupPeer) 3
            else return false
          else return false
        else return false) w'
      (fun placed w'' => placed = true → Seated (sourceOf cmd fd null) cmd 4 w w'')
      (fun e _ => e = .cut) := by
  refine (h.place (by decide)).seq fun placed w₁ h₁ => ?_
  cases placed with
  | false => exact nofun
  | true =>
    rw [if_pos rfl]
    refine ((h₁ rfl).place (by decide)).seq fun placed w₂ h₂ => ?_
    cases placed with
    | false => exact nofun
    | true =>
      rw [if_pos rfl]
      refine ((h₂ rfl).place (by decide)).seq fun placed w₃ h₃ => ?_
      cases placed with
      | false => exact nofun
      | true =>
        rw [if_pos rfl]
        exact (h₃ rfl).place (by decide)

/-- What the new program starts with. -/
structure Placed (cmd : ChdbCmdType) (t : Table OpenFile) : Prop where
  stdin : t.entry 0 = some ⟨if cmd = .insert then .dataPeer else .devNull, false⟩
  stdout : t.entry 1 = some ⟨if cmd = .insert then .devNull else .dataPeer, false⟩
  stderr : t.entry 2 = some ⟨.errPeer, false⟩
  setup : t.entry 3 = some ⟨.setupPeer, false⟩
  backend : ∀ f, BackendEnd f → ¬ t.Holds f

/-- The exec closes the backend's ends and leaves the four. -/
theorem Seated.placed_exec {src : ℕ → ℤ} {cmd : ChdbCmdType} {w w' : World}
    (h : Seated src cmd 4 w w') : Placed cmd w'.table.exec := by
  have hentry : ∀ i : ℕ, i < 4 → w'.table.exec.entry i = some ⟨standard cmd i, false⟩ := by
    intro i hi
    rw [Table.entry_exec, h.placed i hi]
    rfl
  refine ⟨hentry 0 (by decide), hentry 1 (by decide), hentry 2 (by decide), hentry 3 (by decide), ?_⟩
  rintro f hf ⟨n, e, he, rfl⟩
  rw [Table.entry_exec] at he
  obtain ⟨hopen, hcloexec⟩ := Option.filter_eq_some_iff.mp he
  rw [h.shut n e hopen hf] at hcloexec
  cases hcloexec

/-- The ends that are for the helper. -/
def peers : List FdField := [.dataPeer, .errPeer, .setupPeer]

/-- They are open, at whatever numbers, and the backend's ends do not survive an exec. -/
structure Forked (w : World) : Prop where
  had : ∀ f ∈ peers, Had w.table f.file (w.h.fd f)
  shut : Shut w.table

theorem Source.had {t : Table OpenFile} {f : OpenFile} {fd : ℤ} (h : Source t f fd) : Had t f fd :=
  h.imp id And.right

/-- The peers in `done` are out of the way; the others and `/dev/null` are where they were. -/
structure Moving (done : List FdField) (null : ℤ) (w₀ w : World) : Prop where
  devNull : Had w.table .devNull null
  had : ∀ f ∈ peers, Had w.table f.file (w.h.fd f)
  moved : ∀ f ∈ done, Source w.table f.file (w.h.fd f)
  same : ∀ f, f ∉ done → w.h.fd f = w₀.h.fd f
  shut : Shut w.table
  good : null ≠ -1 → (∀ f ∈ done, w.h.fd f ≠ -1) → Succeeded w₀ w

theorem Moving.reserve {done : List FdField} {null : ℤ} {w₀ w : World} (h : Moving done null w₀ w)
    (sys : Sys) {f : FdField} (hf : f ∈ peers) (hdone : f ∉ done) :
    Ends (reserveFd sys (w₀.h.fd f)) w (fun r w' =>
        Ends (setFd f r) w' (fun _ w'' => Moving (f :: done) null w₀ w'') (fun e _ => e = .cut))
      (fun e _ => e = .cut) := by
  have hbackend : ∀ f ∈ peers, ¬ BackendEnd f.file := by decide
  have hnull : OpenFile.devNull ≠ f.file := by cases f <;> decide
  have hinj : ∀ g : FdField, g ≠ f → g.file ≠ f.file := by
    intro g
    cases g <;> cases f <;> decide
  have hsrc := h.had f hf
  rw [← h.same f hdone]
  refine (reserveFd_ends sys (hbackend f hf) hsrc h.shut).imp ?_
  rintro r w' ⟨hh, hshut, hkeep, hmoved, hgood⟩
  have hfd : ∀ g, g ≠ f → Function.update w'.h.fd f r g = w.h.fd g := by
    intro g hg
    rw [Function.update_of_ne hg, hh]
  refine ⟨h.devNull.keep hsrc hnull hkeep, fun g hg => ?_, fun g hg => ?_, fun g hg => ?_, hshut, ?_⟩
  · show Had w'.table g.file (Function.update w'.h.fd f r g)
    by_cases hgf : g = f
    · rw [hgf, Function.update_self]
      exact hmoved.had
    · rw [hfd g hgf]
      exact (h.had g hg).keep hsrc (hinj g hgf) hkeep
  · show Source w'.table g.file (Function.update w'.h.fd f r g)
    by_cases hgf : g = f
    · rw [hgf, Function.update_self]
      exact hmoved
    · rw [hfd g hgf]
      exact (h.moved g (List.mem_of_ne_of_mem hgf hg)).mono fun n e hn => hkeep n e (Or.inr hn)
  · rw [List.mem_cons, not_or] at hg
    exact (hfd g hg.1).trans (h.same g hg.2)
  · intro hnull hall
    have hr : r ≠ -1 := by
      have hr : Function.update w'.h.fd f r f ≠ -1 := hall f List.mem_cons_self
      rwa [Function.update_self] at hr
    refine (h.good hnull fun g hg => ?_).trans (hgood hr).2
    have hne := hall g (List.mem_cons_of_mem _ hg)
    have hgf : g ≠ f := by
      rintro rfl
      exact hdone hg
    show w.h.fd g ≠ -1
    rw [← hfd g hgf]
    exact hne

/-- The child finds its descriptors in place, or it exits. -/
theorem execHelper_ends (sys : Sys) (ctx : ChdbHelperContext) {w : World} (h : Forked w) :
    Ends (execHelper sys ctx) w (fun t w' => Placed ctx.cmd t ∧ Succeeded w w')
      (fun e _ => e = .exits 126 ∨ e = .exits 127 ∨ e = .cut) := by
  have hcut : ∀ (e : Stop) (_ : World), e = .cut → e = .exits 126 ∨ e = .exits 127 ∨ e = .cut :=
    fun _ _ he => Or.inr (Or.inr he)
  unfold execHelper
  refine (openNull_ends sys h.shut).seq_mono hcut ?_
  rintro null w₁ ⟨hh, hshut, hkeep, hnull, hgood⟩
  have hopened : Moving [] null w w₁ := by
    refine ⟨?_, fun f hf => ?_, nofun, fun f _ => by rw [hh], hshut, fun hne _ => hgood hne⟩
    · exact hnull.imp id And.right
    · rw [hh]
      rcases h.had f hf with hf | hf
      · exact Or.inl hf
      · obtain ⟨e, he, hfile⟩ := Option.map_eq_some_iff.mp hf
        exact Or.inr (by rw [hkeep _ e he, ← hfile]; rfl)
  rw [ends_bind, ends_get, hh]
  refine (hopened.reserve sys (f := .dataPeer) (by decide) (by decide)).seq_mono hcut
    fun _ _ h₂ => h₂.seq_mono hcut fun _ w₂ h₂ => ?_
  refine (h₂.reserve sys (f := .errPeer) (by decide) (by decide)).seq_mono hcut
    fun _ _ h₃ => h₃.seq_mono hcut fun _ w₃ h₃ => ?_
  refine (h₃.reserve sys (f := .setupPeer) (by decide) (by decide)).seq_mono hcut
    fun _ _ h₄ => h₄.seq_mono hcut fun _ w₄ h₄ => ?_
  refine (reserveFd_ends sys (by decide) h₄.devNull h₄.shut).seq_mono hcut ?_
  rintro n w₅ ⟨hh₅, hshut₅, hkeep₅, hsrc₅, hgood₅⟩
  rw [ends_bind, ends_get]
  -- and the targets
  have hseat : Seated (sourceOf ctx.cmd w₅.h.fd n) ctx.cmd 0 w₅ w₅ := by
    refine ⟨nofun, nofun, fun i => ?_, hshut₅, .refl w₅⟩
    have hpeer : ∀ f ∈ peers, Source w₅.table f.file (w₅.h.fd f) := by
      intro f hf
      rw [hh₅]
      refine (h₄.moved f ?_).mono fun m e hm => hkeep₅ m e (Or.inr hm)
      revert f
      decide
    match i with
    | 0 =>
      by_cases hcmd : ctx.cmd = .insert
      · simp only [sourceOf, standard, if_pos hcmd]
        exact hpeer .dataPeer (by decide)
      · simp only [sourceOf, standard, if_neg hcmd]
        exact hsrc₅
    | 1 =>
      by_cases hcmd : ctx.cmd = .insert
      · simp only [sourceOf, standard, if_pos hcmd]
        exact hsrc₅
      · simp only [sourceOf, standard, if_neg hcmd]
        exact hpeer .dataPeer (by decide)
    | 2 => exact hpeer .errPeer (by decide)
    | _ + 3 => exact hpeer .setupPeer (by decide)
  refine hseat.placeAll.seq_mono hcut fun placed w₆ h₆ => ?_
  cases placed with
  | false => exact Or.inl rfl
  | true =>
    have hseated := h₆ rfl
    unfold sysCall
    rw [if_pos rfl, ends_bind, ends_bind]
    refine ends_nextAnswer (fun _ => Or.inr (Or.inr rfl)) fun a answers _ => ?_
    cases a with
    | error errno => exact Or.inr (Or.inl rfl)
    | ok _ =>
      refine ⟨hseated.placed_exec, ?_⟩
      obtain ⟨hn, hd, he, hs⟩ := sourceOf_had hseated.had
      rw [hh₅] at hd he hs
      obtain ⟨hnull₄, hgood₄⟩ := hgood₅ hn
      have hmoved : Succeeded w w₄ := by
        refine h₄.good hnull₄ ?_
        simp only [List.forall_mem_cons]
        exact ⟨hs, he, hd, nofun⟩
      have hexec : Succeeded w₆ { w₆ with answers, log := w₆.log ++ [.tried true] } := ⟨1, rfl⟩
      exact ((hmoved.trans hgood₄).trans hseated.good).trans hexec

/-! ### From the start -/

/-- No end of a channel is open before the channel is made. -/
def Plain (t : Table OpenFile) : Prop := ∀ f : FdField, ¬ t.Holds f.file

/-- The same with nothing accounted for yet. -/
def World.unlogged (w : World) : World := { w with log := [] }

/-- What `fork` gives the child; the calls it goes on to make are its own. -/
def child (w : World) (answers : List Answer) : World :=
  { w with h := { w.h with pid := 0 }, answers, log := [] }

/-- The flags that `chdb_helper_start` has set cover every end that is for the backend only. -/
theorem Unforked.forked {before : Table OpenFile} {w₀ w : World} (h : Unforked before w₀ w)
    (hmarked : Marked [.setup, .err, .data] w) (hplain : Plain before) (answers : List Answer) :
    Forked (child w answers) := by
  have hown := h.owns.1
  refine ⟨fun f _ => Or.inr (hown.isOpen f (h.opened f)), fun n e he hend => ?_⟩
  have he : w.table.entry n = some e := he
  have hn := w.table.nonneg n e he
  by_cases hfree : ∃ f, w.h.fd f = n
  · obtain ⟨f, rfl⟩ := hfree
    have hfile := hown.isOpen f hn
    rw [he] at hfile
    have hef : e.file = f.file := Option.some.inj hfile
    rw [hef] at hend
    refine hmarked f ?_ e he
    cases f with
    | data => decide
    | err => decide
    | setup => decide
    | dataPeer => exact absurd hend (by decide)
    | errPeer => exact absurd hend (by decide)
    | setupPeer => exact absurd hend (by decide)
  · -- a number the backend had before
    rw [hown.rest n hn (not_exists.mp hfree)] at he
    rcases hend with hend | hend | hend
    · exact absurd ⟨n, e, he, hend⟩ (hplain .data)
    · exact absurd ⟨n, e, he, hend⟩ (hplain .err)
    · exact absurd ⟨n, e, he, hend⟩ (hplain .setup)

/-- **The helper's descriptors.**  Whatever the backend has open, and whatever numbers its
    channels and `/dev/null` get, a child that reaches its exec has every one of its steps behind
    it, and the new program finds its channels on the four standard descriptors and nothing of the
    backend's own; otherwise it exits. -/
theorem execHelper_placed (sys : Sys) (ctx : ChdbHelperContext) (query : Bytes)
    (params : List (Bytes × Bytes)) (w₀ : World) (hplain : Plain w₀.table) :
    Ends (startChannels sys ctx query params) w₀.unlogged
      (fun _ w => ∀ answers, Ends (execHelper sys ctx) (child w answers)
        (fun t w' => Placed ctx.cmd t ∧ ∀ call ∈ w'.log, call = .tried true)
        (fun e _ => e = .exits 126 ∨ e = .exits 127 ∨ e = .cut))
      (fun _ _ => True) := by
  refine (startChannels_owns sys ctx query params rfl).mono ?_ fun _ _ _ => trivial
  rintro payload w ⟨hunforked, hmarked⟩ answers
  refine (execHelper_ends sys ctx (hunforked.forked hmarked hplain answers)).imp ?_
  rintro t w' ⟨hplaced, k, hlog⟩
  refine ⟨hplaced, fun call hcall => ?_⟩
  rw [hlog] at hcall
  exact (List.mem_replicate.mp hcall).2

/-- A backend without standard input and output, which the channels then get. -/
def lowBackend : World where
  h := .fresh []
  table := Table.empty.put 2 (by decide) ⟨.other 0, false⟩
  answers := List.replicate 19 (.ok 0)
  interrupts := []
  unread _ := []
  exit := .exited 0
  log := []

/-- What is asked of a helper for INSERT. -/
def insertContext : ChdbHelperContext := ⟨.insert, 0, 0, 0⟩

theorem execHelper_placed_low :
    Ends (startChannels plainSys insertContext (lit "INSERT") []) lowBackend.unlogged
      (fun _ w => ∀ answers, Ends (execHelper plainSys insertContext) (child w answers)
        (fun t w' => Placed insertContext.cmd t ∧ ∀ call ∈ w'.log, call = .tried true)
        (fun e _ => e = .exits 126 ∨ e = .exits 127 ∨ e = .cut))
      (fun _ _ => True) := by
  refine execHelper_placed plainSys insertContext (lit "INSERT") [] lowBackend ?_
  rintro f ⟨n, e, he, hfile⟩
  simp only [lowBackend, Table.entry_put] at he
  split at he
  · cases he
    cases f <;> cases hfile
  · cases he

end PgChdb.Process
