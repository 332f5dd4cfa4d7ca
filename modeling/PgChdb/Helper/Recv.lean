import PgChdb.Helper.Release

namespace PgChdb.Process

open CText Descriptors Machine

/-!
# `chdb_helper_recv` as a stream

A call of `chdb_helper_recv` returns some of the helper's output, and no bytes at its end.  By
then it has closed the data channel, so a call after that reads from descriptor -1, which
fails.

* `Soft`, `Calm` — schedules of short reads, calls that would block and interrupts;
* `Streams` — the output still to come, which nothing but a read of the channel takes from;
* `Recvs` — calls that return, one after the other;
* `recv_stream` — as long as the channel is open, the calls read the output, and one returns
  nothing exactly at the end of it, and never for a helper that ends otherwise than with 0;
* `recv_closed` — once it is closed none returns.
-/

/-! ### Schedules -/

/-- No call of the schedule fails for good. -/
def Soft (a : Answer) : Prop := (∃ n, a = .ok n) ∨ a = .error .eagain ∨ a = .error .eintr

/-- Nor is the query cancelled. -/
def Calm (w : World) : Prop := (∀ a ∈ w.answers, Soft a) ∧ ∀ raises ∈ w.interrupts, raises = false

theorem Calm.next {w : World} (h : Calm w) {a : Answer} {answers : List Answer}
    (ha : w.answers = a :: answers) : Soft a ∧ Calm { w with answers } :=
  ⟨h.1 a (by rw [ha]; exact List.mem_cons_self),
    fun b hb => h.1 b (by rw [ha]; exact List.mem_cons_of_mem a hb), h.2⟩

section
variable {w : World}

/-- On a calm schedule `drain_err` stops only with the schedule, and a call that has something to
    read uses it. -/
theorem drainErr_calm (hopen : 0 ≤ w.h.fd .err → w.table.entry (w.h.fd .err) ≠ none) :
    Ends drainErr w
      (fun _ w' => (Calm w → Calm w') ∧ w'.answers.length ≤ w.answers.length ∧
        (0 ≤ w.h.fd .err → w'.answers.length < w.answers.length))
      (fun e w' => e = .cut ∧ w'.answers = []) := by
  refine ends_forever (fun _ w' => (Calm w → Calm w') ∧
    (w' = w ∨ w'.answers.length < w.answers.length)) ?_ ⟨id, Or.inl rfl⟩
  rintro - w₁ ⟨hcalm, hused⟩
  have hshorter : ∀ {a answers}, w₁.answers = a :: answers →
      answers.length < w₁.answers.length ∧ answers.length < w.answers.length := by
    intro a answers ha
    have hlen : answers.length < w₁.answers.length := by rw [ha]; exact Nat.lt_succ_self _
    rcases hused with rfl | hlt
    · exact ⟨hlen, hlen⟩
    · exact ⟨hlen, by omega⟩
  unfold drainTurn
  rw [ends_bind, ends_get]
  by_cases hfd : w₁.h.fd .err < 0
  · rw [if_pos hfd]
    rcases hused with rfl | hlt
    · exact ⟨hcalm, Nat.le_refl _, fun hpos => by omega⟩
    · exact ⟨hcalm, Nat.le_of_lt hlt, fun _ => hlt⟩
  rw [if_neg hfd, ends_bind]
  refine ends_sysRead ?_ ?_ ?_ ?_
  · intro hnone
    rcases hused with rfl | hlt
    · exact ⟨hcalm, Nat.le_refl _, fun hpos => absurd hnone (hopen hpos)⟩
    · exact ⟨hcalm, Nat.le_of_lt hlt, fun _ => hlt⟩
  · exact fun hnil => ⟨rfl, hnil⟩
  · intro errno answers ha
    have hnext : Calm w → Calm { w₁ with answers } := fun h => ((hcalm h).next ha).2
    show Ends (if _ then _ else _) _ _ _
    split
    · exact ⟨⟨hnext, Or.inr (hshorter ha).2⟩, (hshorter ha).1⟩
    · exact ⟨hnext, Nat.le_of_lt (hshorter ha).2, fun _ => (hshorter ha).2⟩
  · intro e n answers _ ha
    have hnext : Calm w → Calm { w₁ with answers } := fun h => ((hcalm h).next ha).2
    generalize (if w₁.h.capture.room = 0 then chdbHelperErrMax else w₁.h.capture.room) = len
    show Ends (if _ then _ else _) _ _ _
    split
    · refine (closeFd_same .err).seq fun _ w₂ hsame => ?_
      refine ⟨⟨fun h => ?_, Or.inr ?_⟩, ?_⟩
      · rw [Calm, hsame.answers, hsame.interrupts]; exact hnext h
      · rw [hsame.answers]; exact (hshorter ha).2
      · rw [hsame.answers]; exact (hshorter ha).1
    · exact ⟨⟨hnext, Or.inr (hshorter ha).2⟩, (hshorter ha).1⟩

/-- Reaping gives the helper's status, or none for a `waitpid` that fails. -/
theorem reap_status : Ends reap w
    (fun s w' => s = w'.h.status ∧ w'.h.reaped = true ∧ w'.unread = w.unread ∧ w'.exit = w.exit ∧
      w'.h.fd = w.h.fd ∧
      (w.h.reaped = true → w'.h.status = w.h.status) ∧
      (w.h.reaped = false → s = none ∨ s = some w.exit) ∧
      (Calm w → w.h.reaped = false → s = some w.exit))
    (fun e w' => e = .cut ∧ w'.answers = [] ∧ w'.h = w.h ∧ w'.unread = w.unread ∧
      w'.exit = w.exit) := by
  unfold reap
  rw [ends_bind, ends_get]
  by_cases hreaped : w.h.reaped = true
  · rw [if_pos hreaped]
    exact ⟨rfl, hreaped, rfl, rfl, rfl, fun _ => rfl, fun h => absurd h (by rw [hreaped]; decide),
      fun _ h => absurd h (by rw [hreaped]; decide)⟩
  rw [if_neg hreaped, ends_bind]
  refine ends_forever (fun _ w' => w'.h = w.h ∧ w'.unread = w.unread ∧ w'.exit = w.exit ∧
    (Calm w → Calm w')) ?_ ⟨rfl, rfl, rfl, id⟩
  rintro - w₁ ⟨hh, hu, hx, hcalm⟩
  unfold reapTurn
  rw [ends_bind, ends_get, ends_bind]
  refine ends_sysWaitpid ?_ ?_ ?_
  · exact fun hnil => ⟨rfl, hnil, hh, hu, hx⟩
  · intro a answers ha _
    refine ⟨⟨hh, hu, hx, fun h => ((hcalm h).next ha).2⟩, ?_⟩
    show answers.length < w₁.answers.length
    rw [ha]; exact Nat.lt_succ_self _
  · rintro a answers r ha hia rfl
    have hfd : w₁.h.fd = w.h.fd := by rw [hh]
    cases a with
    | ok n =>
      have hstatus : some w₁.exit = some w.exit := by rw [hx]
      exact ⟨rfl, rfl, hu, hx, hfd, fun h => absurd h hreaped, fun _ => Or.inr hstatus,
        fun _ _ => hstatus⟩
    | error errno =>
      have hne : errno ≠ .eintr := fun he => hia (Or.inl (by rw [he]))
      show Ends (if _ then _ else _) _ _ _
      rw [if_neg hne]
      refine ⟨rfl, rfl, hu, hx, hfd, fun h => absurd h hreaped, fun _ => Or.inl rfl, fun h => ?_⟩
      -- a soft answer would not have ended the wait with an error
      rcases ((hcalm h).next ha).1 with ⟨n, hn⟩ | hn | hn
      · cases hn
      · exact absurd (Or.inr hn) hia
      · exact absurd (Or.inl hn) hia

/-! ### The output -/

/-- What is still to come is `out`, and the helper will have ended with `x`. -/
structure Streams (before : Table OpenFile) (out : Bytes) (x : WaitStatus) (w : World) : Prop where
  owns : OwnsChild before w
  data : w.unread .data = out
  exit : w.exit = x
  status : w.h.reaped = true → w.h.status = none ∨ w.h.status = some x

variable {before : Table OpenFile} {out : Bytes} {x : WaitStatus}

theorem OwnsChild.errOpen (h : OwnsChild before w) (hfd : 0 ≤ w.h.fd .err) :
    ∃ e, w.table.entry (w.h.fd .err) = some e ∧ e.file = .err :=
  Option.map_eq_some_iff.mp (h.1.1.isOpen .err hfd)

theorem closeFd_streams (f : FdField) : Keeps (Streams before out x) (closeFd f) := by
  intro w h
  refine ((closeFd_ownsChild f w h.owns).and (closeFd_same f (E := fun _ _ => False))).mono
    (fun _ w' hw' => ?_) fun _ _ he => he.2.elim
  obtain ⟨hown, hsame⟩ := hw'
  refine ⟨hown, ?_, ?_, ?_⟩
  · rw [hsame.unread, h.data]
  · rw [hsame.exit, h.exit]
  · rw [hsame.reaped, hsame.status]; exact h.status

/-- Nothing but a read of the data channel takes from the output. -/
theorem streams_steady (before : Table OpenFile) (out : Bytes) (x : WaitStatus) :
    Steady (Streams before out x) where
  answers _ _ h := ⟨h.owns, h.data, h.exit, h.status⟩
  interrupts _ _ h := ⟨h.owns, h.data, h.exit, h.status⟩
  capture _ _ h := ⟨h.owns, h.data, h.exit, h.status⟩
  readErr w e k h he := by
    have hpos : 0 ≤ w.h.fd .err := w.table.nonneg _ e he
    obtain ⟨e', he', hfile⟩ := h.owns.errOpen hpos
    rw [he] at he'
    cases he'
    refine ⟨h.owns, ?_, h.exit, h.status⟩
    show Function.update w.unread e.file _ .data = out
    rw [hfile, Function.update_of_ne (by decide), h.data]
  closeErr := closeFd_streams .err
  close := closeFd_streams
  reap w h := by
    refine (((ownsChild_steady before).reap w h.owns).and reap_status).mono ?_ ?_
    · rintro s w' ⟨hown, hs, hr, hu, hx, -, hsame, hnew, -⟩
      refine ⟨hown, by rw [hu, h.data], by rw [hx, h.exit], fun _ => ?_⟩
      by_cases hreaped : w.h.reaped = true
      · rw [hsame hreaped]; exact h.status hreaped
      · rw [← hs, ← h.exit]; exact hnew (by simpa using hreaped)
    · rintro e w' ⟨hown, -, -, hh, hu, hx⟩
      exact ⟨hown, by rw [hu, h.data], by rw [hx, h.exit], by rw [hh]; exact h.status⟩

/-- `drain_err` leaves the data channel and the child alone. -/
theorem dataOpen_quiet (d : ℤ) (reaped : Bool) :
    Quiet fun w => w.h.fd .data = d ∧ w.h.reaped = reaped where
  answers _ _ h := h
  interrupts _ _ h := h
  readErr _ _ _ h _ := h
  capture _ _ h := h
  closeErr w h := by
    unfold closeFd
    rw [ends_bind, ends_get]
    split
    · refine ⟨?_, h.2⟩
      show Function.update w.h.fd .err (-1) .data = d
      rw [Function.update_of_ne (by decide)]
      exact h.1
    · exact h

theorem checkForInterrupts_calm : Ends checkForInterrupts w
    (fun _ w' => (Calm w → Calm w') ∧ ∃ interrupts, w' = { w with interrupts })
    (fun _ _ => ¬ Calm w) := by
  refine ends_checkForInterrupts ?_ ?_ ?_
  · exact fun _ => ⟨id, w.interrupts, rfl⟩
  · intro interrupts hi
    exact ⟨fun h => ⟨h.1, fun b hb => h.2 b (by rw [hi]; exact List.mem_cons_of_mem _ hb)⟩, _, rfl⟩
  · intro interrupts hi h
    have hraise := h.2 true (by rw [hi]; exact List.mem_cons_self)
    cases hraise

/-- What `drain_err` leaves of everything the stream depends on. -/
theorem drainErr_streams (h : Streams before out x w) :
    Ends drainErr w (fun _ w' => Streams before out x w' ∧
        (w'.h.fd .data = w.h.fd .data ∧ w'.h.reaped = w.h.reaped) ∧ (Calm w → Calm w') ∧
        w'.answers.length ≤ w.answers.length ∧
        (0 ≤ w.h.fd .err → w'.answers.length < w.answers.length))
      (fun e w' => e = .cut ∧ w'.answers = []) := by
  have hopen : 0 ≤ w.h.fd .err → w.table.entry (w.h.fd .err) ≠ none := by
    intro hfd hnone
    obtain ⟨e, he, -⟩ := h.owns.errOpen hfd
    rw [hnone] at he
    cases he
  refine (((streams_steady before out x).toQuiet.drainErr w h).and
    (((dataOpen_quiet (w.h.fd .data) w.h.reaped).drainErr w ⟨rfl, rfl⟩).and
      (drainErr_calm hopen))).mono (fun _ w' hw' => hw') fun _ _ he => he.2.2

/-- After `drain_and_reap` the status is the helper's, or none. -/
theorem drainAndReap_streams (h : Streams before out x w) :
    Ends drainAndReap w (fun s w' => Streams before out x w' ∧ w'.h.fd .data = w.h.fd .data ∧
        (s = none ∨ s = some x) ∧ (Calm w → w.h.reaped = false → s = some x))
      (fun e w' => Calm w → e = .cut ∧ w'.answers = []) := by
  unfold drainAndReap
  rw [ends_bind]
  refine ends_forever (fun _ w' => Streams before out x w' ∧
    (w'.h.fd .data = w.h.fd .data ∧ w'.h.reaped = w.h.reaped) ∧ (Calm w → Calm w')) ?_
    ⟨h, ⟨rfl, rfl⟩, id⟩
  rintro - w₁ ⟨h₁, hsame₁, hcalm₁⟩
  unfold drainAndReapTurn
  rw [ends_bind, ends_get]
  by_cases hfd : w₁.h.fd .err < 0
  · -- the text has ended, and the child is reaped
    rw [if_pos hfd]
    refine (((streams_steady before out x).reap w₁ h₁).and reap_status).mono ?_ ?_
    · rintro s w₂ ⟨h₂, hs, hr₂, -, -, hfd₂, -, -, hcalm₂⟩
      refine ⟨h₂, by rw [hfd₂]; exact hsame₁.1, ?_, fun hcalm hreaped => ?_⟩
      · rw [hs]; exact h₂.status hr₂
      · rw [hcalm₂ (hcalm₁ hcalm) (hsame₁.2.trans hreaped), h₁.exit]
    · rintro e w₂ ⟨-, he, hnil, -⟩ -
      exact ⟨he, hnil⟩
  rw [if_neg hfd]
  refine checkForInterrupts_calm.seq_mono (fun _ _ he hcalm => absurd (hcalm₁ hcalm) he) ?_
  rintro - w₂ ⟨hcalm₂, interrupts, rfl⟩
  refine (drainErr_streams ((streams_steady before out x).interrupts w₁ interrupts h₁)).seq_mono
    (fun _ _ he _ => he) ?_
  rintro - w₃ ⟨h₃, hsame₃, hcalm₃, -, hless⟩
  rw [ends_bind, ends_get]
  have hdone : (Streams before out x w₃ ∧
      (w₃.h.fd .data = w.h.fd .data ∧ w₃.h.reaped = w.h.reaped) ∧ (Calm w → Calm w₃)) ∧
      w₃.answers.length < w₁.answers.length :=
    ⟨⟨h₃, ⟨hsame₃.1.trans hsame₁.1, hsame₃.2.trans hsame₁.2⟩,
      fun hcalm => hcalm₃ (hcalm₂ (hcalm₁ hcalm))⟩, hless (not_lt.mp hfd)⟩
  split <;> exact hdone

/-- A call on the open channel returns some of the output, or nothing at its end, and for a helper
    that exits with 0 a calm schedule does not make it raise. -/
theorem recv_streams (h : Streams before out x w) (hopen : 0 ≤ w.h.fd .data)
    (hunreaped : w.h.reaped = false) (sys : Sys) {len : ℕ} (hlen : 0 < len) :
    Ends (chdbHelperRecv sys len) w
      (fun got w' => (got = [] ↔ out = []) ∧ (got = [] → x = .exited 0 ∧ w'.h.fd .data < 0) ∧
        ∃ rest, out = got ++ rest ∧ Streams before rest x w' ∧
          (got ≠ [] → 0 ≤ w'.h.fd .data ∧ w'.h.reaped = false ∧ (Calm w → Calm w')))
      (fun e w' => Calm w → x = .exited 0 → e = .cut ∧ w'.answers = []) := by
  refine ends_forever (fun _ w' => Streams before out x w' ∧
    (w'.h.fd .data = w.h.fd .data ∧ w'.h.reaped = w.h.reaped) ∧ (Calm w → Calm w')) ?_
    ⟨h, ⟨rfl, rfl⟩, id⟩
  rintro - w₁ ⟨h₁, hsame₁, hcalm₁⟩
  unfold recvTurn
  refine checkForInterrupts_calm.seq_mono (fun _ _ he hcalm => absurd (hcalm₁ hcalm) he) ?_
  rintro - w₂ ⟨hcalm₂, interrupts, rfl⟩
  have hopen₁ : 0 ≤ w₁.h.fd .data := hsame₁.1 ▸ hopen
  obtain ⟨e, hentry, hfile⟩ := Option.map_eq_some_iff.mp (h₁.owns.1.1.isOpen .data hopen₁)
  rw [ends_bind, ends_get, ends_bind]
  refine ends_sysRead ?_ ?_ ?_ ?_
  · intro hnone
    have hsome : w₁.table.entry (w₁.h.fd .data) = none := hnone
    rw [hentry] at hsome
    cases hsome
  · exact fun hnil _ _ => ⟨rfl, hnil⟩
  · intro errno answers ha
    have ha : w₁.answers = .error errno :: answers := ha
    have hless : answers.length < w₁.answers.length := by rw [ha]; exact Nat.lt_succ_self _
    have hcalm₃ : Calm w → Calm { w₁ with interrupts, answers } := fun hcalm =>
      ((hcalm₂ (hcalm₁ hcalm)).next ha).2
    have h₃ : Streams before out x { w₁ with interrupts, answers } :=
      ⟨h₁.owns, h₁.data, h₁.exit, h₁.status⟩
    by_cases hagain : errno = .eagain
    · -- the channel is empty for now
      subst hagain
      refine (drainErr_streams h₃).seq_mono (fun _ _ he _ _ => he) ?_
      rintro - w₄ ⟨h₄, hsame₄, hcalm₄, hle, -⟩
      have hle : w₄.answers.length ≤ answers.length := hle
      exact ⟨⟨h₄, ⟨hsame₄.1.trans hsame₁.1, hsame₄.2.trans hsame₁.2⟩,
        fun hcalm => hcalm₄ (hcalm₃ hcalm)⟩, by omega⟩
    · show Ends (if _ then _ else _) _ _ _
      rw [if_neg hagain]
      by_cases hintr : errno = .eintr
      · rw [if_pos hintr]
        exact ⟨⟨h₃, hsame₁, hcalm₃⟩, hless⟩
      · rw [if_neg hintr]
        -- a soft answer would be one of the two
        refine (reportHelper_never sys _ _).mono (fun _ _ hf => hf.elim) fun _ _ _ hcalm _ => ?_
        rcases ((hcalm₁ hcalm).next ha).1 with ⟨n, hn⟩ | hn | hn
        · cases hn
        · exact absurd (by simpa using hn) hagain
        · exact absurd (by simpa using hn) hintr
  · intro e' n answers hentry' ha
    have hentry' : w₁.table.entry (w₁.h.fd .data) = some e' := hentry'
    have ha : w₁.answers = .ok n :: answers := ha
    rw [hentry] at hentry'
    cases hentry'
    rw [hfile]
    show Ends (if (w₁.unread .data).take (min (n + 1) len) = [] then _
      else (pure (.inr ((w₁.unread .data).take (min (n + 1) len))) : Run (Unit ⊕ Bytes))) { w₁ with
      interrupts
      answers
      unread := Function.update w₁.unread .data ((w₁.unread .data).drop (min (n + 1) len)) } _ _
    have hpos : 0 < min (n + 1) len := by omega
    generalize min (n + 1) len = k at hpos
    rw [h₁.data]
    have hunread : Function.update w₁.unread .data (out.drop k) .data = out.drop k :=
      Function.update_self ..
    have hread : Streams before (out.drop k) x { w₁ with
        interrupts
        answers
        unread := Function.update w₁.unread .data (out.drop k) } :=
      ⟨h₁.owns, hunread, h₁.exit, h₁.status⟩
    have hcalm₃ : Calm w → Calm { w₁ with interrupts, answers } := fun hcalm =>
      ((hcalm₂ (hcalm₁ hcalm)).next ha).2
    by_cases hgot : out.take k = []
    · -- the end of the stream
      have hout : out = [] := by
        rcases List.take_eq_nil_iff.mp hgot with hk | hk
        · omega
        · exact hk
      rw [if_pos hgot]
      refine (((streams_steady before _ x).close .data _ hread).and
        ((closeFd_owns hread.owns.1 .data (E := fun _ _ => False)).and
          (closeFd_same .data (E := fun _ _ => False)))).seq_mono (fun _ _ he => he.2.1.elim) ?_
      rintro - w₄ ⟨h₄, ⟨-, hclosed, -⟩, hsame₄⟩
      have hcalm₄ : Calm w → Calm w₄ := fun hcalm => by
        rw [Calm, hsame₄.answers, hsame₄.interrupts]
        exact hcalm₃ hcalm
      have hunreaped₄ : w₄.h.reaped = false := by
        rw [hsame₄.reaped]
        exact hsame₁.2.trans hunreaped
      refine (drainAndReap_streams h₄).seq_mono (fun _ _ he hcalm _ => he (hcalm₄ hcalm)) ?_
      rintro s w₅ ⟨h₅, hdata₅, hs, hcalm₅⟩
      show Ends (if _ then _ else _) _ _ _
      by_cases hzero : s = some (.exited 0)
      · rw [if_pos hzero]
        have hx : x = .exited 0 := by
          rcases hs with hs | hs
          · rw [hs] at hzero; cases hzero
          · rw [hs] at hzero; exact Option.some.inj hzero
        refine ⟨by simp [hout], fun _ => ⟨hx, by rw [hdata₅]; exact hclosed⟩, out.drop k, ?_, h₅,
          fun hne => absurd rfl hne⟩
        rw [hout, List.drop_nil]; rfl
      · rw [if_neg hzero]
        refine (reportHelper_never sys _ _).mono (fun _ _ hf => hf.elim) fun _ _ _ hcalm hx => ?_
        exact absurd (by rw [hcalm₅ (hcalm₄ hcalm) hunreaped₄, hx]) hzero
    · rw [if_neg hgot]
      refine ⟨⟨fun he => absurd he hgot, fun he => ?_⟩, fun he => absurd he hgot, out.drop k,
        (List.take_append_drop k out).symm, hread, fun _ => ⟨hopen₁, hsame₁.2.trans hunreaped, hcalm₃⟩⟩
      exact absurd (by rw [he, List.take_nil]) hgot

/-! ### Runs of calls -/

/-- The channel has not been closed. -/
def DataOpen (w : World) : Prop := 0 ≤ w.h.fd .data

/-- Calls with non-zero lengths that return, each in a state with `ok`, and what they return. -/
inductive Recvs (sys : Sys) (ok : World → Prop) : World → List Bytes → World → Prop where
  | done {w : World} : Recvs sys ok w [] w
  | call {w w' w'' : World} {len : ℕ} {got : Bytes} {gots : List Bytes} :
      ok w → 0 < len → chdbHelperRecv sys len w = .ok got w' → Recvs sys ok w' gots w'' →
        Recvs sys ok w (got :: gots) w''

/-- What the calls `gots` from `w` to `w'` promise: they have returned the beginning of the output,
    and the next one returns nothing exactly when that was all, and for a helper that exits with 0
    does not raise.  After the end none returns. -/
structure ReadsStream (sys : Sys) (w w' : World) (gots : List Bytes) : Prop where
  begins : w.unread .data = gots.flatten ++ w'.unread .data
  ended : [] ∈ gots → w'.unread .data = [] ∧ w.exit = .exited 0
  next : ∀ len, 0 < len → DataOpen w' → Ends (chdbHelperRecv sys len) w'
    (fun got _ => got = [] ↔ w'.unread .data = [])
    (fun e w'' => Calm w → w.exit = .exited 0 → e = .cut ∧ w''.answers = [])
  closed : ∀ len, ¬ DataOpen w' → Ends (chdbHelperRecv sys len) w' (fun _ _ => False) (fun _ _ => True)

theorem recvs_streams (sys : Sys) {w w' : World} {gots : List Bytes}
    (h : Streams before out x w) (hunreaped : DataOpen w → w.h.reaped = false)
    (hrun : Recvs sys DataOpen w gots w') :
    ∃ rest, out = gots.flatten ++ rest ∧ Streams before rest x w' ∧
      (DataOpen w' → w'.h.reaped = false ∧ (Calm w → Calm w')) ∧
      ([] ∈ gots → rest = [] ∧ x = .exited 0) := by
  induction hrun generalizing out with
  | done => exact ⟨out, rfl, h, fun hopen => ⟨hunreaped hopen, id⟩, nofun⟩
  | @call w w₁ w₂ len got gots hopen hlen hcall hrun ih =>
    obtain ⟨hiff, hend, rest, hout, h₁, hmore⟩ :=
      (recv_streams h hopen (hunreaped hopen) sys hlen).ok hcall
    have hstays : DataOpen w₁ → got ≠ [] := fun hopen₁ hgot => by
      have hneg := (hend hgot).2
      exact absurd hopen₁ (not_le.mpr hneg)
    obtain ⟨rest', hrest, h₂, hmore', hnil⟩ := ih h₁ fun hopen₁ => (hmore (hstays hopen₁)).2.1
    refine ⟨rest', by rw [hout, hrest, List.flatten_cons, List.append_assoc], h₂, fun hopen₂ => ?_,
      fun hin => ?_⟩
    · refine ⟨(hmore' hopen₂).1, fun hcalm => (hmore' hopen₂).2 ?_⟩
      by_cases hgot : got = []
      · -- nothing is called after the end, so nothing has been opened again
        cases hrun with
        | done => exact absurd hgot (hstays hopen₂)
        | call hopen₁ => exact absurd hgot (hstays hopen₁)
      · exact (hmore hgot).2.2 hcalm
    · rcases List.mem_cons.mp hin with hgot | hin
      · have hout' : out = [] := hiff.mp hgot.symm
        rw [hout', ← hgot, List.nil_append] at hout
        rw [← hout] at hrest
        exact ⟨(List.append_eq_nil_iff.mp hrest.symm).2, (hend hgot.symm).1⟩
      · exact hnil hin

/-- After the start the whole output is still to come, on an open channel. -/
theorem chdbHelperStart_streams (sys : Sys) (ctx : ChdbHelperContext) (query : Bytes)
    (params : List (Bytes × Bytes)) (w : World) :
    Ends (chdbHelperStart sys ctx query params) { w with log := [] }
      (fun _ w' => Streams w.table (w.unread .data) w.exit w' ∧ DataOpen w' ∧ w'.h.reaped = false)
      (fun _ _ => True) := by
  have hquiet : ∀ d, Quiet fun w' => Streams w.table (w.unread .data) w.exit w' ∧
      w'.h.fd .data = d ∧ w'.h.reaped = false := fun d =>
    { answers := fun w' answers h => ⟨(streams_steady _ _ _).answers w' answers h.1, h.2⟩
      interrupts := fun w' bs h => ⟨(streams_steady _ _ _).interrupts w' bs h.1, h.2⟩
      readErr := fun w' e k h he => ⟨(streams_steady _ _ _).readErr w' e k h.1 he, h.2⟩
      capture := fun w' c h => ⟨(streams_steady _ _ _).capture w' c h.1, h.2⟩
      closeErr := fun w' h => (((streams_steady _ _ _).closeErr w' h.1).and
        ((dataOpen_quiet d false).closeErr w' h.2)) }
  have hclose : ∀ d f, f ≠ .data → Keeps (fun w' => Streams w.table (w.unread .data) w.exit w' ∧
      w'.h.fd .data = d ∧ w'.h.reaped = false) (closeFd f) := by
    intro d f hf w' h
    refine ((closeFd_streams f w' h.1).and ((closeFd_owns h.1.owns.1 f (E := fun _ _ => False)))).mono
      (fun _ w'' hw'' => ⟨hw''.1, ?_, ?_⟩) fun _ _ he => he.2.elim
    · rw [hw''.2.2.2.1 .data hf.symm]; exact h.2.1
    · rw [hw''.2.2.2.2.2.1]; exact h.2.2
  unfold chdbHelperStart
  have htrue : ∀ {E : Stop → World → Prop} (e : Stop) (w' : World), E e w' → True :=
    fun _ _ _ => trivial
  refine (startChannels_owns (w := { w with log := [] }) sys ctx query params rfl).seq_mono htrue
    fun payload w₁ h₁ => ?_
  obtain ⟨h₁, -⟩ := h₁
  refine (forkHelper_owns sys h₁).seq_mono htrue fun _ w₂ hw₂ => ?_
  obtain ⟨hown, hfd, hreaped, hunread, hexit⟩ := hw₂
  have hstart : Streams w.table (w.unread .data) w.exit w₂ := by
    refine ⟨hown, ?_, ?_, fun hr => ?_⟩
    · rw [hunread, h₁.same.1]
    · rw [hexit, h₁.same.2]
    · rw [hreaped] at hr; cases hr
  have hopen : 0 ≤ w₂.h.fd .data := by rw [hfd]; exact h₁.opened .data
  obtain ⟨d, hd⟩ : ∃ d, w₂.h.fd .data = d := ⟨_, rfl⟩
  rw [hd] at hopen
  refine ((hquiet d).checkForInterrupts w₂ ⟨hstart, hd, hreaped⟩).seq_mono htrue
    fun _ w₃ h₃ => ?_
  refine (hclose d .dataPeer (by decide) w₃ h₃).seq_mono htrue fun _ w₄ h₄ => ?_
  refine (hclose d .errPeer (by decide) w₄ h₄).seq_mono htrue fun _ w₅ h₅ => ?_
  refine (hclose d .setupPeer (by decide) w₅ h₅).seq_mono htrue fun _ w₆ h₆ => ?_
  refine ((hquiet d).writeSetup (hclose d .setup (by decide)) sys payload h₆).imp
    fun _ w₇ h₇ => ⟨h₇.1, ?_, h₇.2.2⟩
  rw [DataOpen, h₇.2.1]
  exact hopen

/-- Once it is closed no call returns. -/
theorem recv_closed (sys : Sys) (len : ℕ) {w : World} (h : ¬ DataOpen w) :
    Ends (chdbHelperRecv sys len) w (fun _ _ => False) (fun _ _ => True) := by
  refine ends_forever (fun _ w' => w'.h = w.h) ?_ rfl
  rintro - w₁ hh
  unfold recvTurn
  refine checkForInterrupts_calm.seq_mono (fun _ _ _ => trivial) ?_
  rintro - w₂ ⟨-, interrupts, rfl⟩
  rw [ends_bind, ends_get, ends_bind]
  have hnone : w₁.table.entry (w₁.h.fd .data) = none := by
    rw [hh]
    exact w₁.table.entry_of_neg (not_le.mp h)
  refine ends_sysRead_closed hnone ?_
  -- `EBADF` is reported
  exact (reportHelper_never sys _ _).imp fun _ _ hf => hf.elim

/-- **Until the channel is closed the calls read the output and end with it**, from the start of the
    helper on. -/
theorem recv_stream (sys : Sys) (ctx : ChdbHelperContext) (query : Bytes)
    (params : List (Bytes × Bytes)) (w₀ : World) :
    Ends (chdbHelperStart sys ctx query params) { w₀ with log := [] }
      (fun _ w => DataOpen w ∧ w.unread .data = w₀.unread .data ∧ w.exit = w₀.exit ∧
        ∀ gots w', Recvs sys DataOpen w gots w' → ReadsStream sys w w' gots) (fun _ _ => True) := by
  refine (chdbHelperStart_streams sys ctx query params w₀).imp fun _ w hw => ?_
  obtain ⟨hstreams, hopen, hunreaped⟩ := hw
  refine ⟨hopen, hstreams.data, hstreams.exit, fun gots w' hrun => ?_⟩
  obtain ⟨rest, hout, hstreams', hmore, hnil⟩ := recvs_streams sys hstreams (fun _ => hunreaped) hrun
  refine ⟨?_, fun hin => ?_, fun len hlen hopen' => ?_, fun len => recv_closed sys len⟩
  · rw [hstreams.data, hout, hstreams'.data]
  · rw [hstreams'.data, hstreams.exit]
    exact hnil hin
  · obtain ⟨hunreaped', hcalm⟩ := hmore hopen'
    rw [hstreams'.data, hstreams.exit]
    exact (recv_streams hstreams' hopen' hunreaped' sys hlen).mono (fun _ _ hq => hq.1)
      fun _ _ he hc => he (hcalm hc)

/-- What a start leaves that has opened descriptors 0 to 5, of a helper that has nothing to say
    and has exited with 0. -/
def exitedHelper : World where
  h := { ChdbHelper.fresh (lit "SELECT 1 WHERE 0") with
    pid := 7
    fd := fun f =>
      match f with
      | .data => 0
      | .err => 2
      | _ => -1 }
  table := (Table.empty.put 0 (by decide) ⟨.data, true⟩).put 2 (Int.natCast_nonneg 2) ⟨.err, true⟩
  answers := [.ok 0, .error .eagain, .ok 0, .ok 0]
  interrupts := []
  unread _ := []
  exit := .exited 0
  log := [.opened 0, .opened 1, .opened 2, .opened 3, .opened 4, .opened 5, .forked 7, .closed 1,
    .closed 3, .closed 4, .closed 5]

theorem exitedHelper_streams : Streams .empty [] (.exited 0) exitedHelper := by
  have hfields : ∀ n, 0 ≤ n → (∀ f, exitedHelper.h.fd f ≠ n) → n ≠ 0 ∧ n ≠ 2 := fun n _ h =>
    ⟨fun he => h .data he.symm, fun he => h .err he.symm⟩
  refine ⟨⟨⟨⟨fun _ _ => rfl, ?_, ?_, fun n hn hfree => ?_, [2, 0], by decide, by decide, fun n => ?_⟩,
    by decide⟩, by decide⟩, rfl, rfl, fun hr => absurd hr (by decide)⟩
  · intro f hf
    cases f <;> first | rfl | exact absurd hf (by decide)
  · intro f g hf he
    cases f <;> cases g <;> first | rfl | exact absurd he (by decide) | exact absurd hf (by decide)
  · obtain ⟨h0, h2⟩ := hfields n hn hfree
    simp [exitedHelper, h0, h2]
  · simp only [List.mem_cons, List.not_mem_nil, or_false]
    constructor
    · rintro (rfl | rfl)
      · exact ⟨by decide, .err, rfl⟩
      · exact ⟨by decide, .data, rfl⟩
    · rintro ⟨hn, f, rfl⟩
      cases f <;> first | exact Or.inl rfl | exact Or.inr rfl | exact absurd hn (by decide)

/-- Read once more than to its end, it gets an error for a query that has succeeded. -/
theorem recv_raises_after_end : Calm exitedHelper ∧ exitedHelper.exit = .exited 0 ∧
    ∃ w₁ e context w₂, chdbHelperRecv plainSys 8 exitedHelper = .ok [] w₁ ∧
      chdbHelperRecv plainSys 8 w₁ = .error (.raised e context) w₂ ∧
      e.errmsg = lit "chdb: error fetching chDB query result" := by
  refine ⟨⟨?_, nofun⟩, rfl, _, _, _, _, rfl, rfl, rfl⟩
  simp [exitedHelper, Soft]

end

end PgChdb.Process
