import PgChdb.Helper.Steady

namespace PgChdb.Process

open CText Utf8 Descriptors Machine

/-!
# What `drain_err` keeps

`drain_err` is called whenever a channel would block, so the helper's error text comes in pieces
of any size over many calls.  What is kept does not depend on them.

* `drains` — that many calls of `drain_err`, one after another;
* `Captured`, `Detailed` — the buffer holds the beginning of what has been read, and what
  `helper_error` makes of it;
* `drains_captured` — both hold after any number of calls, however the reads go.
-/

/-- So many calls of `drain_err`. -/
def drains : ℕ → Run Unit
  | 0 => return ()
  | k + 1 => do
    drainErr
    drains k

/-- The longest text that is kept. -/
def errKept : ℕ := chdbHelperErrMax - 1

/-- Of the text `t` everything up to what is unread has been read, and the beginning of that is in
    the buffer.  The descriptor is closed only at the end. -/
structure Captured (t : Bytes) (w : World) : Prop where
  kept : ∃ taken, t = taken ++ w.unread .err ∧ w.h.capture.text = taken.take errKept
  len : w.h.capture.len ≤ errKept
  all : w.h.fd .err < 0 → w.unread .err = []

/-- What `helper_error` returns for a capture of the text: nothing, or a terminated string in the
    buffer that is valid and what is left of the captured text. -/
structure Detailed (clip : MbCliplen) (h : ErrCapture) : Prop where
  terminated : ∀ buf, (helperError clip h).1 = some buf → buf.length = chdbHelperErrMax ∧ 0 ∈ buf
  ofText : (helperError clip h).1.map cstr = errorText clip h.text
  valid : ∀ e, errorText clip h.text = some e → Valid e ∧ ∃ base unlabelled,
    base <+: stripped h.text ∧ LosesSegment requestId (byte '\n') base unlabelled ∧
      LosesSegment versionClause (byte ')') unlabelled e

theorem errKept_eq (h : ErrCapture) : h.text.length + h.room = errKept := by
  have hfits := h.fits
  rw [h.length_text, ErrCapture.room, errKept]
  omega

/-- A read adds to the buffer what there is room for. -/
theorem text_keep {h : ErrCapture} {taken : Bytes} (htext : h.text = taken.take errKept)
    (got : Bytes) : (keep h got).text = (taken ++ got).take errKept := by
  have hroom := errKept_eq h
  have hlen := congrArg List.length htext
  rw [List.length_take] at hlen
  have hrest : h.room = errKept - taken.length := by omega
  rw [keep, ErrCapture.text_append, htext, List.take_append, hrest]

/-- The error pipe, while it is open. -/
def ErrOpen (w : World) : Prop :=
  0 ≤ w.h.fd .err → ∃ e, w.table.entry (w.h.fd .err) = some e ∧ e.file = .err

theorem closeFd_err {t : Bytes} {w : World} {E : Stop → World → Prop} (h : Captured t w)
    (hempty : w.unread .err = []) :
    Ends (closeFd .err) w
      (fun _ w' => Captured t w' ∧ w'.h.fd .err < 0 ∧ w'.answers = w.answers) E := by
  unfold closeFd
  rw [ends_bind, ends_get]
  by_cases hf : 0 ≤ w.h.fd .err
  · rw [if_pos hf]
    refine ⟨⟨h.kept, h.len, fun _ => hempty⟩, ?_, rfl⟩
    show Function.update w.h.fd .err (-1) .err < 0
    rw [Function.update_self]
    decide
  · rw [if_neg hf]
    exact ⟨h, not_le.mp hf, rfl⟩

/-- An answer that sends a read away. -/
def refused : Answer → Bool
  | .ok _ => false
  | .error errno => errno ≠ .eintr

/-- From `w` to `w'` that many calls were made, and each that has not come to the end of the text
    was sent away. -/
def Refused (k : ℕ) (w w' : World) : Prop :=
  ∃ used, w.answers = used ++ w'.answers ∧
    (0 ≤ w'.h.fd .err → 0 ≤ w.h.fd .err ∧ k ≤ used.countP refused)

/-- One call of `drain_err` keeps it so, and is sent away or comes to the end. -/
theorem drainErr_captured {t : Bytes} {w : World} (h : Captured t w) (hopen : ErrOpen w) :
    Ends drainErr w (fun _ w' => Captured t w' ∧ ErrOpen w' ∧ Refused 1 w w')
      (fun e w' => e = .cut ∧ Captured t w' ∧ ErrOpen w') := by
  refine ends_forever (fun _ w' => Captured t w' ∧ ErrOpen w' ∧ Refused 0 w w') ?_
    ⟨h, hopen, [], rfl, fun hpos => ⟨hpos, Nat.zero_le _⟩⟩
  rintro - w₁ ⟨h₁, hopen₁, used, hused, hwas⟩
  have hnext : ∀ {a answers}, w₁.answers = a :: answers → w.answers = (used ++ [a]) ++ answers := by
    intro a answers ha
    rw [hused, ha, List.append_assoc]
    rfl
  unfold drainTurn
  rw [ends_bind, ends_get]
  by_cases hfd : w₁.h.fd .err < 0
  · rw [if_pos hfd]
    exact ⟨h₁, hopen₁, used, hused, fun hpos => absurd hfd (not_lt.mpr hpos)⟩
  rw [if_neg hfd, ends_bind]
  obtain ⟨hwas₁, -⟩ := hwas (not_lt.mp hfd)
  obtain ⟨e, hentry, hfile⟩ := hopen₁ (not_lt.mp hfd)
  refine ends_sysRead ?_ ?_ ?_ ?_
  · intro hnone
    rw [hentry] at hnone
    cases hnone
  · exact fun _ => ⟨rfl, h₁, hopen₁⟩
  · intro errno answers ha
    show Ends (if _ then _ else _) _ _ _
    split
    · refine ⟨⟨⟨h₁.kept, h₁.len, h₁.all⟩, hopen₁, _, hnext ha, fun _ => ⟨hwas₁, Nat.zero_le _⟩⟩, ?_⟩
      rw [ha]; simp
    · rename_i hne
      refine ⟨⟨h₁.kept, h₁.len, h₁.all⟩, hopen₁, _, hnext ha, fun _ => ⟨hwas₁, ?_⟩⟩
      have hrefused : refused (.error errno) = true := by simpa [refused] using hne
      rw [List.countP_append, List.countP_singleton, if_pos hrefused]
      omega
  · intro e' n answers hentry' ha
    rw [hentry] at hentry'
    cases hentry'
    rw [hfile]
    generalize hlen : (if w₁.h.capture.room = 0 then chdbHelperErrMax else w₁.h.capture.room) = len
    have hpos : 0 < min (n + 1) len := by
      have hmax : 0 < chdbHelperErrMax := by decide
      split at hlen <;> omega
    generalize min (n + 1) len = k at hpos
    obtain ⟨taken, htaken, htext⟩ := h₁.kept
    have hunread : Function.update w₁.unread .err ((w₁.unread .err).drop k) .err
        = (w₁.unread .err).drop k := Function.update_self ..
    -- what is read moves from the unread text to the text taken
    have hmoved : Captured t { w₁ with
        h := { w₁.h with capture := keep w₁.h.capture ((w₁.unread .err).take k) }
        answers
        unread := Function.update w₁.unread .err ((w₁.unread .err).drop k) } := by
      refine ⟨⟨taken ++ (w₁.unread .err).take k, ?_, text_keep htext _⟩, ?_, fun hneg => ?_⟩
      · show t = taken ++ (w₁.unread .err).take k ++
          Function.update w₁.unread .err ((w₁.unread .err).drop k) .err
        rw [hunread, List.append_assoc, List.take_append_drop, htaken]
      · exact Nat.le_pred_of_lt (keep _ _).fits
      · exact absurd hneg hfd
    show Ends (if _ then _ else _) _ _ _
    split
    · rename_i hnil
      have hend : w₁.unread .err = [] := by
        rcases List.take_eq_nil_iff.mp hnil with hk | hk
        · omega
        · exact hk
      have hsame : Captured t { w₁ with
          answers
          unread := Function.update w₁.unread .err ((w₁.unread .err).drop k) } := by
        refine ⟨⟨taken, ?_, htext⟩, h₁.len, fun hneg => absurd hneg hfd⟩
        show t = taken ++ Function.update w₁.unread .err ((w₁.unread .err).drop k) .err
        rw [hunread, hend, List.drop_nil, htaken, hend]
      refine (closeFd_err hsame ?_).seq fun _ w₂ hw₂ => ?_
      · show Function.update w₁.unread .err ((w₁.unread .err).drop k) .err = []
        rw [hunread, hend, List.drop_nil]
      · have hgone : ¬ 0 ≤ w₂.h.fd .err := not_le.mpr hw₂.2.1
        refine ⟨⟨hw₂.1, fun hpos => absurd hpos hgone, used ++ [.ok n], ?_,
          fun hpos => absurd hpos hgone⟩, ?_⟩
        · rw [hw₂.2.2]
          exact hnext ha
        rw [hw₂.2.2]
        show answers.length < w₁.answers.length
        rw [ha]; simp
    · refine ⟨⟨hmoved, hopen₁, _, hnext ha, fun _ => ⟨hwas₁, Nat.zero_le _⟩⟩, ?_⟩
      show answers.length < w₁.answers.length
      rw [ha]; simp

theorem helperError_detailed (clip : MbCliplen) {cs : List Char} (hcs : ∀ c ∈ cs, c ≠ '\x00')
    {h : ErrCapture} {n : ℕ} (htext : h.text = (encode cs).take n) : Detailed clip h where
  terminated buf hbuf := by
    rw [helperError_eq_some hbuf]
    exact ⟨(helperError clip h).2.size, (helperError clip h).2.zero_mem⟩
  ofText := by
    apply helperError_fst
    intro hzero
    rw [htext] at hzero
    obtain ⟨c, hc, hin⟩ := List.mem_flatMap.mp (List.mem_of_mem_take hzero)
    exact zero_not_mem_encodeChar (hcs c hc) hin
  valid e he := by
    rw [htext] at he ⊢
    exact errorText_valid clip hcs n he

/-- **However its reads go, `drain_err` keeps the beginning of the text, takes all of it, and what
    becomes of it is valid text** that depends on nothing else. -/
theorem drains_captured (clip : MbCliplen) {cs : List Char} (hcs : ∀ c ∈ cs, c ≠ '\x00') (k : ℕ)
    {w : World} (hopen : 0 ≤ w.h.fd .err)
    (hfile : (w.table.entry (w.h.fd .err)).map Entry.file = some .err)
    (hcapture : w.h.capture = .empty) (htext : w.unread .err = encode cs) :
    Ends (drains k) w
      (fun _ w' => Captured (encode cs) w' ∧ Detailed clip w'.h.capture ∧ Refused k w w' ∧
        (w'.h.fd .err < 0 → w'.h.capture.text = (encode cs).take errKept))
      (fun e w' => e = .cut ∧ Captured (encode cs) w' ∧ Detailed clip w'.h.capture) := by
  have hstart : Captured (encode cs) w := by
    refine ⟨⟨[], htext.symm, ?_⟩, ?_, fun hneg => absurd hopen (not_le.mpr hneg)⟩
    · rw [hcapture, ErrCapture.text_empty, List.take_nil]
    · rw [hcapture]; exact Nat.zero_le _
  have hend : ErrOpen w := by
    intro _
    obtain ⟨e, he, hf⟩ := Option.map_eq_some_iff.mp hfile
    exact ⟨e, he, hf⟩
  have hdetail : ∀ {w' : World}, Captured (encode cs) w' → Detailed clip w'.h.capture := by
    intro w' h'
    obtain ⟨taken, htaken, hkept⟩ := h'.kept
    apply helperError_detailed clip hcs (n := min errKept taken.length)
    rw [hkept, htaken, List.take_append_of_le_length (Nat.min_le_right _ _), ← List.take_eq_take_min]
  have hrun : Ends (drains k) w (fun _ w' => Captured (encode cs) w' ∧ Refused k w w')
      (fun e w' => e = .cut ∧ Captured (encode cs) w') := by
    clear hopen hfile hcapture htext
    induction k generalizing w with
    | zero => exact ⟨hstart, [], rfl, fun hpos => ⟨hpos, Nat.zero_le _⟩⟩
    | succ k ih =>
      rw [drains, ends_bind]
      refine (drainErr_captured hstart hend).mono (fun _ w₁ hw₁ => ?_) fun _ _ he => ⟨he.1, he.2.1⟩
      obtain ⟨h₁, hopen₁, used, hused, hone⟩ := hw₁
      refine (ih h₁ hopen₁).imp fun _ w₂ hw₂ => ⟨hw₂.1, ?_⟩
      obtain ⟨used', hused', hmore⟩ := hw₂.2
      refine ⟨used ++ used', by rw [hused, hused', List.append_assoc], fun hpos => ?_⟩
      obtain ⟨hpos₁, hcount'⟩ := hmore hpos
      obtain ⟨hpos₀, hcount⟩ := hone hpos₁
      refine ⟨hpos₀, ?_⟩
      rw [List.countP_append]
      omega
  refine hrun.mono (fun _ w' hw' => ⟨hw'.1, hdetail hw'.1, hw'.2, fun hclosed => ?_⟩)
    fun _ _ he => ⟨he.1, he.2, hdetail he.2⟩
  obtain ⟨taken, htaken, hkept⟩ := hw'.1.kept
  rw [hw'.1.all hclosed, List.append_nil] at htaken
  rw [hkept, htaken]

/-- A helper with something to say, the pipe being empty at first. -/
def talkingHelper : World where
  h := { ChdbHelper.fresh (lit "SELECT") with
    pid := 7
    fd := fun f =>
      match f with
      | .err => 5
      | _ => -1 }
  table := Table.empty.put 5 (by decide) ⟨.err, true⟩
  answers := [.error .eagain, .ok 0, .ok 0]
  interrupts := []
  unread f := if f = .err then encode "Code: 62".toList else []
  exit := .exited 1
  log := []

theorem drains_captured_talking :
    Ends (drains 2) talkingHelper
      (fun _ w' => Captured (encode "Code: 62".toList) w' ∧ Detailed pgEncodingMbcliplen w'.h.capture ∧
        Refused 2 talkingHelper w' ∧
        (w'.h.fd .err < 0 → w'.h.capture.text = (encode "Code: 62".toList).take errKept))
      (fun e w' => e = .cut ∧ Captured (encode "Code: 62".toList) w' ∧
        Detailed pgEncodingMbcliplen w'.h.capture) :=
  drains_captured pgEncodingMbcliplen (by simp) 2 (by decide) rfl rfl rfl

end PgChdb.Process
