import PgChdb.Lib.CString
import PgChdb.Lib.Utf8
import Mathlib.Data.List.Infix

namespace PgChdb

open CText Utf8

/-!
# The helper's error text

What the helper says before it ends is captured in a buffer of fixed size, and `helper_error`
edits it there into the detail of the report: trailing newlines go, a character the capture
has cut goes, the `Request ID:` line goes and the version clause goes.

* `ErrCapture` — the buffer with `err_len`; the byte behind the largest capture is never
  written and stays null;
* `MbCliplen` — `pg_encoding_mbcliplen` for UTF-8, which the server provides;
* `helperError` — the function, on the buffer; `errorText` is what it does to the text
  (`helperError_fst`);
* `errorText_valid`, `errorText_segments` — the detail is valid text, and is what was captured
  of the helper's text without its end and without two segments.
-/

/-- `CHDB_HELPER_ERR_MAX`. -/
def chdbHelperErrMax : ℕ := 4096

/-- `err_buf` and `err_len`. -/
structure ErrCapture where
  buf : Bytes
  len : ℕ
  size : buf.length = chdbHelperErrMax
  fits : len < chdbHelperErrMax
  last : buf.getLast? = some 0

/-- The server's `pg_encoding_mbcliplen(PG_UTF8, …)`: the whole characters within a length. -/
structure MbCliplen where
  cliplen : Bytes → ℕ
  le : ∀ s, cliplen s ≤ s.length
  whole : ∀ (cs : List Char) (n : ℕ), (∀ c ∈ cs, c ≠ '\x00') →
    cliplen ((encode cs).take n) = (encode (whole n cs)).length

/-- The server's function, by the lengths of the characters. -/
def pgEncodingMbcliplen : MbCliplen where
  cliplen := wholeLength
  le := wholeLength_le
  whole _ n h := wholeLength_take h n

namespace ErrCapture

/-- The text captured. -/
def text (h : ErrCapture) : Bytes := h.buf.take h.len

/-- `palloc0`. -/
def empty : ErrCapture where
  buf := List.replicate chdbHelperErrMax 0
  len := 0
  size := List.length_replicate
  fits := by decide
  last := by rw [List.getLast?_replicate]; rfl

/-- `sizeof(h->err_buf) - 1 - h->err_len`. -/
def room (h : ErrCapture) : ℕ := chdbHelperErrMax - 1 - h.len

theorem length_text (h : ErrCapture) : h.text.length = h.len := by
  have hsize := h.size
  have hfits := h.fits
  rw [text, List.length_take]
  omega

@[simp] theorem text_empty : empty.text = [] := rfl

/-- A read into the room of the buffer. -/
def append (h : ErrCapture) (got : Bytes) (hgot : got.length ≤ h.room) : ErrCapture where
  buf := h.text ++ (got ++ h.buf.drop (h.len + got.length))
  len := h.len + got.length
  size := by
    have hsize := h.size
    have hfits := h.fits
    have htext := h.length_text
    unfold room at hgot
    simp only [List.length_append, List.length_drop]
    omega
  fits := by
    have hfits := h.fits
    unfold room at hgot
    omega
  last := by
    have hsize := h.size
    have hfits := h.fits
    unfold room at hgot
    have hbehind : h.buf.drop (h.len + got.length) ≠ [] := by
      intro hnil
      have hle := List.drop_eq_nil_iff.mp hnil
      omega
    rw [← List.append_assoc, List.getLast?_append_of_ne_nil _ hbehind, List.getLast?_drop,
      if_neg (by omega), h.last]

@[simp] theorem text_append (h : ErrCapture) (got : Bytes) (hgot : got.length ≤ h.room) :
    (h.append got hgot).text = h.text ++ got := by
  have hlen : h.len + got.length = (h.text ++ got).length := by
    rw [List.length_append, h.length_text]
  show List.take (h.len + got.length) (h.text ++ (got ++ _)) = _
  rw [hlen, ← List.append_assoc, List.take_left]

/-- The capture of a text that fits. -/
def ofText (t : Bytes) (ht : t.length < chdbHelperErrMax) : ErrCapture :=
  empty.append t (Nat.le_sub_one_of_lt ht)

@[simp] theorem text_ofText {t : Bytes} (ht : t.length < chdbHelperErrMax) :
    (ofText t ht).text = t := text_append empty t _

/-- There is a null byte behind every capture. -/
theorem zero_mem (h : ErrCapture) : 0 ∈ h.buf := List.mem_of_getLast? h.last

theorem holdsString (h : ErrCapture) : HoldsString h.buf (cstr h.buf) :=
  holdsString_cstr h.zero_mem

/-- `h->err_len = n; h->err_buf[h->err_len] = '\0'`. -/
def clipTo (h : ErrCapture) (n : ℕ) (hn : n ≤ h.len) : ErrCapture where
  buf := h.buf.set n 0
  len := n
  size := by rw [List.length_set, h.size]
  fits := Nat.lt_of_le_of_lt hn h.fits
  last := by
    have hsize := h.size
    have hlast := h.last
    rw [List.getLast?_eq_getElem?, List.length_set] at *
    rw [List.getElem?_set]
    split
    · split <;> simp_all
    · exact hlast

@[simp] theorem len_clipTo (h : ErrCapture) {n : ℕ} (hn : n ≤ h.len) : (h.clipTo n hn).len = n :=
  rfl

theorem cstr_clipTo (h : ErrCapture) {n : ℕ} (hn : n ≤ h.len) (hnul : 0 ∉ h.text.take n) :
    cstr (h.clipTo n hn).buf = h.text.take n := by
  have hsize := h.size
  have hfits := h.fits
  have htake : h.text.take n = h.buf.take n := by
    rw [text, List.take_take, Nat.min_eq_left hn]
  rw [htake] at hnul ⊢
  exact (HoldsString.terminate (by omega) hnul).cstr

/-- A segment taken out of the string in the buffer, and the length of what is left. -/
def deleteSegment (pat : Bytes) (stop : UInt8) (h : ErrCapture) : ErrCapture where
  buf := CText.deleteSegment pat stop h.buf
  len := if (segment pat stop (cstr h.buf)).isSome then
    (cstr (CText.deleteSegment pat stop h.buf)).length else h.len
  size := by rw [(h.holdsString.deleteSegment pat stop).2, h.size]
  fits := by
    have hholds := (h.holdsString.deleteSegment pat stop)
    have hlt := hholds.1.length_lt
    rw [hholds.2, h.size] at hlt
    rw [hholds.1.cstr]
    split
    · exact hlt
    · exact h.fits
  last := by rw [h.holdsString.getLast?_deleteSegment, h.last]

@[simp] theorem cstr_deleteSegment (h : ErrCapture) (pat : Bytes) (stop : UInt8) :
    cstr (h.deleteSegment pat stop).buf = withoutSegment pat stop (cstr h.buf) :=
  (h.holdsString.deleteSegment pat stop).1.cstr

end ErrCapture

/-! ### The function -/

/-- A trailing byte the report does without. -/
def isLineEnd (b : UInt8) : Bool := b == byte '\n' || b == byte '\r'

/-- The first loop: `err_len` without the line ends before it. -/
def stripLen (buf : Bytes) : ℕ → ℕ
  | 0 => 0
  | len + 1 => if isLineEnd (buf.getD len 0) then stripLen buf len else len + 1

theorem stripLen_le (buf : Bytes) (len : ℕ) : stripLen buf len ≤ len := by
  induction len with
  | zero => exact Nat.le_refl 0
  | succ len ih =>
    unfold stripLen
    split
    · exact Nat.le_succ_of_le ih
    · exact Nat.le_refl _

/-- `"Request ID:"`. -/
def requestId : Bytes := lit "Request ID:"

/-- `" (version "`. -/
def versionClause : Bytes := lit " (version "

/-- The error text the report gets, null when there is none, and what becomes of the buffer. -/
def helperError (clip : MbCliplen) (h : ErrCapture) : Option Bytes × ErrCapture :=
  -- strip trailing newlines
  let len := stripLen h.buf h.len
  let clipped := clip.cliplen (h.buf.take len)
  let h := h.clipTo clipped <| by
    have hclip := clip.le (h.buf.take len)
    have hstrip := stripLen_le h.buf h.len
    rw [List.length_take] at hclip
    omega
  if h.len = 0 then (none, h)
  else
    let h := h.deleteSegment requestId (byte '\n')
    let h := h.deleteSegment versionClause (byte ')')
    (some h.buf, h)

/-- A text without the newlines at its end. -/
def stripped (s : Bytes) : Bytes := s.rdropWhile isLineEnd

/-- What it does to the text. -/
def errorText (clip : MbCliplen) (t : Bytes) : Option Bytes :=
  let s := stripped t
  let s := s.take (clip.cliplen s)
  if s = [] then none
  else some (withoutSegment versionClause (byte ')') (withoutSegment requestId (byte '\n') s))

theorem stripped_isPrefix (s : Bytes) : stripped s <+: s := List.rdropWhile_prefix isLineEnd s

theorem take_stripLen (buf : Bytes) {len : ℕ} (hlen : len ≤ buf.length) :
    buf.take (stripLen buf len) = stripped (buf.take len) := by
  unfold stripped
  induction len with
  | zero => simp [stripLen]
  | succ len ih =>
    have hlt : len < buf.length := hlen
    have hget : buf.getD len 0 = buf[len] := by simp [hlt]
    rw [List.take_succ_eq_append_getElem hlt, stripLen, hget]
    by_cases heol : isLineEnd buf[len] = true
    · rw [if_pos heol, List.rdropWhile_concat_pos _ _ _ heol, ih (by omega)]
    · rw [if_neg heol, List.rdropWhile_concat_neg _ _ _ heol, List.take_succ_eq_append_getElem hlt]

/-- **The function on the buffer is the function on the text**, and what it returns is the buffer
    it leaves. -/
theorem helperError_fst (clip : MbCliplen) (h : ErrCapture) (hnul : 0 ∉ h.text) :
    (helperError clip h).1.map cstr = errorText clip h.text := by
  have hsize := h.size
  have hfits := h.fits
  have hstrip : h.buf.take (stripLen h.buf h.len) = stripped h.text :=
    take_stripLen h.buf (by omega)
  have hprefix : stripped h.text <+: h.text := stripped_isPrefix h.text
  have hclip := clip.le (stripped h.text)
  have hlen := hprefix.length_le
  rw [h.length_text] at hlen
  -- the clipped text is a beginning of the stripped one, which is one of the text
  have hcut : h.text.take (clip.cliplen (stripped h.text))
      = (stripped h.text).take (clip.cliplen (stripped h.text)) := by
    obtain ⟨tail, htail⟩ := hprefix
    have happend : (stripped h.text ++ tail).take
        (clip.cliplen (stripped h.text)) = _ := List.take_append_of_le_length hclip
    rwa [htail] at happend
  have hfree : 0 ∉ h.text.take (clip.cliplen (stripped h.text)) :=
    fun hmem => hnul (List.mem_of_mem_take hmem)
  unfold helperError errorText
  simp only [hstrip, ErrCapture.len_clipTo]
  by_cases hzero : clip.cliplen (stripped h.text) = 0
  · have hnil : (stripped h.text).take (clip.cliplen (stripped h.text)) = [] := by
      rw [hzero, List.take_zero]
    rw [if_pos hzero, if_pos hnil, Option.map_none]
  · have hne : (stripped h.text).take (clip.cliplen (stripped h.text)) ≠ [] := by
      intro hnil
      have hlength := congrArg List.length hnil
      rw [List.length_take, List.length_nil] at hlength
      omega
    rw [if_neg hzero, if_neg hne, Option.map_some, ErrCapture.cstr_deleteSegment,
      ErrCapture.cstr_deleteSegment, ErrCapture.cstr_clipTo h _ hfree, hcut]

theorem helperError_eq_some {clip : MbCliplen} {h : ErrCapture} {buf : Bytes}
    (he : (helperError clip h).1 = some buf) : buf = (helperError clip h).2.buf := by
  unfold helperError at he ⊢
  dsimp only at he ⊢
  split at he
  · cases he
  · rename_i hne
    rw [if_neg hne]
    exact (Option.some.inj he).symm

/-! ### What is left of a text -/

/-- `s'` is `s`, or `s` without a piece from `pat` up to and with the next `stop`. -/
def LosesSegment (pat : Bytes) (stop : UInt8) (s s' : Bytes) : Prop :=
  s' = s ∨ ∃ pre line rest, pat <+: line ∧ stop ∉ line ∧ s = pre ++ (line ++ stop :: rest) ∧
    s' = pre ++ rest

theorem withoutSegment_losesSegment (pat : Bytes) (stop : UInt8) (hpat : stop ∉ pat) (s : Bytes) :
    LosesSegment pat stop s (withoutSegment pat stop s) := by
  unfold withoutSegment
  cases hseg : segment pat stop s with
  | none => exact Or.inl rfl
  | some p =>
    obtain ⟨pre, line, rest⟩ := p
    obtain ⟨hs, hline, post, -, hpost⟩ := segment_eq_some hseg
    refine Or.inr ⟨pre, line, rest, ?_, hline, hs, rfl⟩
    -- the stop is behind the pattern, which has none
    rcases List.append_eq_append_iff.mp hpost with ⟨m, hm, -⟩ | ⟨m, hm, hpost'⟩
    · exact ⟨m, hm.symm⟩
    · cases m with
      | nil => rw [hm, List.append_nil]
      | cons b m =>
        simp only [List.cons_append, List.cons.injEq] at hpost'
        apply absurd _ hpat
        rw [hm, hpost'.1]
        simp

/-- Valid text stays valid without a piece that begins and ends with a byte below 128. -/
theorem LosesSegment.valid {c : UInt8} {pat : Bytes} {stop : UInt8} {s s' : Bytes}
    (h : LosesSegment (c :: pat) stop s s') (hc : c.toNat < 128) (hstop : stop.toNat < 128)
    (hs : Valid s) : Valid s' := by
  rcases h with rfl | ⟨pre, line, rest, ⟨m, rfl⟩, -, rfl, rfl⟩
  · exact hs
  · apply Valid.cut hc hstop (m := pat ++ m)
    simpa using hs

/-- What is left of a valid text that was cut anywhere, stripped and clipped, is whole
    characters. -/
theorem clip_valid (clip : MbCliplen) {cs : List Char} (hcs : ∀ c ∈ cs, c ≠ '\x00') (n : ℕ) :
    Valid ((stripped ((encode cs).take n)).take
      (clip.cliplen (stripped ((encode cs).take n)))) := by
  have htake : stripped ((encode cs).take n)
      = (encode cs).take (min (stripped ((encode cs).take n)).length n) := by
    conv_lhs => rw [List.prefix_iff_eq_take.mp (stripped_isPrefix _), List.take_take]
  generalize min (stripped ((encode cs).take n)).length n = m at htake
  rw [htake, clip.whole cs m hcs, take_encode_whole]
  exact ⟨_, rfl⟩

/-- **The error detail of a valid text, cut anywhere**, is valid, and is a beginning of the text
    without its line ends, without the rest of a `Request ID:` line and without a version. -/
theorem errorText_valid (clip : MbCliplen) {cs : List Char} (hcs : ∀ c ∈ cs, c ≠ '\x00') (n : ℕ)
    {e : Bytes} (he : errorText clip ((encode cs).take n) = some e) :
    Valid e ∧ ∃ base unlabelled, base <+: stripped ((encode cs).take n) ∧
      LosesSegment requestId (byte '\n') base unlabelled ∧
      LosesSegment versionClause (byte ')') unlabelled e := by
  have hvalid := clip_valid clip hcs n
  unfold errorText at he
  dsimp only at he
  have hprefix := List.take_prefix (clip.cliplen (stripped ((encode cs).take n)))
    (stripped ((encode cs).take n))
  generalize (stripped ((encode cs).take n)).take
    (clip.cliplen (stripped ((encode cs).take n))) = base at hvalid he hprefix
  split at he
  · cases he
  · cases he
    have hid := withoutSegment_losesSegment requestId (byte '\n') (by decide) base
    have hversion := withoutSegment_losesSegment versionClause (byte ')') (by decide)
      (withoutSegment requestId (byte '\n') base)
    have hvalid' := hid.valid (by decide) (by decide) hvalid
    exact ⟨hversion.valid (by decide) (by decide) hvalid', base, _, hprefix, hid, hversion⟩

end PgChdb
