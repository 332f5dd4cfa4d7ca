import PgChdb.Lib.Bytes
import PgChdb.Lib.Text
import Mathlib.Data.List.DropRight

namespace CText

/-!
# Null-terminated strings in a buffer

A C string is the bytes of a buffer up to its first null byte, which it has to have.

* `cstr`, `HoldsString` — the string in a buffer, and the buffers that hold one;
* `memmove` — overlapping copies inside a buffer;
* `segment` — the piece of a string from a pattern to the next stop byte;
* `deleteSegment` — such a piece is moved over, if there is one; `HoldsString.deleteSegment`
  says what is left, `withoutSegment`.
-/

/-- The string in a buffer. -/
def cstr (buf : Bytes) : Bytes := upTo 0 buf

/-- The buffer holds the string `s`, with its null byte. -/
def HoldsString (buf s : Bytes) : Prop := 0 ∉ s ∧ ∃ junk, buf = s ++ 0 :: junk

theorem HoldsString.cstr {buf s : Bytes} (h : HoldsString buf s) : cstr buf = s := by
  obtain ⟨hs, junk, rfl⟩ := h
  exact upTo_append hs junk

theorem HoldsString.zero_mem {buf s : Bytes} (h : HoldsString buf s) : 0 ∈ buf := by
  obtain ⟨_, junk, rfl⟩ := h
  simp

/-- A buffer with a null byte holds a string. -/
theorem holdsString_cstr {buf : Bytes} (h : 0 ∈ buf) : HoldsString buf (CText.cstr buf) :=
  ⟨not_mem_upTo 0 buf, past 0 buf, (upTo_append_past h).symm⟩

theorem HoldsString.length_lt {buf s : Bytes} (h : HoldsString buf s) : s.length < buf.length := by
  obtain ⟨_, junk, rfl⟩ := h
  rw [List.length_append, List.length_cons]
  omega

/-- `buf[len] = '\0'`. -/
theorem HoldsString.terminate {buf : Bytes} {len : ℕ} (hlen : len < buf.length)
    (hs : 0 ∉ buf.take len) : HoldsString (buf.set len 0) (buf.take len) := by
  refine ⟨hs, buf.drop (len + 1), ?_⟩
  rw [List.set_eq_take_append_cons_drop, if_pos hlen]

/-- `memmove(buf + dst, buf + src, n)`. -/
def memmove (buf : Bytes) (dst src n : ℕ) : Bytes :=
  buf.take dst ++ ((buf.drop src).take n ++ buf.drop (dst + n))

/-- The first piece from `pat` on, up to the next `stop`: the text in front of it, the piece, and
    the text behind the `stop`. -/
def segment (pat : Bytes) (stop : UInt8) (s : Bytes) : Option (Bytes × Bytes × Bytes) :=
  match strstr pat s with
  | none => none
  | some (pre, post) =>
    match cut stop (pat ++ post) with
    | (_, none) => none
    | (line, some rest) => some (pre, line, rest)

/-- The string without it, and without the `stop`. -/
def withoutSegment (pat : Bytes) (stop : UInt8) (s : Bytes) : Bytes :=
  match segment pat stop s with
  | none => s
  | some (pre, _, rest) => pre ++ rest

/-- What the code does in the buffer: `strstr`, `strchr` from what it found, and a `memmove` of
    the bytes behind that, the null byte included. -/
def deleteSegment (pat : Bytes) (stop : UInt8) (buf : Bytes) : Bytes :=
  match segment pat stop (cstr buf) with
  | none => buf
  | some (pre, line, rest) => memmove buf pre.length (pre.length + line.length + 1) (rest.length + 1)

theorem segment_of_strstr {pat s pre post line rest : Bytes} {stop : UInt8}
    (hfind : strstr pat s = some (pre, post)) (hstop : pat ++ post = line ++ stop :: rest)
    (hline : stop ∉ line) : segment pat stop s = some (pre, line, rest) := by
  unfold segment
  simp only [hfind, cut_eq_some.mpr ⟨hstop, hline⟩]

/-- Nothing found, or nothing to end it. -/
theorem segment_eq_none {pat s : Bytes} {stop : UInt8}
    (h : ∀ pre post, strstr pat s = some (pre, post) → stop ∉ pat ++ post) :
    segment pat stop s = none := by
  unfold segment
  cases hfind : strstr pat s with
  | none => rfl
  | some p => simp only [cut_of_not_mem (h p.1 p.2 hfind)]

/-- The string is put together of the three. -/
theorem segment_eq_some {pat s pre line rest : Bytes} {stop : UInt8}
    (h : segment pat stop s = some (pre, line, rest)) :
    s = pre ++ (line ++ stop :: rest) ∧ stop ∉ line ∧
      ∃ post, strstr pat s = some (pre, post) ∧ pat ++ post = line ++ stop :: rest := by
  unfold segment at h
  cases hfind : strstr pat s with
  | none => rw [hfind] at h; cases h
  | some p =>
    obtain ⟨pre', post⟩ := p
    rw [hfind] at h
    cases hcut : cut stop (pat ++ post) with
    | mk line' tail =>
      cases tail with
      | none => simp only [hcut] at h; cases h
      | some rest' =>
        simp only [hcut] at h
        cases h
        obtain ⟨hstop, hline⟩ := cut_eq_some.mp hcut
        refine ⟨?_, hline, post, rfl, hstop⟩
        rw [strstr_eq_some hfind, List.append_assoc, hstop]

/-- The buffer then holds the string without the piece, and is as long as it was. -/
theorem HoldsString.deleteSegment {buf s : Bytes} (h : HoldsString buf s) (pat : Bytes)
    (stop : UInt8) : HoldsString (deleteSegment pat stop buf) (withoutSegment pat stop s) ∧
      (CText.deleteSegment pat stop buf).length = buf.length := by
  have hstr := h.cstr
  obtain ⟨hs, junk, rfl⟩ := h
  unfold CText.deleteSegment withoutSegment
  rw [hstr]
  cases hseg : segment pat stop s with
  | none => exact ⟨⟨hs, junk, rfl⟩, rfl⟩
  | some p =>
    obtain ⟨pre, line, rest⟩ := p
    obtain ⟨rfl, -, -⟩ := segment_eq_some hseg
    have hmoved : ((pre ++ (line ++ stop :: rest) ++ 0 :: junk).drop
        (pre.length + line.length + 1)).take (rest.length + 1) = rest ++ [0] := by
      have hsplit : pre ++ (line ++ stop :: rest) ++ 0 :: junk
          = (pre ++ line ++ [stop]) ++ ((rest ++ [0]) ++ junk) := by simp
      have hbefore : pre.length + line.length + 1 = (pre ++ line ++ [stop]).length := by
        simp [Nat.add_assoc]
      have hlen : rest.length + 1 = (rest ++ [(0 : UInt8)]).length := by simp
      rw [hsplit, hbefore, List.drop_left, hlen, List.take_left]
    have hmove : memmove (pre ++ (line ++ stop :: rest) ++ 0 :: junk) pre.length
        (pre.length + line.length + 1) (rest.length + 1)
        = pre ++ ((rest ++ [0]) ++
          (pre ++ (line ++ stop :: rest) ++ 0 :: junk).drop (pre.length + (rest.length + 1))) := by
      rw [memmove, hmoved, List.append_assoc, List.take_left]
    show HoldsString (memmove _ _ _ _) (pre ++ rest) ∧ (memmove _ _ _ _).length = _
    rw [hmove]
    refine ⟨⟨?_, (pre ++ (line ++ stop :: rest) ++ 0 :: junk).drop (pre.length + (rest.length + 1)),
      by simp⟩, ?_⟩
    · simp only [List.mem_append, List.mem_cons, not_or] at hs ⊢
      exact ⟨hs.1, hs.2.2.2⟩
    · simp only [List.length_append, List.length_drop, List.length_cons, List.length_nil]
      omega

/-- The last byte is behind everything that moves. -/
theorem HoldsString.getLast?_deleteSegment {buf s : Bytes} (h : HoldsString buf s) (pat : Bytes)
    (stop : UInt8) : (CText.deleteSegment pat stop buf).getLast? = buf.getLast? := by
  have hlt := h.length_lt
  unfold CText.deleteSegment
  rw [h.cstr]
  cases hseg : segment pat stop s with
  | none => rfl
  | some p =>
    obtain ⟨pre, line, rest⟩ := p
    rw [(segment_eq_some hseg).1, List.length_append, List.length_append, List.length_cons] at hlt
    have hbehind : buf.drop (pre.length + (rest.length + 1)) ≠ [] := by
      intro hnil
      have hle := List.drop_eq_nil_iff.mp hnil
      omega
    show (memmove buf _ _ _).getLast? = _
    rw [memmove, ← List.append_assoc, List.getLast?_append_of_ne_nil _ hbehind,
      List.getLast?_drop, if_neg (by omega)]

end CText
