import Mathlib.Data.List.Basic

namespace Utf8

/-!
# UTF-8 texts, cut anywhere

A valid text is the encoding of some characters.  Bytes below 128 are characters of their
own and occur in no other, so a text may be cut in front of one or behind one, and what is
between two of them may be taken out.

* `encode`, `Valid` — the encoding of characters, and the texts that are one;
* `Valid.of_append_ascii`, `Valid.cut` — cutting at a byte below 128;
* `whole n cs` — the characters whose encodings fit into `n` bytes together;
* `charLength`, `wholeLength` — the length of a character by its first byte, and of the whole
  characters of a text that may be cut short (`wholeLength_take`).
-/

/-- The encoding of a list of characters. -/
def encode (cs : List Char) : List UInt8 := cs.flatMap String.utf8EncodeChar

/-- A valid text. -/
def Valid (s : List UInt8) : Prop := ∃ cs, s = encode cs

@[simp] theorem encode_nil : encode [] = [] := rfl

@[simp] theorem encode_cons (c : Char) (cs : List Char) :
    encode (c :: cs) = String.utf8EncodeChar c ++ encode cs := rfl

@[simp] theorem encode_append (cs ds : List Char) : encode (cs ++ ds) = encode cs ++ encode ds :=
  List.flatMap_append

theorem Valid.nil : Valid [] := ⟨[], rfl⟩

theorem Valid.append {a b : List UInt8} (ha : Valid a) (hb : Valid b) : Valid (a ++ b) := by
  obtain ⟨cs, rfl⟩ := ha
  obtain ⟨ds, rfl⟩ := hb
  exact ⟨cs ++ ds, (encode_append cs ds).symm⟩

/-- A character is one byte below 128, or several from 128 on. -/
theorem encodeChar_cases (c : Char) : (∃ b, String.utf8EncodeChar c = [b] ∧ b.toNat < 128) ∨
    ∀ b ∈ String.utf8EncodeChar c, 128 ≤ b.toNat := by
  unfold String.utf8EncodeChar
  dsimp only
  split
  · refine Or.inl ⟨_, rfl, ?_⟩
    rw [UInt8.toNat_ofNat']
    omega
  · refine Or.inr fun b hb => ?_
    -- every byte is a remainder on top of 128, 192, 224 or 240
    split at hb
    · simp only [List.mem_cons, List.not_mem_nil, or_false] at hb
      rcases hb with rfl | rfl <;> rw [UInt8.toNat_ofNat'] <;> omega
    · split at hb <;> simp only [List.mem_cons, List.not_mem_nil, or_false] at hb
      · rcases hb with rfl | rfl | rfl <;> rw [UInt8.toNat_ofNat'] <;> omega
      · rcases hb with rfl | rfl | rfl | rfl <;> rw [UInt8.toNat_ofNat'] <;> omega

/-! ### Cutting at a byte below 128 -/

/-- A text ends in front of any byte below 128 in it, and goes on behind it. -/
theorem Valid.of_append_ascii {a b : List UInt8} {c : UInt8} (hc : c.toNat < 128)
    (h : Valid (a ++ c :: b)) : Valid a ∧ Valid b := by
  obtain ⟨cs, hcs⟩ := h
  induction cs generalizing a with
  | nil => simp at hcs
  | cons d cs ih =>
    rw [encode_cons] at hcs
    rcases encodeChar_cases d with ⟨x, hx, _⟩ | hhigh
    · -- the character in front is a byte of its own
      rw [hx] at hcs
      cases a with
      | nil =>
        simp only [List.nil_append, List.cons_append, List.cons.injEq] at hcs
        exact ⟨.nil, cs, hcs.2⟩
      | cons y a =>
        simp only [List.cons_append, List.nil_append, List.cons.injEq] at hcs
        obtain ⟨ha, hb⟩ := ih hcs.2
        refine ⟨?_, hb⟩
        have hd : Valid [y] := ⟨[d], by rw [encode_cons, hx, hcs.1]; rfl⟩
        exact hd.append ha
    · -- the byte is in none of the character's, so it comes behind them
      have hd : Valid (String.utf8EncodeChar d) := ⟨[d], by simp⟩
      rcases List.append_eq_append_iff.mp hcs with ⟨r, hd', hr⟩ | ⟨r, rfl, hr⟩
      · cases r with
        | nil =>
          obtain ⟨_, hb⟩ := ih (a := []) hr
          rw [List.append_nil] at hd'
          exact ⟨hd' ▸ hd, hb⟩
        | cons x r =>
          simp only [List.cons_append, List.cons.injEq] at hr
          have hmem : c ∈ String.utf8EncodeChar d := by rw [hd', hr.1]; simp
          have hlow := hhigh c hmem
          omega
      · obtain ⟨ha, hb⟩ := ih hr.symm
        exact ⟨hd.append ha, hb⟩

/-- A piece between two bytes below 128, with both of them, may be taken out. -/
theorem Valid.cut {a b m : List UInt8} {c d : UInt8} (hc : c.toNat < 128) (hd : d.toNat < 128)
    (h : Valid (a ++ c :: m ++ d :: b)) : Valid (a ++ b) := by
  obtain ⟨hpre, hb⟩ := h.of_append_ascii hd
  exact (hpre.of_append_ascii hc).1.append hb

/-! ### Whole characters -/

/-- As many of the characters, in order, as fit into `n` bytes. -/
def whole : ℕ → List Char → List Char
  | _, [] => []
  | n, c :: cs =>
    if (String.utf8EncodeChar c).length ≤ n then
      c :: whole (n - (String.utf8EncodeChar c).length) cs
    else []

theorem whole_prefix (n : ℕ) (cs : List Char) : whole n cs <+: cs := by
  induction cs generalizing n with
  | nil => exact List.nil_prefix
  | cons c cs ih =>
    unfold whole
    split
    · exact (List.prefix_cons_inj c).mpr (ih _)
    · exact List.nil_prefix

theorem encode_whole_length_le (n : ℕ) (cs : List Char) : (encode (whole n cs)).length ≤ n := by
  induction cs generalizing n with
  | nil => exact Nat.zero_le n
  | cons c cs ih =>
    unfold whole
    split
    · have hrest := ih (n - (String.utf8EncodeChar c).length)
      rw [encode_cons, List.length_append]
      omega
    · exact Nat.zero_le n

/-- All of them, when there is room. -/
theorem whole_of_length_le {n : ℕ} {cs : List Char} (h : (encode cs).length ≤ n) :
    whole n cs = cs := by
  induction cs generalizing n with
  | nil => rfl
  | cons c cs ih =>
    rw [encode_cons, List.length_append] at h
    rw [whole, if_pos (by omega), ih (by omega)]

/-- They are the beginning of the text that was cut. -/
theorem take_encode_whole (n : ℕ) (cs : List Char) :
    ((encode cs).take n).take (encode (whole n cs)).length = encode (whole n cs) := by
  obtain ⟨ds, hds⟩ := whole_prefix n cs
  have hlen := encode_whole_length_le n cs
  rw [List.take_take, Nat.min_eq_left hlen]
  generalize whole n cs = w at hds
  rw [← hds, encode_append]
  exact List.take_left

/-- The length of a character, by its first byte. -/
def charLength (b : UInt8) : ℕ :=
  if b.toNat < 0x80 then 1
  else if 0xc0 ≤ b.toNat ∧ b.toNat < 0xe0 then 2
  else if 0xe0 ≤ b.toNat ∧ b.toNat < 0xf0 then 3
  else if 0xf0 ≤ b.toNat ∧ b.toNat < 0xf8 then 4
  else 1

/-- A character's length is that of its encoding. -/
theorem charLength_encodeChar {c : Char} {b : UInt8} {s : List UInt8}
    (h : String.utf8EncodeChar c = b :: s) : charLength b = s.length + 1 := by
  have hfirst : ∀ n : ℕ, (UInt8.ofNat n).toNat = n % 256 := fun n => UInt8.toNat_ofNat'
  have hc : c.val.toNat < 0x110000 := by
    have hvalid := c.valid
    simp only [UInt32.isValidChar, Nat.isValidChar] at hvalid
    omega
  unfold String.utf8EncodeChar at h
  dsimp only at h
  unfold charLength
  -- one case for each number of bytes, the first of them in the range for that number
  split at h
  · cases h
    rw [hfirst, if_pos (by omega)]
    rfl
  · split at h
    · cases h
      rw [hfirst, if_neg (by omega), if_pos (by omega)]
      rfl
    · split at h
      · cases h
        rw [hfirst, if_neg (by omega), if_neg (by omega), if_pos (by omega)]
        rfl
      · cases h
        rw [hfirst, if_neg (by omega), if_neg (by omega), if_neg (by omega), if_pos (by omega)]
        rfl

/-- The length of the whole characters a text begins with, up to the first null byte. -/
def wholeLength : List UInt8 → ℕ
  | [] => 0
  | b :: s =>
    if b = 0 then 0
    else if charLength b ≤ s.length + 1 then
      charLength b + wholeLength ((b :: s).drop (charLength b))
    else 0
  termination_by s => s.length
  decreasing_by
    have hpos : 1 ≤ charLength b := by unfold charLength; split_ifs <;> omega
    simp only [List.length_drop, List.length_cons]
    omega

theorem wholeLength_le (s : List UInt8) : wholeLength s ≤ s.length := by
  fun_induction wholeLength s with
  | case1 => exact Nat.le_refl 0
  | case2 s => exact Nat.zero_le _
  | case3 b s hb hfits ih =>
    simp only [List.length_drop, List.length_cons] at ih ⊢
    omega
  | case4 b s => exact Nat.zero_le _

/-- Only the null character has a null byte. -/
theorem zero_not_mem_encodeChar {c : Char} (hc : c ≠ '\x00') : 0 ∉ String.utf8EncodeChar c := by
  intro hmem
  rcases encodeChar_cases c with ⟨b, hb, _⟩ | hhigh
  · rw [hb, List.mem_singleton] at hmem
    subst hmem
    -- a character of one byte is that byte
    unfold String.utf8EncodeChar at hb
    dsimp only at hb
    split at hb
    · simp only [List.cons.injEq, and_true] at hb
      have hzero := congrArg UInt8.toNat hb
      rw [UInt8.toNat_ofNat'] at hzero
      apply hc
      apply Char.ext
      apply UInt32.toNat_inj.mp
      show c.val.toNat = 0
      have hsmall : (0 : UInt8).toNat = 0 := rfl
      omega
    · -- one of several bytes does not stand alone
      split at hb
      · simp at hb
      · split at hb <;> simp at hb
  · exact absurd (hhigh 0 hmem) (by decide)

/-- A text without null bytes has no null character. -/
theorem Valid.exists_chars {s : List UInt8} (h : Valid s) (hnul : 0 ∉ s) :
    ∃ cs, (∀ c ∈ cs, c ≠ '\x00') ∧ s = encode cs := by
  obtain ⟨cs, rfl⟩ := h
  refine ⟨cs, fun c hc hzero => hnul ?_, rfl⟩
  rw [encode, List.mem_flatMap]
  exact ⟨c, hc, by rw [hzero]; decide⟩

/-- **Of a text cut short they are those that were not cut.** -/
theorem wholeLength_take {cs : List Char} (hcs : ∀ c ∈ cs, c ≠ '\x00') (n : ℕ) :
    wholeLength ((encode cs).take n) = (encode (whole n cs)).length := by
  induction cs generalizing n with
  | nil => simp [wholeLength, whole]
  | cons c cs ih =>
    rw [List.forall_mem_cons] at hcs
    have hnull := zero_not_mem_encodeChar hcs.1
    obtain ⟨b, s, hbs⟩ : ∃ b s, String.utf8EncodeChar c = b :: s :=
      List.exists_cons_of_ne_nil String.utf8EncodeChar_ne_nil
    have hlen := charLength_encodeChar hbs
    have hb : b ≠ 0 := fun e => hnull (by rw [hbs, e]; exact List.mem_cons_self)
    rw [encode_cons, whole, hbs, List.length_cons]
    by_cases hn : s.length + 1 ≤ n
    · -- the first character is whole, and the others are cut where the text is
      have htake : ((b :: s) ++ encode cs).take n
          = b :: (s ++ (encode cs).take (n - (s.length + 1))) := by
        rw [List.take_append, List.take_of_length_le (by simpa using hn), List.length_cons,
          List.cons_append]
      have hdrop : (b :: (s ++ (encode cs).take (n - (s.length + 1)))).drop (s.length + 1)
          = (encode cs).take (n - (s.length + 1)) := by
        rw [List.drop_succ_cons, List.drop_left]
      rw [if_pos hn, htake, wholeLength, if_neg hb, hlen, if_pos (by simp), hdrop, ih hcs.2,
        encode_cons, hbs, List.length_append, List.length_cons]
    · rw [if_neg hn]
      cases n with
      | zero => simp [wholeLength]
      | succ n =>
        have hshort := List.length_take_le n (s ++ encode cs)
        rw [List.cons_append, List.take_succ_cons, wholeLength, if_neg hb, if_neg (by omega)]
        rfl

end Utf8
