import Mathlib.Data.List.Basic
import Mathlib.Tactic.Ring

namespace CText

/-!
# Byte strings, fixed-width words and decimal numerals

A C string, a buffer and a wire payload are all lists of bytes here.  The file gives
the three notations the rest of the development reads and writes them in:

* `lit` — the bytes of an ASCII literal;
* `leBytes w n` / `leNat` — the little-endian word of `w` bytes and its value, which
  reads back what was written when it fits (`leNat_leBytes`);
* `decimal` / `readDecimal` — what `%u` prints and the number such a numeral denotes.
-/

/-- A string of bytes. -/
abbrev Bytes := List UInt8

/-- Named once, so that membership among byte strings is decided in one way everywhere. -/
instance : LawfulBEq Bytes := inferInstanceAs (LawfulBEq (List UInt8))

/-- The byte of an ASCII character. -/
def byte (c : Char) : UInt8 := c.toNat.toUInt8

/-- The bytes of an ASCII literal. -/
def lit (s : String) : Bytes := s.toList.map byte

/-! ### Little-endian words -/

/-- The low `w` bytes of `n`, least significant first. -/
def leBytes : ℕ → ℕ → Bytes
  | 0, _ => []
  | w + 1, n => UInt8.ofNat n :: leBytes w (n / 256)

/-- The value of a little-endian word. -/
def leNat : Bytes → ℕ
  | [] => 0
  | b :: bs => b.toNat + 256 * leNat bs

@[simp] theorem leBytes_length (w n : ℕ) : (leBytes w n).length = w := by
  induction w generalizing n with
  | zero => rfl
  | succ w ih => simp [leBytes, ih]

/-- A number that fits the word is read back unchanged. -/
theorem leNat_leBytes {w n : ℕ} (h : n < 256 ^ w) : leNat (leBytes w n) = n := by
  induction w generalizing n with
  | zero =>
    have h0 : n = 0 := by simpa using h
    rw [h0]; rfl
  | succ w ih =>
    have hq : n / 256 < 256 ^ w := by
      rw [Nat.div_lt_iff_lt_mul (by decide), ← pow_succ]; exact h
    simp only [leBytes, leNat, ih hq, UInt8.toNat_ofNat']
    omega

/-! ### Decimal numerals -/

/-- What `%u` prints for `n`. -/
def decimal (n : ℕ) : Bytes := (Nat.toDigits 10 n).map byte

/-- A decimal digit. -/
def isDigit (b : UInt8) : Bool := 48 ≤ b && b ≤ 57

/-- The number a run of decimal digits denotes. -/
def readDecimal (s : Bytes) : ℕ := Nat.ofDigitChars 10 (s.map fun b => Char.ofNat b.toNat) 0

private theorem digit_toNat {c : Char} (h : c.isDigit) : 48 ≤ c.toNat ∧ c.toNat ≤ 57 := by
  simp only [Char.isDigit, Bool.and_eq_true, decide_eq_true_eq] at h
  exact ⟨h.1, h.2⟩

private theorem byte_toNat {c : Char} (h : c.isDigit) : (byte c).toNat = c.toNat := by
  have hc := digit_toNat h
  rw [byte, Nat.toUInt8_eq, UInt8.toNat_ofNat']
  omega

theorem isDigit_of_mem_decimal {n : ℕ} {b : UInt8} (h : b ∈ decimal n) : isDigit b := by
  obtain ⟨c, hc, rfl⟩ := List.mem_map.mp h
  have hd := Nat.isDigit_of_mem_toDigits (by decide) (by decide) hc
  have hc' := digit_toNat hd
  have hb := byte_toNat hd
  simp only [isDigit, Bool.and_eq_true, decide_eq_true_eq, UInt8.le_iff_toNat_le, hb]
  exact hc'

/-- A numeral is made of digits only. -/
theorem not_mem_decimal {c : UInt8} (hc : isDigit c = false) (n : ℕ) : c ∉ decimal n := by
  intro h
  have hd := isDigit_of_mem_decimal h
  rw [hc] at hd
  cases hd

/-- A printed number reads back as itself. -/
@[simp] theorem readDecimal_decimal (n : ℕ) : readDecimal (decimal n) = n := by
  have hmap : (decimal n).map (fun b => Char.ofNat b.toNat) = Nat.toDigits 10 n := by
    rw [decimal, List.map_map]
    conv_rhs => rw [← List.map_id (Nat.toDigits 10 n)]
    refine List.map_congr_left (fun c hc => ?_)
    have hd := Nat.isDigit_of_mem_toDigits (by decide) (by decide) hc
    simp only [Function.comp_apply, byte_toNat hd, Char.ofNat_toNat, id]
  rw [readDecimal, hmap, Nat.ofDigitChars_ten_toDigits]

theorem decimal_ne_nil (n : ℕ) : decimal n ≠ [] := by
  rw [decimal, Ne, List.map_eq_nil_iff]
  exact Nat.toDigits_ne_nil

theorem decimal_length_le {n k : ℕ} (hk : 0 < k) (h : n < 10 ^ k) : (decimal n).length ≤ k := by
  rw [decimal, List.length_map]
  exact (Nat.length_toDigits_le_iff (by decide) hk).mpr h

end CText
