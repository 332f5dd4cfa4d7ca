import PgChdb.Lib.Clause

namespace CText

/-!
# Escapes undone, and string literals

What a backslash before `d` stands for is `esc d`, a parameter.  Two readers undo such
escapes: that of a parameter value, which is all of a text, and that of a literal between
single quotes, which ends at the first quote that is neither escaped nor doubled.

* `keeps`, `Kept` — the texts in which every backslash stands before a character that keeps it;
* `undoEscapes` — a parameter value, and `undoEscapes_eq_self_iff`, that a text comes through
  unchanged exactly when its backslashes are kept;
* `readLiteral` — the body of a literal and what follows it, and `readLiteral_self_iff`, the
  texts that are read as themselves when they are put between quotes as they are.
-/

/-- The single quote. -/
def apostrophe : UInt8 := 39

/-- What is relied on of the escapes: an escaped quote is a quote, an escaped backslash a
    backslash, and no escape stands for more than it is long. -/
structure LiteralEscapes (esc : UInt8 → Bytes) : Prop where
  apostrophe : esc apostrophe = [apostrophe]
  backslash : esc backslash = [backslash]
  length_le : ∀ c, (esc c).length ≤ 2

section
variable {esc : UInt8 → Bytes}

/-- Whether every backslash stands before a character that keeps it. -/
def keeps (esc : UInt8 → Bytes) : Bytes → Bool
  | [] => true
  | c :: s =>
    if c = backslash then
      match s with
      | [] => false
      | d :: s => esc d = [backslash, d] && keeps esc s
    else keeps esc s

/-- Every backslash stands before a character that keeps it. -/
def Kept (esc : UInt8 → Bytes) (s : Bytes) : Prop := keeps esc s = true

instance (s : Bytes) : Decidable (Kept esc s) := by unfold Kept; infer_instance

@[simp] theorem kept_nil : Kept esc [] := rfl

@[simp] theorem kept_escape (d : UInt8) (s : Bytes) :
    Kept esc (backslash :: d :: s) ↔ esc d = [backslash, d] ∧ Kept esc s := by
  rw [Kept, keeps.eq_def]
  simp [Kept]

@[simp] theorem kept_lone : ¬ Kept esc [backslash] := by
  rw [Kept, keeps.eq_def]
  simp

theorem kept_plain {c : UInt8} (hc : c ≠ backslash) (s : Bytes) :
    Kept esc (c :: s) ↔ Kept esc s := by
  rw [Kept, keeps.eq_def]
  simp [hc, Kept]

/-- A text without a backslash has none to keep. -/
theorem Kept.of_not_mem {s : Bytes} (h : backslash ∉ s) : Kept esc s := by
  induction s with
  | nil => exact kept_nil
  | cons c s ih =>
    simp only [List.mem_cons, not_or] at h
    rw [kept_plain (Ne.symm h.1)]
    exact ih h.2

/-! ### A parameter value -/

/-- The escapes of a text undone; a backslash at its end introduces nothing. -/
def undoEscapes (esc : UInt8 → Bytes) : Bytes → Option Bytes
  | [] => some []
  | c :: s =>
    if c = backslash then
      match s with
      | [] => none
      | d :: s => (undoEscapes esc s).map (esc d ++ ·)
    else (undoEscapes esc s).map (c :: ·)

@[simp] theorem undoEscapes_escape (d : UInt8) (s : Bytes) :
    undoEscapes esc (backslash :: d :: s) = (undoEscapes esc s).map (esc d ++ ·) := by
  rw [undoEscapes.eq_def]
  simp

/-- A text whose escapes are undone does not get longer. -/
theorem undoEscapes_length (h : ∀ c, (esc c).length ≤ 2) {s out : Bytes}
    (hs : undoEscapes esc s = some out) : out.length ≤ s.length := by
  fun_induction undoEscapes esc s generalizing out with
  | case1 => cases hs; exact Nat.le_refl _
  | case2 => cases hs
  | case3 d s ih =>
    obtain ⟨out', hout, rfl⟩ := Option.map_eq_some_iff.mp hs
    have hle := ih hout
    have hd := h d
    -- an escape stands for at most the two bytes it is written with
    simp only [List.length_append, List.length_cons]
    omega
  | case4 c s _ ih =>
    obtain ⟨out', hout, rfl⟩ := Option.map_eq_some_iff.mp hs
    have hle := ih hout
    simp only [List.length_cons]
    omega

/-- Two pieces and a reading no longer than they are, cut at the same place. -/
private theorem append_eq_pair {a out s : Bytes} {c d : UInt8} (ha : a.length ≤ 2)
    (hout : out.length ≤ s.length) (h : a ++ out = c :: d :: s) : a = [c, d] ∧ out = s := by
  have hlen := congrArg List.length h
  simp only [List.length_append, List.length_cons] at hlen
  have htwo : a.length = [c, d].length := by
    show a.length = 2
    omega
  have happ : a ++ out = [c, d] ++ s := h
  exact List.append_inj happ htwo

/-- **A text comes through unchanged exactly when its backslashes are kept.** -/
theorem undoEscapes_eq_self_iff (h : ∀ c, (esc c).length ≤ 2) (s : Bytes) :
    undoEscapes esc s = some s ↔ Kept esc s := by
  fun_induction undoEscapes esc s with
  | case1 => simp
  | case2 => simp
  | case3 d s ih =>
    rw [kept_escape, ← ih]
    constructor
    · intro hs
      obtain ⟨out, hout, heq⟩ := Option.map_eq_some_iff.mp hs
      -- the rest gets no longer, so the escape stands for both of its bytes
      obtain ⟨hd, rfl⟩ := append_eq_pair (h d) (undoEscapes_length h hout) heq
      exact ⟨hd, hout⟩
    · rintro ⟨hd, hs⟩
      rw [hs, hd]
      rfl
  | case4 c s hc ih =>
    rw [kept_plain hc, ← ih]
    constructor
    · intro hs
      obtain ⟨out, hout, heq⟩ := Option.map_eq_some_iff.mp hs
      cases heq
      exact hout
    · intro hs
      rw [hs]
      rfl

/-! ### A literal -/

/-- The body of a literal after its opening quote, and what follows the closing one. -/
def readLiteral (esc : UInt8 → Bytes) : Bytes → Option (Bytes × Bytes)
  | [] => none
  | c :: s =>
    if c = apostrophe then
      match s with
      | [] => some ([], [])
      | d :: s =>
        if d = apostrophe then (readLiteral esc s).map fun p => (apostrophe :: p.1, p.2)
        else some ([], d :: s)
    else if c = backslash then
      match s with
      | [] => none
      | d :: s => (readLiteral esc s).map fun p => (esc d ++ p.1, p.2)
    else (readLiteral esc s).map fun p => (c :: p.1, p.2)

theorem readLiteral_close : readLiteral esc [apostrophe] = some ([], []) := by
  rw [readLiteral.eq_def]
  simp

theorem readLiteral_pair (s : Bytes) : readLiteral esc (apostrophe :: apostrophe :: s)
    = (readLiteral esc s).map fun p => (apostrophe :: p.1, p.2) := by
  rw [readLiteral.eq_def]
  simp

theorem readLiteral_end {d : UInt8} (hd : d ≠ apostrophe) (s : Bytes) :
    readLiteral esc (apostrophe :: d :: s) = some ([], d :: s) := by
  rw [readLiteral.eq_def]
  simp [hd]

theorem readLiteral_escape (d : UInt8) (s : Bytes) :
    readLiteral esc (backslash :: d :: s)
      = (readLiteral esc s).map fun p => (esc d ++ p.1, p.2) := by
  rw [readLiteral.eq_def]
  simp [show backslash ≠ apostrophe by decide]

theorem readLiteral_plain {c : UInt8} (hq : c ≠ apostrophe) (hb : c ≠ backslash) (s : Bytes) :
    readLiteral esc (c :: s) = (readLiteral esc s).map fun p => (c :: p.1, p.2) := by
  rw [readLiteral.eq_def]
  simp [hq, hb]

/-- A literal is at least as long as its body and what follows, and the closing quote. -/
theorem readLiteral_length (h : LiteralEscapes esc) {s out r : Bytes}
    (hs : readLiteral esc s = some (out, r)) : out.length + r.length + 1 ≤ s.length := by
  fun_induction readLiteral esc s generalizing out r with
  | case1 => cases hs
  | case2 => cases hs; simp
  | case3 s ih =>
    obtain ⟨p, hp, heq⟩ := Option.map_eq_some_iff.mp hs
    cases heq
    have hle := ih hp
    simp only [List.length_cons]
    omega
  | case4 => cases hs; simp
  | case5 => cases hs
  | case6 d s _ ih =>
    obtain ⟨p, hp, heq⟩ := Option.map_eq_some_iff.mp hs
    cases heq
    have hle := ih hp
    have hd := h.length_le d
    simp only [List.length_append, List.length_cons]
    omega
  | case7 c s _ _ ih =>
    obtain ⟨p, hp, heq⟩ := Option.map_eq_some_iff.mp hs
    cases heq
    have hle := ih hp
    simp only [List.length_cons]
    omega

/-- A text without a quote whose backslashes are kept is read as it is, in front of anything
    but another quote. -/
theorem readLiteral_kept {n : Bytes} (hq : apostrophe ∉ n) (hk : Kept esc n) {r : Bytes}
    (hr : r.head? ≠ some apostrophe) :
    readLiteral esc (n ++ apostrophe :: r) = some (n, r) := by
  fun_induction keeps esc n with
  | case1 =>
    cases r with
    | nil => exact readLiteral_close
    | cons d r => exact readLiteral_end (by simpa using hr) r
  | case2 => exact absurd hk kept_lone
  | case3 d s ih =>
    rw [kept_escape] at hk
    simp only [List.mem_cons, not_or] at hq
    rw [List.cons_append, List.cons_append, readLiteral_escape, ih hq.2.2 hk.2, hk.1]
    rfl
  | case4 c s hc ih =>
    rw [kept_plain hc] at hk
    simp only [List.mem_cons, not_or] at hq
    rw [List.cons_append, readLiteral_plain (Ne.symm hq.1) hc, ih hq.2 hk]
    rfl

/-- Only such a text is read as itself up to the end. -/
private theorem kept_of_readLiteral (h : LiteralEscapes esc) : ∀ n : Bytes,
    readLiteral esc (n ++ [apostrophe]) = some (n, []) → apostrophe ∉ n ∧ Kept esc n
  | [], _ => by simp
  | [c], hr => by
    by_cases hq : c = apostrophe
    · -- the quote doubles the closing one
      subst hq
      rw [List.singleton_append, readLiteral_pair] at hr
      simp [readLiteral] at hr
    · by_cases hb : c = backslash
      · -- the backslash escapes the closing quote
        subst hb
        rw [List.singleton_append, readLiteral_escape] at hr
        simp [readLiteral] at hr
      · refine ⟨by simpa using Ne.symm hq, ?_⟩
        rw [kept_plain hb]
        exact kept_nil
  | c :: d :: m, hr => by
    rw [List.cons_append, List.cons_append] at hr
    by_cases hq : c = apostrophe
    · subst hq
      by_cases hd : d = apostrophe
      · -- a pair stands for one quote, so the text read is shorter
        subst hd
        rw [readLiteral_pair] at hr
        obtain ⟨p, hp, heq⟩ := Option.map_eq_some_iff.mp hr
        have hlen := readLiteral_length h hp
        have hout := congrArg (fun p => p.1.length) heq
        simp only [List.length_cons, List.length_append, List.length_nil] at hlen hout
        omega
      -- a quote before anything else ends the literal early
      · rw [readLiteral_end hd] at hr
        simp at hr
    · by_cases hb : c = backslash
      · subst hb
        rw [readLiteral_escape] at hr
        obtain ⟨⟨out, r⟩, hp, heq⟩ := Option.map_eq_some_iff.mp hr
        have hlen := readLiteral_length h hp
        simp only [List.length_append, List.length_cons, List.length_nil] at hlen
        have hbody : esc d ++ out = backslash :: d :: m := congrArg Prod.fst heq
        have hrest : r = [] := congrArg Prod.snd heq
        -- the body and the text are of one length, so nothing was shortened
        obtain ⟨hd, rfl⟩ := append_eq_pair (h.length_le d) (by omega) hbody
        subst hrest
        obtain ⟨hmem, hkept⟩ := kept_of_readLiteral h out hp
        have hne : d ≠ apostrophe := by
          rintro rfl
          rw [h.apostrophe] at hd
          cases hd
        refine ⟨?_, (kept_escape d out).mpr ⟨hd, hkept⟩⟩
        simp only [List.mem_cons, not_or]
        exact ⟨by decide, Ne.symm hne, hmem⟩
      · rw [readLiteral_plain hq hb] at hr
        obtain ⟨⟨out, r⟩, hp, heq⟩ := Option.map_eq_some_iff.mp hr
        cases heq
        obtain ⟨hmem, hkept⟩ := kept_of_readLiteral h (d :: m) hp
        refine ⟨?_, (kept_plain hb _).mpr hkept⟩
        rw [List.mem_cons, not_or]
        exact ⟨Ne.symm hq, hmem⟩

/-- **The texts that are read as themselves.**  Put between quotes as it is, a text is read
    unchanged exactly when it has no quote and its backslashes are kept. -/
theorem readLiteral_self_iff (h : LiteralEscapes esc) (n : Bytes) :
    readLiteral esc (n ++ [apostrophe]) = some (n, []) ↔ apostrophe ∉ n ∧ Kept esc n := by
  constructor
  · exact kept_of_readLiteral h n
  · rintro ⟨hq, hk⟩
    exact readLiteral_kept hq hk (by simp)

end

/-- One set of escapes: before anything but a quote or a backslash, a backslash is kept. -/
def plainLiteralEscapes (c : UInt8) : Bytes :=
  if c = apostrophe ∨ c = backslash then [c] else [backslash, c]

theorem plainLiteralEscapes_spec : LiteralEscapes plainLiteralEscapes where
  apostrophe := rfl
  backslash := rfl
  length_le c := by
    unfold plainLiteralEscapes
    split <;> simp

end CText
