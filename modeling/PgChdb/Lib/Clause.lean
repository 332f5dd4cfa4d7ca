import PgChdb.Lib.Bytes
import PgChdb.Lib.Text
import Mathlib.Data.List.TakeWhile

namespace CText

/-!
# Clauses of named columns

A column clause is a list of columns, each a name, a space and a type, joined by commas.
A name that is not a bare word stands between double quotes, its quotes and backslashes
escaped.  The reader of such clauses is a parameter here:

* `escaped`, `readBody` — a quoted name as it is written and as it is read, `esc c` being
  what a backslash before `c` stands for (`readBody_escaped`);
* `ReadsRaw` — the names that are read as themselves when nothing in them is escaped, and
  `ReadsRaw.of_readBody`, that only these are read as themselves;
* `ReadsColumns` — what is relied on of a reader: columns are read one by one, and a clause
  that begins with a quote begins with a quoted name;
* `clauseOf` — the clause of a list of written columns, which is read as that list
  (`ReadsColumns.clauseOf`);
* `ReadsColumns.unescape_iff` — when a clause that is unescaped once too often is still
  read the same;
* `wordColumns`, `quoteName`, `unescapeOnce` — one such reader, and one way of writing
  names and of undoing escapes.
-/

variable {T : Type}

/-! ### Quoted names -/

/-- The double quote. -/
def quote : UInt8 := byte '"'

/-- The backslash. -/
def backslash : UInt8 := byte '\\'

/-- A name with its quotes and backslashes escaped. -/
def escaped : Bytes → Bytes
  | [] => []
  | c :: s => if c = quote ∨ c = backslash then backslash :: c :: escaped s else c :: escaped s

/-- The name up to the closing quote, and what follows it. -/
def readBody (esc : UInt8 → Bytes) : Bytes → Option (Bytes × Bytes)
  | [] => none
  | c :: s =>
    if c = quote then some ([], s)
    else if c = backslash then
      match s with
      | [] => none
      | d :: s => (readBody esc s).map fun p => (esc d ++ p.1, p.2)
    else (readBody esc s).map fun p => (c :: p.1, p.2)

/-- What is relied on of the escapes in a quoted name: an escaped quote is a quote, an
    escaped backslash a backslash, and no escape stands for more than it is long. -/
structure QuoteEscapes (esc : UInt8 → Bytes) : Prop where
  quote : esc quote = [quote]
  backslash : esc backslash = [backslash]
  length_le : ∀ c, (esc c).length ≤ 2

section
variable {esc : UInt8 → Bytes}

@[simp] theorem readBody_quote (s : Bytes) : readBody esc (quote :: s) = some ([], s) := by
  rw [readBody.eq_def]; simp

@[simp] theorem readBody_escape (d : UInt8) (s : Bytes) :
    readBody esc (backslash :: d :: s) = (readBody esc s).map fun p => (esc d ++ p.1, p.2) := by
  rw [readBody.eq_def]; simp [show backslash ≠ quote by decide]

theorem readBody_plain {c : UInt8} (hq : c ≠ quote) (hb : c ≠ backslash) (s : Bytes) :
    readBody esc (c :: s) = (readBody esc s).map fun p => (c :: p.1, p.2) := by
  rw [readBody.eq_def]; simp [hq, hb]

/-- An escaped name is read back, and the reading stops at its closing quote. -/
theorem readBody_escaped (h : QuoteEscapes esc) (n s : Bytes) :
    readBody esc (escaped n ++ quote :: s) = some (n, s) := by
  induction n with
  | nil => simp [escaped]
  | cons c n ih =>
    -- a quote and a backslash were escaped, anything else stands for itself
    by_cases hq : c = quote
    · subst hq; simp [escaped, ih, h.quote]
    · by_cases hb : c = backslash
      · subst hb; simp [escaped, ih, h.backslash]
      · rw [escaped, if_neg (by simp [hq, hb]), List.cons_append, readBody_plain hq hb, ih]
        rfl

/-- What follows the closing quote does not matter. -/
theorem readBody_append (a : Bytes) {n r : Bytes} (h : readBody esc a = some (n, r)) (s : Bytes) :
    readBody esc (a ++ s) = some (n, r ++ s) := by
  fun_induction readBody esc a generalizing n r with
  | case1 => cases h
  | case2 a => cases h; simp
  | case3 => cases h
  | case4 d a _ ih =>
    obtain ⟨p, hp, hn⟩ := Option.map_eq_some_iff.mp h
    cases hn
    simp [ih hp]
  | case5 c a hq hb ih =>
    obtain ⟨p, hp, hn⟩ := Option.map_eq_some_iff.mp h
    cases hn
    rw [List.cons_append, readBody_plain hq hb, ih hp]
    rfl

/-- The names that are read as themselves when nothing in them is escaped. -/
def ReadsRaw (esc : UInt8 → Bytes) (n : Bytes) : Prop :=
  readBody esc (n ++ [quote]) = some (n, [])

instance (n : Bytes) : Decidable (ReadsRaw esc n) := by unfold ReadsRaw; infer_instance

/-- A name with nothing to escape is one of them. -/
theorem ReadsRaw.of_not_mem {n : Bytes} (hq : quote ∉ n) (hb : backslash ∉ n) :
    ReadsRaw esc n := by
  unfold ReadsRaw
  induction n with
  | nil => simp
  | cons c n ih =>
    simp only [List.mem_cons, not_or] at hq hb
    rw [List.cons_append, readBody_plain (Ne.symm hq.1) (Ne.symm hb.1), ih hq.2 hb.2]
    rfl

/-- A text without a quote, read up to the quote put after it: the reading stops there, or
    its last backslash took that quote along and put it earlier in the name. -/
private theorem readBody_upTo (h : QuoteEscapes esc) (s : Bytes) : ∀ (m : Bytes) {out r : Bytes},
    quote ∉ m → readBody esc (m ++ quote :: s) = some (out, r) →
      (readBody esc (m ++ [quote]) = some (out, []) ∧ out.length ≤ m.length) ∨
        ∃ o o', out = o ++ quote :: o' ∧ o.length < m.length
  | [], out, r, _, hr => by
    simp only [List.nil_append, readBody_quote, Option.some.injEq, Prod.mk.injEq] at hr
    obtain ⟨rfl, rfl⟩ := hr
    exact Or.inl ⟨by simp, by simp⟩
  | [c], out, r, hm, hr => by
    have hq : c ≠ quote := fun e => hm (e ▸ List.mem_cons_self)
    by_cases hb : c = backslash
    · subst hb
      -- the last backslash takes the closing quote along
      simp only [List.cons_append, List.nil_append, readBody_escape, Option.map_eq_some_iff,
        Prod.mk.injEq] at hr
      obtain ⟨⟨n', r'⟩, _, rfl, rfl⟩ := hr
      exact Or.inr ⟨[], n', by simp [h.quote], by simp⟩
    · simp only [List.cons_append, List.nil_append, readBody_plain hq hb, readBody_quote,
        Option.map_some, Option.some.injEq, Prod.mk.injEq] at hr ⊢
      obtain ⟨rfl, rfl⟩ := hr
      exact Or.inl ⟨⟨rfl, trivial⟩, by simp⟩
  | c :: d :: m, out, r, hm, hr => by
    have hq : c ≠ quote := fun e => hm (e ▸ List.mem_cons_self)
    have hm' : quote ∉ d :: m := fun e => hm (List.mem_cons_of_mem c e)
    by_cases hb : c = backslash
    · subst hb
      simp only [List.cons_append, readBody_escape, Option.map_eq_some_iff, Prod.mk.injEq] at hr ⊢
      obtain ⟨⟨n', r'⟩, hrec, rfl, rfl⟩ := hr
      -- an escape stands for two bytes at most, the two it is written with
      have hlen : (esc d).length ≤ 2 := h.length_le d
      rcases readBody_upTo h s m (fun e => hm' (List.mem_cons_of_mem d e)) hrec with
        ⟨hstop, hle⟩ | ⟨o, o', rfl, hlt⟩
      · refine Or.inl ⟨⟨_, hstop, rfl, rfl⟩, ?_⟩
        simp only [List.length_append, List.length_cons]
        omega
      · refine Or.inr ⟨esc d ++ o, o', by simp, ?_⟩
        simp only [List.length_append, List.length_cons]
        omega
    · simp only [List.cons_append, readBody_plain hq hb, Option.map_eq_some_iff,
        Prod.mk.injEq] at hr ⊢
      obtain ⟨⟨n', r'⟩, hrec, rfl, rfl⟩ := hr
      rcases readBody_upTo h s (d :: m) hm' hrec with ⟨hstop, hle⟩ | ⟨o, o', rfl, hlt⟩
      · refine Or.inl ⟨⟨_, hstop, rfl, rfl⟩, ?_⟩
        simp only [List.length_cons] at hle ⊢
        omega
      · refine Or.inr ⟨c :: o, o', by simp, ?_⟩
        simp only [List.length_cons] at hlt ⊢
        omega

/-- **Only these are read as themselves**: whatever follows, a name put between quotes
    unescaped is read as another name unless it reads raw. -/
theorem ReadsRaw.of_readBody (h : QuoteEscapes esc) {n s r : Bytes}
    (hr : readBody esc (n ++ quote :: s) = some (n, r)) : ReadsRaw esc n := by
  by_cases hq : quote ∈ n
  · -- cut at the first quote: the name read is shorter, or has a quote before it
    exfalso
    obtain ⟨m, m', hn, hm⟩ := List.eq_append_cons_of_mem hq
    rw [hn, List.append_assoc, List.cons_append] at hr
    rcases readBody_upTo h _ m hm hr with ⟨_, hle⟩ | ⟨o, o', ho, hlt⟩
    · simp only [List.length_append, List.length_cons] at hle
      omega
    · have hget : (m ++ quote :: m')[o.length]? = some quote := by rw [ho]; simp
      rw [List.getElem?_append_left hlt] at hget
      exact hm (List.mem_of_getElem? hget)
  · rcases readBody_upTo h s n hq hr with ⟨hstop, _⟩ | ⟨o, o', ho, _⟩
    · exact hstop
    · exact absurd (ho ▸ by simp) hq

end

/-! ### Readers of clauses -/

/-- A word that needs no quotes: a letter or an underscore, then letters, digits and
    underscores. -/
def isWordByte (c : UInt8) : Bool :=
  (byte 'a' ≤ c && c ≤ byte 'z') || (byte 'A' ≤ c && c ≤ byte 'Z') || c = byte '_' || isDigit c

/-- A bare identifier. -/
def isBareword : Bytes → Bool
  | [] => false
  | c :: s => isWordByte c && !isDigit c && s.all isWordByte

/-- The two ways of writing a name: as it is, or quoted and escaped. -/
def WritesName (tok n : Bytes) : Prop :=
  (isBareword n ∧ tok = n) ∨ tok = quote :: (escaped n ++ [quote])

/-- A token denotes a name: it is that bare word, or reads as that name between quotes. -/
def Denotes (esc : UInt8 → Bytes) (tok n : Bytes) : Prop :=
  (isBareword n ∧ tok = n) ∨
    ∃ body, tok = quote :: (body ++ [quote]) ∧ readBody esc (body ++ [quote]) = some (n, [])

/-- One column of a clause. -/
def columnText (tok type : Bytes) : Bytes := tok ++ byte ' ' :: type

/-- What is relied on of a reader of clauses, `typeOf` telling which texts are types: a
    column whose name and type stand as they should is read as that column, alone and in
    front of others, and what begins with a quote begins with a quoted name. -/
structure ReadsColumns (esc : UInt8 → Bytes) (typeOf : Bytes → Option T)
    (columns : Bytes → Option (List (Bytes × T))) : Prop where
  last : ∀ {tok n type t}, Denotes esc tok n → typeOf type = some t →
    columns (columnText tok type) = some [(n, t)]
  cons : ∀ {tok n type t}, Denotes esc tok n → typeOf type = some t → ∀ s,
    columns (columnText tok type ++ (lit ", " ++ s)) = (columns s).map ((n, t) :: ·)
  quoted : ∀ {s cols}, columns (quote :: s) = some cols →
    ∃ n rest, readBody esc s = some (n, rest) ∧ (cols.head?.map Prod.fst) = some n

/-- A list of written columns, as a clause. -/
def clauseOf : List (Bytes × Bytes) → Bytes
  | [] => []
  | [i] => columnText i.1 i.2
  | i :: j :: items => columnText i.1 i.2 ++ (lit ", " ++ clauseOf (j :: items))

theorem columnText_ne_nil (tok type : Bytes) : columnText tok type ≠ [] := by
  simp [columnText]

/-- The first column, then each of the others behind a comma. -/
theorem clauseOf_cons (i : Bytes × Bytes) (items : List (Bytes × Bytes)) :
    clauseOf (i :: items)
      = columnText i.1 i.2 ++ items.flatMap fun j => lit ", " ++ columnText j.1 j.2 := by
  induction items generalizing i with
  | nil => simp [clauseOf]
  | cons j items ih => rw [clauseOf, ih, List.flatMap_cons, List.append_assoc]

theorem clauseOf_ne_nil {items : List (Bytes × Bytes)} (h : items ≠ []) : clauseOf items ≠ [] := by
  cases items with
  | nil => exact absurd rfl h
  | cons i items => simp [clauseOf_cons, columnText_ne_nil]

/-- One more column at the end. -/
theorem clauseOf_concat {items : List (Bytes × Bytes)} (h : items ≠ []) (i : Bytes × Bytes) :
    clauseOf (items ++ [i]) = clauseOf items ++ (lit ", " ++ columnText i.1 i.2) := by
  cases items with
  | nil => exact absurd rfl h
  | cons j items => simp [clauseOf_cons]

/-- An undoing of escapes that also undoes the escaped quotes. -/
structure Unescapes (u : Bytes → Bytes) : Prop extends Undoes backslash u where
  quote : ∀ s, u (backslash :: quote :: s) = quote :: u s

section
variable {esc : UInt8 → Bytes} {typeOf : Bytes → Option T}
  {columns : Bytes → Option (List (Bytes × T))}

/-- The clause of a list of columns is read as that list. -/
theorem ReadsColumns.clauseOf (h : ReadsColumns esc typeOf columns)
    {items : List (Bytes × Bytes)} {cols : List (Bytes × T)} (hne : items ≠ [])
    (hall : List.Forall₂ (fun i c => Denotes esc i.1 c.1 ∧ typeOf i.2 = some c.2) items cols) :
    columns (CText.clauseOf items) = some cols := by
  induction hall with
  | nil => exact absurd rfl hne
  | @cons i c items cols hic hall ih =>
    cases items with
    | nil => cases hall; exact h.last hic.1 hic.2
    | cons j items => rw [CText.clauseOf, h.cons hic.1 hic.2, ih (by simp)]; rfl

/-- Undoing the escapes of a quoted name leaves the name. -/
theorem Unescapes.escaped {u : Bytes → Bytes} (h : Unescapes u) (n s : Bytes) :
    u (CText.escaped n ++ s) = n ++ u s := by
  induction n with
  | nil => rfl
  | cons c n ih =>
    by_cases hq : c = CText.quote
    · subst hq; simp [CText.escaped, h.quote, ih]
    · by_cases hb : c = backslash
      · subst hb; simp [CText.escaped, h.pair, ih]
      · rw [CText.escaped, if_neg (by simp [hq, hb]), List.cons_append, h.plain c _ hb, ih]
        rfl

/-- Unescaping turns a quoted name into the name between quotes, whatever follows. -/
private theorem Unescapes.quoted {u : Bytes → Bytes} (h : Unescapes u) {type : Bytes}
    (ht : backslash ∉ type) (n rest : Bytes) :
    u (columnText (CText.quote :: (CText.escaped n ++ [CText.quote])) type ++ rest)
      = columnText (CText.quote :: (n ++ [CText.quote])) type ++ u rest := by
  have hq : CText.quote ≠ backslash := by decide
  have hsp : backslash ∉ CText.quote :: byte ' ' :: type := by
    simp only [List.mem_cons, not_or]
    exact ⟨by decide, by decide, ht⟩
  have hpass := h.append_of_not_mem hsp rest
  simp only [columnText, List.cons_append, List.append_assoc, List.nil_append] at hpass ⊢
  rw [h.plain _ _ hq, h.escaped, hpass]

/-- A bare word has no quote and no backslash. -/
theorem not_mem_of_isBareword {n : Bytes} (h : isBareword n = true) {c : UInt8}
    (hc : isWordByte c = false) : c ∉ n := by
  cases n with
  | nil => exact absurd h (by decide)
  | cons d n =>
    simp only [isBareword, Bool.and_eq_true, List.all_eq_true] at h
    intro hmem
    rcases List.mem_cons.mp hmem with rfl | hmem
    · rw [hc] at h; exact absurd h.1.1 (by decide)
    · rw [h.2 c hmem] at hc; cases hc

/-- A column whose name reads raw is still that column after the unescaping. -/
private theorem Unescapes.column {u : Bytes → Bytes} (h : Unescapes u) {tok n type : Bytes}
    (hw : WritesName tok n) (ht : backslash ∉ type) (hraw : ReadsRaw esc n) :
    ∃ tok', Denotes esc tok' n ∧
      ∀ rest, u (columnText tok type ++ rest) = columnText tok' type ++ u rest := by
  rcases hw with ⟨hbare, rfl⟩ | rfl
  -- a bare word has nothing to unescape
  · have hmem : backslash ∉ columnText tok type := by
      have hb : backslash ∉ tok := not_mem_of_isBareword hbare (by decide)
      simp only [columnText, List.mem_append, List.mem_cons, not_or]
      exact ⟨hb, by decide, ht⟩
    exact ⟨tok, Or.inl ⟨hbare, rfl⟩, h.append_of_not_mem hmem⟩
  · exact ⟨_, Or.inr ⟨n, rfl, hraw⟩, h.quoted ht n⟩

/-- One whose name does not read raw is no longer read as that column. -/
private theorem ReadsColumns.column_ne (h : ReadsColumns esc typeOf columns)
    (he : QuoteEscapes esc) {u : Bytes → Bytes} (hu : Unescapes u) {tok n type : Bytes}
    (hw : WritesName tok n) (ht : backslash ∉ type) (hraw : ¬ ReadsRaw esc n) (rest : Bytes)
    (t : T) (cols : List (Bytes × T)) :
    columns (u (columnText tok type ++ rest)) ≠ some ((n, t) :: cols) := by
  intro hread
  rcases hw with ⟨hbare, rfl⟩ | rfl
  · exact hraw (.of_not_mem (not_mem_of_isBareword hbare (by decide))
      (not_mem_of_isBareword hbare (by decide)))
  · rw [hu.quoted ht n, columnText, List.cons_append, List.cons_append] at hread
    -- the text still begins with a quoted name, which its first column then has
    obtain ⟨n', r, hbody, hhead⟩ := h.quoted hread
    have hn : n = n' := by simpa using hhead
    subst hn
    apply hraw
    apply ReadsRaw.of_readBody he (s := byte ' ' :: type ++ u rest) (r := r)
    simpa using hbody

/-- **A clause unescaped once too often is read the same exactly when its names read
    raw**, its types having nothing to unescape. -/
theorem ReadsColumns.unescape_iff (h : ReadsColumns esc typeOf columns) (he : QuoteEscapes esc)
    {u : Bytes → Bytes} (hu : Unescapes u) {items : List (Bytes × Bytes)}
    {cols : List (Bytes × T)} (hne : items ≠ [])
    (hall : List.Forall₂ (fun i c => WritesName i.1 c.1 ∧ backslash ∉ i.2 ∧ typeOf i.2 = some c.2)
      items cols) :
    columns (u (CText.clauseOf items)) = some cols ↔ ∀ c ∈ cols, ReadsRaw esc c.1 := by
  induction hall with
  | nil => exact absurd rfl hne
  | @cons i c items cols hic hall ih =>
    obtain ⟨hw, hb, ht⟩ := hic
    by_cases hraw : ReadsRaw esc c.1
    · obtain ⟨tok, htok, hstep⟩ := hu.column hw hb hraw
      cases items with
      | nil =>
        cases hall
        have hlast := hstep []
        rw [List.append_nil, hu.nil, List.append_nil] at hlast
        rw [CText.clauseOf, hlast, h.last htok ht]
        simp [hraw]
      | cons j items =>
        have hsep : backslash ∉ lit ", " := by decide
        rw [CText.clauseOf, hstep, hu.append_of_not_mem hsep, h.cons htok ht,
          List.forall_mem_cons, ← ih (by simp)]
        simp [hraw]
    · -- the first such name is where the readings part
      have hfirst : ¬ ∀ d ∈ c :: cols, ReadsRaw esc d.1 :=
        fun hd => hraw (hd c List.mem_cons_self)
      cases items with
      | nil =>
        have hno := h.column_ne he hu hw hb hraw [] c.2 cols
        rw [List.append_nil] at hno
        exact iff_of_false hno hfirst
      | cons j items => exact iff_of_false (h.column_ne he hu hw hb hraw _ c.2 cols) hfirst

end

/-! ### A reader of columns whose types are words -/

/-- A token, and what follows it. -/
def readToken (esc : UInt8 → Bytes) : Bytes → Option (Bytes × Bytes)
  | [] => none
  | c :: s =>
    if c = quote then readBody esc s
    else if isBareword ((c :: s).takeWhile isWordByte) then
      some ((c :: s).takeWhile isWordByte, (c :: s).dropWhile isWordByte)
    else none

/-- A type that is a word. -/
def wordType (type : Bytes) : Option Bytes :=
  if type ≠ [] ∧ type.all isWordByte then some type else none

/-- Columns whose types are words, at most as many as the first argument says. -/
def readWordColumns (esc : UInt8 → Bytes) : ℕ → Bytes → Option (List (Bytes × Bytes))
  | 0, _ => none
  | fuel + 1, s =>
    match readToken esc s with
    | some (n, c :: rest) =>
      if c ≠ byte ' ' then none
      else (wordType (rest.takeWhile isWordByte)).bind fun t =>
        match rest.dropWhile isWordByte with
        | [] => some [(n, t)]
        | d :: e :: rest =>
          if d = byte ',' ∧ e = byte ' ' then (readWordColumns esc fuel rest).map ((n, t) :: ·)
          else none
        | _ => none
    | _ => none

/-- The columns of a whole clause; no column is shorter than a byte. -/
def wordColumns (esc : UInt8 → Bytes) (s : Bytes) : Option (List (Bytes × Bytes)) :=
  readWordColumns esc s.length s

section
variable {esc : UInt8 → Bytes}

private theorem readBody_length {s : Bytes} {p : Bytes × Bytes} (h : readBody esc s = some p) :
    p.2.length < s.length := by
  fun_induction readBody esc s generalizing p with
  | case1 => cases h
  | case2 s => cases h; simp
  | case3 => cases h
  | case4 d s _ ih =>
    obtain ⟨q, hq, rfl⟩ := Option.map_eq_some_iff.mp h
    have hlt := ih hq
    simp only [List.length_cons]
    omega
  | case5 c s _ _ ih =>
    obtain ⟨q, hq, rfl⟩ := Option.map_eq_some_iff.mp h
    have hlt := ih hq
    simp only [List.length_cons]
    omega

private theorem readToken_length {s : Bytes} {p : Bytes × Bytes} (h : readToken esc s = some p) :
    p.2.length ≤ s.length := by
  cases s with
  | nil => cases h
  | cons c s =>
    rw [readToken] at h
    split at h
    · have hlt := readBody_length h
      simp only [List.length_cons]
      omega
    · split at h
      · cases h
        exact (List.dropWhile_suffix _).length_le
      · cases h

/-- How many columns are allowed for does not matter, if it is enough. -/
private theorem readWordColumns_fuel (f g : ℕ) (s : Bytes) (hf : s.length ≤ f)
    (hg : s.length ≤ g) : readWordColumns esc f s = readWordColumns esc g s := by
  induction f generalizing g s with
  | zero =>
    have hs : s = [] := List.length_eq_zero_iff.mp (by omega)
    subst hs
    cases g <;> rfl
  | succ f ih =>
    cases g with
    | zero =>
      have hs : s = [] := List.length_eq_zero_iff.mp (by omega)
      subst hs
      rfl
    | succ g =>
      unfold readWordColumns
      split
      · rename_i n c rest htok
        have hrest : rest.length + 1 ≤ s.length := readToken_length htok
        have hdrop : (rest.dropWhile isWordByte).length ≤ rest.length :=
          (List.dropWhile_suffix _).length_le
        split
        · rfl
        · congr 1
          funext t
          split
          · rfl
          · rename_i d e rest' hd
            rw [hd] at hdrop
            simp only [List.length_cons] at hdrop
            -- a column takes at least one byte, so less is allowed for the rest
            rw [ih g rest' (by omega) (by omega)]
          · rfl
      · rfl

/-- A token is read whatever follows, unless it runs on into the next word. -/
private theorem readToken_append {tok n : Bytes} (h : Denotes esc tok n) {c : UInt8}
    (hc : isWordByte c = false) (s : Bytes) :
    readToken esc (tok ++ c :: s) = some (n, c :: s) := by
  rcases h with ⟨hbare, rfl⟩ | ⟨body, rfl, hbody⟩
  · cases tok with
    | nil => exact absurd hbare (by decide)
    | cons d tok =>
      have hall : ∀ b ∈ d :: tok, isWordByte b = true := by
        intro b hb
        by_contra hno
        exact not_mem_of_isBareword hbare (by simpa using hno) hb
      have hd : d ≠ quote := by
        rintro rfl
        exact absurd (hall quote List.mem_cons_self) (by decide)
      -- the word ends where it did, before a byte that is in no word
      have htake : ((d :: tok) ++ c :: s).takeWhile isWordByte = d :: tok := by
        rw [List.takeWhile_append_of_pos hall, List.takeWhile_cons, hc]
        simp
      have hdrop : ((d :: tok) ++ c :: s).dropWhile isWordByte = c :: s := by
        rw [List.dropWhile_append_of_pos hall, List.dropWhile_cons, hc]
        simp
      rw [List.cons_append] at htake hdrop ⊢
      rw [readToken, if_neg hd, htake, hdrop, if_pos hbare]
  · have happ : readBody esc ((body ++ [quote]) ++ c :: s) = some (n, [] ++ c :: s) :=
      readBody_append (body ++ [quote]) hbody (c :: s)
    rw [List.cons_append, readToken, if_pos rfl, happ, List.nil_append]

private theorem wordType_eq_some {type t : Bytes} (h : wordType type = some t) :
    t = type ∧ ∀ b ∈ type, isWordByte b = true := by
  unfold wordType at h
  split at h
  · rename_i hw
    cases h
    exact ⟨rfl, fun b hb => List.all_eq_true.mp hw.2 b hb⟩
  · cases h

/-- It is a reader of clauses. -/
theorem wordColumns_reads : ReadsColumns esc wordType (wordColumns esc) where
  last {tok n type t} htok ht := by
    have hsp : isWordByte (byte ' ') = false := by decide
    obtain ⟨rfl, hall⟩ := wordType_eq_some ht
    unfold wordColumns columnText
    rw [List.length_append, List.length_cons, ← Nat.add_assoc, readWordColumns,
      readToken_append htok hsp]
    have htake : t.takeWhile isWordByte = t := List.takeWhile_eq_self_iff.mpr hall
    have hdrop : t.dropWhile isWordByte = [] := List.dropWhile_eq_nil_iff.mpr hall
    simp [htake, hdrop, ht]
  cons {tok n type t} htok ht s := by
    have hsp : isWordByte (byte ' ') = false := by decide
    have hcomma : isWordByte (byte ',') = false := by decide
    obtain ⟨rfl, hall⟩ := wordType_eq_some ht
    have hsep : lit ", " ++ s = byte ',' :: byte ' ' :: s := rfl
    have hlen : s.length ≤ (tok ++ (t ++ byte ',' :: byte ' ' :: s)).length := by
      simp only [List.length_append, List.length_cons]
      omega
    have htake : (t ++ byte ',' :: byte ' ' :: s).takeWhile isWordByte = t := by
      rw [List.takeWhile_append_of_pos hall, List.takeWhile_cons, hcomma]
      simp
    have hdrop : (t ++ byte ',' :: byte ' ' :: s).dropWhile isWordByte
        = byte ',' :: byte ' ' :: s := by
      rw [List.dropWhile_append_of_pos hall, List.dropWhile_cons, hcomma]
      simp
    unfold wordColumns columnText
    rw [hsep, List.append_assoc, List.cons_append, List.length_append, List.length_cons,
      ← Nat.add_assoc, ← List.length_append, readWordColumns, readToken_append htok hsp]
    simp only [htake, hdrop, ht, ne_eq, not_true_eq_false, if_false, Option.bind_some, and_self,
      if_true, readWordColumns_fuel _ s.length s hlen le_rfl]
  quoted {s cols} h := by
    unfold wordColumns at h
    rw [List.length_cons, readWordColumns] at h
    split at h
    · rename_i n c rest htok
      refine ⟨n, c :: rest, by simpa [readToken] using htok, ?_⟩
      split at h
      · cases h
      · obtain ⟨t, _, hcols⟩ := Option.bind_eq_some_iff.mp h
        split at hcols
        · cases hcols; rfl
        · split at hcols
          · obtain ⟨cols', _, rfl⟩ := Option.map_eq_some_iff.mp hcols
            rfl
          · cases hcols
        · cases hcols
    · cases h

end

/-! ### One way of writing and escaping -/

/-- A name as it is if it is a bare word, and quoted otherwise. -/
def quoteName (n : Bytes) : Bytes :=
  if isBareword n then n else quote :: (escaped n ++ [quote])

theorem quoteName_writes (n : Bytes) : WritesName (quoteName n) n := by
  unfold quoteName WritesName
  by_cases h : isBareword n = true
  · simp [h]
  · simp [h]

/-- Only quotes and backslashes are escaped; before another character a backslash is a
    backslash. -/
def plainEscapes (c : UInt8) : Bytes :=
  if c = quote ∨ c = backslash then [c] else [backslash, c]

theorem plainEscapes_spec : QuoteEscapes plainEscapes where
  quote := rfl
  backslash := rfl
  length_le c := by unfold plainEscapes; split <;> simp

/-- Such escapes undone. -/
def unescapeOnce : Bytes → Bytes
  | [] => []
  | c :: s =>
    if c = backslash then
      match s with
      | [] => [backslash]
      | d :: s => plainEscapes d ++ unescapeOnce s
    else c :: unescapeOnce s

theorem unescapeOnce_spec : Unescapes unescapeOnce where
  nil := rfl
  plain c s hc := by rw [unescapeOnce.eq_def]; simp [hc]
  pair s := by rw [unescapeOnce.eq_def]; simp [plainEscapes]
  quote s := by rw [unescapeOnce.eq_def]; simp [plainEscapes]

end CText
