import Mathlib.Data.Int.Notation
import Mathlib.Data.List.Basic

namespace Memory

/-!
# Reading a buffer between two pointers

C code reads a buffer through a cursor, the address of the next byte and the address past
the last.  It compares the room between the two with what it is about to take, and nothing
but those comparisons keeps it from reading on into what lies behind.

* `Span`, `Access` — a cursor, and code that moves one; it stops `short` where it finds too
  little room itself, and `outside` where it reads past the end;
* `need`, `needOne`, `fetch` — the comparisons and the read;
* `takeExactly` — the reader of lists the two together stand for;
* `Follows` — an access does what a reader of lists does on the bytes in between, whatever
  lies behind them, and never reads outside (`Follows.pure`, `.bind`, `.fetch`).
-/

variable {σ α β : Type}

/-- The next position to read and the one past the last, in a buffer. -/
structure Span where
  pos : ℕ
  lim : ℕ

/-- How an access stops: the code found too little room, or it read past the end. -/
inductive Fault where
  | short
  | outside
  deriving DecidableEq, Repr

/-- Code that reads through a cursor. -/
abbrev Access := StateT Span (Except Fault)

/-- `if ((size_t)(end - at) < n) fail(…)`: the cast makes a negative difference a large one,
    which passes. -/
def need (n : ℕ) : Access Unit := fun c =>
  if 0 ≤ (c.lim : ℤ) - c.pos ∧ (c.lim : ℤ) - c.pos < n then .error .short else .ok ((), c)

/-- `if (at == end) fail(…)`. -/
def needOne : Access Unit := fun c => if c.pos = c.lim then .error .short else .ok ((), c)

/-- `memcpy(…, at, n); at += n`. -/
def fetch (mem : List σ) (n : ℕ) : Access (List σ) := fun c =>
  if c.pos + n ≤ c.lim then .ok ((mem.drop c.pos).take n, { c with pos := c.pos + n })
  else .error .outside

/-- The next `n` of a list, if it has as many. -/
def takeExactly (n : ℕ) : StateT (List σ) Option (List σ) := fun s =>
  if s.length < n then none else some (s.take n, s.drop n)

/-- The cursor lies in the buffer. -/
structure Span.Valid (mem : List σ) (c : Span) : Prop where
  pos_le : c.pos ≤ c.lim
  lim_le : c.lim ≤ mem.length

/-- What is left to read. -/
def unread (mem : List σ) (c : Span) : List σ := (mem.take c.lim).drop c.pos

theorem unread_length {mem : List σ} {c : Span} (h : c.Valid mem) :
    (unread mem c).length = c.lim - c.pos := by
  rw [unread, List.length_drop, List.length_take, Nat.min_eq_left h.lim_le]

/-- The access does what the reader does on what is left to read. -/
def Follows (mem : List σ) (m : Access α) (rd : StateT (List σ) Option α) : Prop :=
  ∀ c, c.Valid mem → match rd (unread mem c) with
    | none => m c = .error .short
    | some (a, r) => ∃ c', m c = .ok (a, c') ∧ c'.Valid mem ∧ c'.lim = c.lim ∧ unread mem c' = r

section
variable {mem : List σ}

theorem Follows.pure (a : α) : Follows mem (Pure.pure a : Access α) (Pure.pure a) := by
  intro c hc
  exact ⟨c, rfl, hc, rfl, rfl⟩

theorem Follows.bind {m : Access α} {rd : StateT (List σ) Option α} {f : α → Access β}
    {g : α → StateT (List σ) Option β} (hm : Follows mem m rd)
    (hf : ∀ a, Follows mem (f a) (g a)) : Follows mem (m >>= f) (rd >>= g) := by
  intro c hc
  have hfirst := hm c hc
  have hbind : (rd >>= g) (unread mem c) = (rd (unread mem c)).bind fun p => g p.1 p.2 := rfl
  have hrun : (m >>= f) c = (m c).bind fun p => f p.1 p.2 := rfl
  rw [hbind, hrun]
  cases hrd : rd (unread mem c) with
  | none =>
    rw [hrd] at hfirst
    show (m c).bind _ = _
    rw [show m c = .error .short from hfirst]
    rfl
  | some p =>
    obtain ⟨a, r⟩ := p
    rw [hrd] at hfirst
    obtain ⟨c', hm', hc', hlim, hr⟩ := hfirst
    have hsecond := hf a c' hc'
    rw [hr] at hsecond
    rw [hm']
    show match g a r with | none => f a c' = _ | some (b, r') => _
    cases hg : g a r with
    | none => rw [hg] at hsecond; exact hsecond
    | some q =>
      rw [hg] at hsecond
      obtain ⟨c'', hb, hc'', hlim', hr'⟩ := hsecond
      exact ⟨c'', hb, hc'', hlim'.trans hlim, hr'⟩

/-- A read behind its own comparison takes the next `n`, or stops short. -/
theorem Follows.fetch (n : ℕ) :
    Follows mem (need n >>= fun _ => Memory.fetch mem n) (takeExactly n) := by
  intro c hc
  have hpos := hc.pos_le
  have hlen := unread_length hc
  have hrun : (need n >>= fun _ => Memory.fetch mem n) c
      = (need n c).bind fun p => Memory.fetch mem n p.2 := rfl
  by_cases hn : (unread mem c).length < n
  · have hshort : 0 ≤ (c.lim : ℤ) - c.pos ∧ (c.lim : ℤ) - c.pos < n := by omega
    rw [takeExactly, if_pos hn, hrun, need, if_pos hshort]
    rfl
  · have hroom : ¬ (0 ≤ (c.lim : ℤ) - c.pos ∧ (c.lim : ℤ) - c.pos < n) := by omega
    have hin : c.pos + n ≤ c.lim := by omega
    rw [takeExactly, if_neg hn, hrun, need, if_neg hroom]
    show ∃ c', Memory.fetch mem n c = .ok (_, c') ∧ _
    rw [Memory.fetch, if_pos hin]
    refine ⟨{ c with pos := c.pos + n }, ?_, ⟨hin, hc.lim_le⟩, rfl, ?_⟩
    · have htake : (unread mem c).take n = (mem.drop c.pos).take n := by
        rw [unread, List.drop_take, List.take_take, Nat.min_eq_left (by omega)]
      rw [htake]
    · rw [unread, unread, List.drop_drop]

/-- So does a read of one behind the test for the end. -/
theorem Follows.fetchOne :
    Follows mem (needOne >>= fun _ => Memory.fetch mem 1) (takeExactly 1) := by
  intro c hc
  have hpos := hc.pos_le
  have hsame : needOne c = need 1 c := by
    unfold needOne need
    by_cases h : c.pos = c.lim
    · rw [if_pos h, if_pos (by omega)]
    · rw [if_neg h, if_neg (by omega)]
  have hrun : (needOne >>= fun _ => Memory.fetch mem 1) c
      = (need 1 >>= fun _ => Memory.fetch mem 1) c := by
    show (needOne c).bind _ = (need 1 c).bind _
    rw [hsame]
  rw [hrun]
  exact Follows.fetch 1 c hc

end

/-- An access that follows a reader of the whole buffer, whatever lies behind it, ends in
    front of what the reader leaves. -/
theorem Follows.run {s slack : List σ} {m : Access α} {rd : StateT (List σ) Option α}
    (h : Follows (s ++ slack) m rd) :
    m ⟨0, s.length⟩ = match rd s with
      | none => .error .short
      | some (a, r) => .ok (a, ⟨s.length - r.length, s.length⟩) := by
  have hunread : unread (s ++ slack) ⟨0, s.length⟩ = s := by simp [unread]
  have hrun := h ⟨0, s.length⟩ ⟨Nat.zero_le _, by simp⟩
  rw [hunread] at hrun
  cases hrd : rd s with
  | none => rw [hrd] at hrun; exact hrun
  | some p =>
    obtain ⟨a, r⟩ := p
    rw [hrd] at hrun
    obtain ⟨⟨pos, lim⟩, hm, hvalid, rfl, hr⟩ := hrun
    have hlen := unread_length hvalid
    have hpos : pos ≤ s.length := hvalid.pos_le
    have hend : pos = s.length - r.length := by
      rw [hr] at hlen
      dsimp only at hlen
      omega
    show m ⟨0, s.length⟩ = .ok (a, ⟨s.length - r.length, s.length⟩)
    rw [hm, ← hend]

end Memory
