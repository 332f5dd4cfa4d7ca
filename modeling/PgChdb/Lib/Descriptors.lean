import Mathlib.Data.List.Range
import Mathlib.Logic.Function.Basic

namespace Descriptors

/-!
# Descriptor tables

A process's descriptors are a table from numbers to what they refer to, with the
close-on-exec flag of each.  The numbers new descriptors get are the kernel's choice: an
`Allocator` gives any free one that is not below a bound, or none.

* `Table` — a table, which has no negative descriptor, with `close`, `put`, `setCloexec`,
  `dup2` and `exec`, and what each of them leaves at every number;
* `Allocator` — the choice of new descriptors;
* `Table.Holds` — some descriptor of the table refers to a file.
-/

variable {α : Type}

/-- What a descriptor refers to, and whether `exec` closes it. -/
structure Entry (α : Type) where
  file : α
  cloexec : Bool
  deriving DecidableEq, Repr

/-- A process's descriptors. -/
@[ext]
structure Table (α : Type) where
  entry : ℤ → Option (Entry α)
  nonneg : ∀ fd e, entry fd = some e → 0 ≤ fd

namespace Table

/-- The table of a process with nothing open. -/
def empty : Table α where
  entry _ := none
  nonneg _ _ h := nomatch h

/-- `close`, which an open descriptor does not survive. -/
def close (t : Table α) (fd : ℤ) : Table α where
  entry := Function.update t.entry fd none
  nonneg n e h := by
    by_cases hn : n = fd
    · subst hn; simp at h
    · exact t.nonneg n e (by rwa [Function.update_of_ne hn] at h)

/-- Another file at a number. -/
def put (t : Table α) (fd : ℤ) (hfd : 0 ≤ fd) (e : Entry α) : Table α where
  entry := Function.update t.entry fd (some e)
  nonneg n e' h := by
    by_cases hn : n = fd
    · subst hn; exact hfd
    · exact t.nonneg n e' (by rwa [Function.update_of_ne hn] at h)

/-- `fcntl(fd, F_SETFD, …)`. -/
def setCloexec (t : Table α) (fd : ℤ) (cloexec : Bool) : Table α where
  entry := Function.update t.entry fd ((t.entry fd).map fun e => { e with cloexec })
  nonneg n e h := by
    by_cases hn : n = fd
    · subst hn
      rw [Function.update_self] at h
      obtain ⟨e', he', _⟩ := Option.map_eq_some_iff.mp h
      exact t.nonneg n e' he'
    · exact t.nonneg n e (by rwa [Function.update_of_ne hn] at h)

/-- What `exec` leaves of a table. -/
def exec (t : Table α) : Table α where
  entry fd := (t.entry fd).filter fun e => !e.cloexec
  nonneg n e h := t.nonneg n e (Option.eq_some_of_filter_eq_some h)

@[simp] theorem entry_close (t : Table α) (fd n : ℤ) :
    (t.close fd).entry n = if n = fd then none else t.entry n := by
  by_cases h : n = fd <;> simp [close, h]

@[simp] theorem entry_put (t : Table α) (fd : ℤ) (hfd : 0 ≤ fd) (e : Entry α) (n : ℤ) :
    (t.put fd hfd e).entry n = if n = fd then some e else t.entry n := by
  by_cases h : n = fd <;> simp [put, h]

@[simp] theorem entry_setCloexec (t : Table α) (fd : ℤ) (b : Bool) (n : ℤ) :
    (t.setCloexec fd b).entry n
      = if n = fd then (t.entry n).map fun e => { e with cloexec := b } else t.entry n := by
  by_cases h : n = fd
  · subst h; simp [setCloexec]
  · simp [setCloexec, h]

@[simp] theorem entry_exec (t : Table α) (n : ℤ) :
    t.exec.entry n = (t.entry n).filter fun e => !e.cloexec := rfl

/-- Closing what was put at a free number leaves the table as it was. -/
theorem close_put {t : Table α} {fd : ℤ} (hfd : 0 ≤ fd) (e : Entry α) (hfree : t.entry fd = none) :
    (t.put fd hfd e).close fd = t := by
  ext1
  funext n
  rw [entry_close, entry_put]
  split
  · rename_i hn
    rw [hn, hfree]
  · rfl

theorem entry_of_neg (t : Table α) {fd : ℤ} (h : fd < 0) : t.entry fd = none := by
  cases he : t.entry fd with
  | none => rfl
  | some e => exact absurd (t.nonneg fd e he) (by omega)

/-- Some descriptor refers to the file. -/
def Holds (t : Table α) (f : α) : Prop := ∃ fd e, t.entry fd = some e ∧ e.file = f

end Table

/-- The kernel's choice of a new descriptor: a free one, not below the bound, or none. -/
structure Allocator (α : Type) where
  free : Table α → ℤ → Option ℤ
  spec : ∀ t low fd, free t low = some fd → low ≤ fd ∧ 0 ≤ fd ∧ t.entry fd = none

/-- The lowest free descriptor, below a limit. -/
def lowest (limit : ℕ) : Allocator α where
  free t low := ((List.range limit).map Int.ofNat).find? fun fd =>
    low ≤ fd ∧ (t.entry fd).isNone
  spec t low fd h := by
    have hmem := List.mem_of_find?_eq_some h
    have hfd := List.find?_some h
    simp only [decide_eq_true_eq, Option.isNone_iff_eq_none] at hfd
    obtain ⟨n, _, rfl⟩ := List.mem_map.mp hmem
    exact ⟨hfd.1, Int.natCast_nonneg n, hfd.2⟩

end Descriptors
