import Mathlib.Logic.Relation
import Mathlib.Data.List.Basic
import Mathlib.Order.WellFounded

namespace Channels

/-!
# Processes joined by bounded channels

A channel is a queue of bounded, positive capacity with two ends, either of which can be
closed.  It remembers what has been taken out of it, so that what has ever been put in is
`sent`: the part taken and the part still inside.

A run is a sequence of labelled steps, each of which satisfies a side condition on its label
and the states around it; a property that those steps keep holds all along the run.

* `Pipe` — a channel, with `Pipe.put`, `Pipe.get` and the two ways of closing an end;
* `Pipe.put_sent`, `Pipe.get_sent` — what they do to `sent`;
* `Pipe.exists_room`, `Pipe.nonempty_of_full` — a channel never blocks both ends;
* `Run`, `Run.invariant` — runs, and the rule for invariants;
* `Run.reaches` — the rule for getting somewhere, by a rank that goes down.
-/

/-! ### Channels -/

/-- A channel of bytes, or of anything else. -/
structure Pipe (α : Type*) where
  cap : ℕ
  content : List α
  taken : List α
  readOpen : Bool
  writeOpen : Bool
  cap_pos : 0 < cap
  fits : content.length ≤ cap

namespace Pipe

variable {α : Type*}

/-- An empty channel, both ends open. -/
def fresh (cap : ℕ) (pos : 0 < cap) : Pipe α where
  cap := cap
  content := []
  taken := []
  readOpen := true
  writeOpen := true
  cap_pos := pos
  fits := Nat.zero_le cap

/-- Everything that was ever put in. -/
def sent (p : Pipe α) : List α := p.taken ++ p.content

/-- Put something in, behind what is there. -/
def put (p : Pipe α) (xs : List α) (room : p.content.length + xs.length ≤ p.cap) : Pipe α :=
  { p with content := p.content ++ xs, fits := by rwa [List.length_append] }

/-- Take the first `n`. -/
def get (p : Pipe α) (n : ℕ) : Pipe α :=
  { p with content := p.content.drop n, taken := p.taken ++ p.content.take n
           fits := by
            have hfits := p.fits
            rw [List.length_drop]
            omega }

def closeRead (p : Pipe α) : Pipe α := { p with readOpen := false }

def closeWrite (p : Pipe α) : Pipe α := { p with writeOpen := false }

/-- The reader has had everything and the writer is gone. -/
def AtEnd (p : Pipe α) : Prop := p.content = [] ∧ p.writeOpen = false

section
variable (p : Pipe α) {xs : List α} {room : p.content.length + xs.length ≤ p.cap} {n : ℕ}

@[simp] theorem put_content : (p.put xs room).content = p.content ++ xs := rfl
@[simp] theorem put_taken : (p.put xs room).taken = p.taken := rfl
@[simp] theorem put_readOpen : (p.put xs room).readOpen = p.readOpen := rfl
@[simp] theorem put_writeOpen : (p.put xs room).writeOpen = p.writeOpen := rfl
@[simp] theorem get_content : (p.get n).content = p.content.drop n := rfl
@[simp] theorem get_taken : (p.get n).taken = p.taken ++ p.content.take n := rfl
@[simp] theorem get_readOpen : (p.get n).readOpen = p.readOpen := rfl
@[simp] theorem get_writeOpen : (p.get n).writeOpen = p.writeOpen := rfl
@[simp] theorem closeRead_content : p.closeRead.content = p.content := rfl
@[simp] theorem closeRead_taken : p.closeRead.taken = p.taken := rfl
@[simp] theorem closeRead_readOpen : p.closeRead.readOpen = false := rfl
@[simp] theorem closeRead_writeOpen : p.closeRead.writeOpen = p.writeOpen := rfl
@[simp] theorem closeRead_sent : p.closeRead.sent = p.sent := rfl
@[simp] theorem closeWrite_content : p.closeWrite.content = p.content := rfl
@[simp] theorem closeWrite_taken : p.closeWrite.taken = p.taken := rfl
@[simp] theorem closeWrite_readOpen : p.closeWrite.readOpen = p.readOpen := rfl
@[simp] theorem closeWrite_writeOpen : p.closeWrite.writeOpen = false := rfl
@[simp] theorem closeWrite_sent : p.closeWrite.sent = p.sent := rfl

@[simp] theorem put_sent : (p.put xs room).sent = p.sent ++ xs :=
  (List.append_assoc _ _ _).symm

@[simp] theorem get_sent : (p.get n).sent = p.sent := by
  simp [sent, List.append_assoc]

end

variable {p : Pipe α}

/-- Once nothing is left inside, all has been taken. -/
theorem taken_eq_sent (h : p.content = []) : p.taken = p.sent := by
  rw [sent, h, List.append_nil]

/-- An empty channel takes the first of any list. -/
theorem exists_room (h : p.content = []) (x : α) : p.content.length + [x].length ≤ p.cap := by
  have hpos := p.cap_pos
  rw [h, List.length_nil, List.length_singleton]
  omega

/-- A channel that does not take one more has something inside. -/
theorem nonempty_of_full (h : p.cap < p.content.length + 1) : p.content ≠ [] := by
  have hpos := p.cap_pos
  rintro hnil
  rw [hnil, List.length_nil] at h
  omega

end Pipe

/-! ### Runs -/

/-- A run from one state to another whose steps all satisfy `ok`. -/
inductive Run {σ κ : Type*} (step : κ → σ → σ → Prop) (ok : κ → σ → σ → Prop) (s : σ) : σ → Prop
  | start : Run step ok s s
  | next {t u : σ} {k : κ} : Run step ok s t → step k t u → ok k t u → Run step ok s u

namespace Run

variable {σ κ : Type*} {step ok : κ → σ → σ → Prop} {s t u : σ}

/-- **The invariant rule.** -/
theorem invariant {I : σ → Prop} (init : I s)
    (keep : ∀ k a b, I a → step k a b → ok k a b → I b) (h : Run step ok s t) : I t := by
  induction h with
  | start => exact init
  | next _ hstep hok ih => exact keep _ _ _ ih hstep hok

/-- A weaker side condition admits more runs. -/
theorem mono {ok' : κ → σ → σ → Prop} (h : ∀ k a b, ok k a b → ok' k a b) :
    Run step ok s t → Run step ok' s t := by
  intro hrun
  induction hrun with
  | start => exact .start
  | next _ hstep hok ih => exact ih.next hstep (h _ _ _ hok)

theorem trans (h : Run step ok s t) (h' : Run step ok t u) : Run step ok s u := by
  induction h' with
  | start => exact h
  | next _ hstep hok ih => exact ih.next hstep hok

/-- **The rule for getting somewhere.**  Where the goal is not reached, the run can go on to a
    state of lower rank. -/
theorem reaches {ρ : Type*} [LT ρ] [WellFoundedLT ρ] (rank : σ → ρ) {I goal : σ → Prop}
    (lower : ∀ s, I s → goal s ∨ ∃ t, Run step ok s t ∧ (goal t ∨ I t ∧ rank t < rank s))
    (init : I s) : ∃ t, Run step ok s t ∧ goal t := by
  have hall : ∀ r s, rank s = r → I s → ∃ t, Run step ok s t ∧ goal t := by
    intro r
    induction r using WellFoundedLT.induction with
    | ind r ih =>
      rintro s rfl hs
      rcases lower s hs with hgoal | ⟨t, hrun, hgoal | ⟨ht, hlt⟩⟩
      · exact ⟨s, .start, hgoal⟩
      · exact ⟨t, hrun, hgoal⟩
      · obtain ⟨u, hrun', hgoal⟩ := ih (rank t) hlt t rfl ht
        exact ⟨u, hrun.trans hrun', hgoal⟩
  exact hall (rank s) s rfl init

end Run

end Channels
