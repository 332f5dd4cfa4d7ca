import PgChdb.Setup.Payload

namespace PgChdb

open CText

/-!
# The setup pipe, read to its end

The backend measures a payload once, before it sends it; the helper finds out how long it is
by reading, into a buffer that doubles when it is full.  The full buffer is noticed before
the read that would have reported the end of the file, so a payload that fills the largest
buffer exactly is refused although it is over.

* `SetupBuffer`, `grow` — the buffer, and the test at the head of the loop;
* `readSetup` — the loop, over what `read` answers; `readRequests` — what it asked for;
* `SetupBuffer.Holds` — the invariant: what was read and what is in the pipe make the
  payload, and the buffer is a power of two of the first;
* `readSetup_agrees_iff` — both sides draw the line at the same length for every payload but
  those of exactly `CHDB_SETUP_MAX` bytes.
-/

/-! ### The loop -/

/-- What one `read` does: it delivers up to so many bytes, is interrupted, or fails. -/
inductive ReadAnswer where
  | upTo (n : ℕ)
  | eintr
  | error
  deriving DecidableEq, Repr

/-- The messages `read_setup` fails with. -/
inductive SetupFailure where
  | tooLarge
  | couldNotRead
  deriving DecidableEq, Repr

/-- `cap` and the bytes read so far; `got` is their number. -/
structure SetupBuffer where
  cap : ℕ
  buf : Bytes

/-- The buffer `read_setup` starts with. -/
def SetupBuffer.empty : SetupBuffer := { cap := 64 * 1024, buf := [] }

/-- A full buffer is doubled, up to `CHDB_SETUP_MAX`. -/
def grow (b : SetupBuffer) : Except SetupFailure SetupBuffer :=
  if b.buf.length = b.cap then
    if b.cap * 2 > chdbSetupMax then .error .tooLarge else .ok { b with cap := b.cap * 2 }
  else .ok b

/-- What `read` returns, asked for `len` bytes of a pipe whose writer has gone: at least one,
    if there is any and room for it. -/
def readCount (n len : ℕ) (pipe : Bytes) : ℕ := min (max n 1) (min len pipe.length)

/-- How the loop stands when the answers end: it still waits for one, has returned the
    payload, or has failed. -/
inductive SetupOutcome where
  | waiting
  | done (payload : Bytes)
  | failed (e : SetupFailure)
  deriving DecidableEq, Repr

/-- The loop of `read_setup`. -/
def readSetupFrom : List ReadAnswer → Bytes → SetupBuffer → SetupOutcome
  | answers, pipe, b =>
    match grow b with
    | .error e => .failed e
    | .ok b =>
      match answers with
      | [] => .waiting
      | .eintr :: answers => readSetupFrom answers pipe b
      | .error :: _ => .failed .couldNotRead
      | .upTo n :: answers =>
        let got := readCount n (b.cap - b.buf.length) pipe
        if got = 0 then .done b.buf
        else readSetupFrom answers (pipe.drop got) { b with buf := b.buf ++ pipe.take got }

/-- `read_setup`, over a pipe that carries `p`. -/
def readSetup (answers : List ReadAnswer) (p : Bytes) : SetupOutcome :=
  readSetupFrom answers p .empty

/-- The reads the loop issues: `cap` and `got` at each. -/
def readRequestsFrom : List ReadAnswer → Bytes → SetupBuffer → List (ℕ × ℕ)
  | answers, pipe, b =>
    match grow b with
    | .error _ => []
    | .ok b =>
      (b.cap, b.buf.length) ::
        match answers with
        | [] => []
        | .eintr :: answers => readRequestsFrom answers pipe b
        | .error :: _ => []
        | .upTo n :: answers =>
          let got := readCount n (b.cap - b.buf.length) pipe
          if got = 0 then []
          else readRequestsFrom answers (pipe.drop got) { b with buf := b.buf ++ pipe.take got }

def readRequests (answers : List ReadAnswer) (p : Bytes) : List (ℕ × ℕ) :=
  readRequestsFrom answers p .empty

/-! ### What the loop keeps -/

/-- The bytes read and those in the pipe make up `p`; the buffer has room for the former and
    is one of the nine sizes from 64 KB to `CHDB_SETUP_MAX`. -/
structure SetupBuffer.Holds (b : SetupBuffer) (p pipe : Bytes) : Prop where
  split : b.buf ++ pipe = p
  got_le : b.buf.length ≤ b.cap
  cap_eq : ∃ k, k ≤ 8 ∧ b.cap = 64 * 1024 * 2 ^ k

theorem SetupBuffer.Holds.start (p : Bytes) : SetupBuffer.empty.Holds p p where
  split := rfl
  got_le := Nat.zero_le _
  cap_eq := ⟨0, by omega, rfl⟩

section
variable {b b' : SetupBuffer} {p pipe : Bytes}

theorem SetupBuffer.Holds.cap_le (h : b.Holds p pipe) : b.cap ≤ chdbSetupMax := by
  obtain ⟨k, hk, hcap⟩ := h.cap_eq
  have hpow : 2 ^ k ≤ 2 ^ 8 := Nat.pow_le_pow_right (by omega) hk
  rw [hcap, chdbSetupMax]
  omega

/-- The loop gives up only on a full buffer of the largest size. -/
theorem grow_error {e : SetupFailure} (h : b.Holds p pipe) (hg : grow b = .error e) :
    e = .tooLarge ∧ b.buf.length = chdbSetupMax := by
  obtain ⟨k, hk, hcap⟩ := h.cap_eq
  unfold grow at hg
  split at hg
  · rename_i hfull
    split at hg
    · rename_i hlarge
      cases hg
      -- a smaller size could still be doubled
      have hlast : k = 8 := by
        by_contra hne
        have hpow : 2 ^ k ≤ 2 ^ 7 := Nat.pow_le_pow_right (by omega) (by omega)
        rw [hcap, chdbSetupMax] at hlarge
        omega
      refine ⟨rfl, ?_⟩
      rw [hfull, hcap, hlast]
      rfl
    · cases hg
  · cases hg

/-- Past the head of the loop there is room for the next read. -/
theorem grow_ok (h : b.Holds p pipe) (hg : grow b = .ok b') :
    b'.Holds p pipe ∧ b'.buf.length < b'.cap := by
  have hle := h.got_le
  obtain ⟨k, hk, hcap⟩ := h.cap_eq
  unfold grow at hg
  split at hg
  · rename_i hfull
    split at hg
    · cases hg
    · rename_i hlarge
      cases hg
      have hpos : 0 < 2 ^ k := Nat.pow_pos (by omega)
      have hnext : k + 1 ≤ 8 := by
        by_contra hlast
        have hpow : 2 ^ 8 ≤ 2 ^ k := Nat.pow_le_pow_right (by omega) (by omega)
        rw [hcap, chdbSetupMax] at hlarge
        omega
      refine ⟨⟨h.split, ?_, k + 1, hnext, ?_⟩, ?_⟩
      · show b.buf.length ≤ b.cap * 2
        omega
      · show b.cap * 2 = _
        rw [hcap, pow_succ, Nat.mul_assoc]
      · show b.buf.length < b.cap * 2
        omega
  · rename_i hfull
    cases hg
    exact ⟨h, by omega⟩

/-- A read into the room left takes nothing only when the pipe is empty. -/
theorem readCount_eq_zero {n : ℕ} (hroom : b.buf.length < b.cap) :
    readCount n (b.cap - b.buf.length) pipe = 0 ↔ pipe = [] := by
  rw [← List.length_eq_zero_iff, readCount]
  omega

/-- The bytes of a read go from the pipe to the buffer. -/
theorem SetupBuffer.Holds.read (h : b.Holds p pipe) (n : ℕ) :
    SetupBuffer.Holds
      { b with buf := b.buf ++ pipe.take (readCount n (b.cap - b.buf.length) pipe) } p
      (pipe.drop (readCount n (b.cap - b.buf.length) pipe)) := by
  have hle := h.got_le
  refine ⟨?_, ?_, h.cap_eq⟩
  · rw [List.append_assoc, List.take_append_drop]
    exact h.split
  · show (b.buf ++ _).length ≤ b.cap
    rw [List.length_append, List.length_take, readCount]
    omega

/-- **What the loop can come to.**  Below the limit it never fails and returns the payload;
    from the limit on it never returns and fails as too large. -/
theorem readSetupFrom_outcome {answers : List ReadAnswer} (h : b.Holds p pipe)
    (herr : .error ∉ answers) :
    readSetupFrom answers pipe b = .waiting ∨
      readSetupFrom answers pipe b
        = if p.length < chdbSetupMax then .done p else .failed .tooLarge := by
  induction answers generalizing b pipe with
  | nil =>
    rw [readSetupFrom]
    cases hg : grow b with
    | error e =>
      obtain ⟨rfl, hlen⟩ := grow_error h hg
      have hp := congrArg List.length h.split
      rw [List.length_append] at hp
      right
      rw [if_neg (by omega)]
    | ok b' => exact Or.inl rfl
  | cons a answers ih =>
    have herr' : .error ∉ answers := fun hm => herr (List.mem_cons_of_mem a hm)
    rw [readSetupFrom]
    cases hg : grow b with
    | error e =>
      obtain ⟨rfl, hlen⟩ := grow_error h hg
      have hp := congrArg List.length h.split
      rw [List.length_append] at hp
      right
      rw [if_neg (by omega)]
    | ok b' =>
      obtain ⟨h', hroom⟩ := grow_ok h hg
      cases a with
      | eintr => exact ih h' herr'
      | error => exact absurd List.mem_cons_self herr
      | upTo n =>
        show (if _ then _ else _) = _ ∨ (if _ then _ else _) = _
        by_cases hzero : readCount n (b'.cap - b'.buf.length) pipe = 0
        · -- the end of the file: the pipe is empty and the buffer not full
          rw [if_pos hzero]
          rw [readCount_eq_zero hroom] at hzero
          have hp : b'.buf = p := by
            have hsplit := h'.split
            rwa [hzero, List.append_nil] at hsplit
          have hcap := h'.cap_le
          right
          rw [if_pos (by rw [← hp]; omega), hp]
        · rw [if_neg hzero]
          exact ih (h'.read n) herr'

/-- The loop does not wait for more reads than there are bytes. -/
theorem readSetupFrom_ends {answers : List ReadAnswer} (h : b.Holds p pipe)
    (hcount : pipe.length < answers.countP (· ≠ .eintr)) :
    readSetupFrom answers pipe b ≠ .waiting := by
  induction answers generalizing b pipe with
  | nil => simp at hcount
  | cons a answers ih =>
    rw [readSetupFrom]
    cases hg : grow b with
    | error e => simp
    | ok b' =>
      obtain ⟨h', hroom⟩ := grow_ok h hg
      cases a with
      | eintr =>
        apply ih h'
        simpa using hcount
      | error => simp
      | upTo n =>
        show (if _ then _ else _) ≠ _
        by_cases hzero : readCount n (b'.cap - b'.buf.length) pipe = 0
        · rw [if_pos hzero]
          simp
        · rw [if_neg hzero]
          apply ih (h'.read n)
          rw [List.countP_cons_of_pos (by simp)] at hcount
          have hle : readCount n (b'.cap - b'.buf.length) pipe ≤ pipe.length := by
            unfold readCount
            omega
          rw [List.length_drop]
          omega

/-- Every read is issued for at least one byte, into a buffer within the limit. -/
theorem readRequestsFrom_bounded {answers : List ReadAnswer} (h : b.Holds p pipe) :
    ∀ r ∈ readRequestsFrom answers pipe b, r.2 < r.1 ∧ r.1 ≤ chdbSetupMax := by
  induction answers generalizing b pipe with
  | nil =>
    intro r hr
    rw [readRequestsFrom] at hr
    cases hg : grow b with
    -- a loop that gives up issues no read
    | error e => simp [hg] at hr
    | ok b' =>
      obtain ⟨h', hroom⟩ := grow_ok h hg
      simp only [hg, List.mem_singleton] at hr
      subst hr
      exact ⟨hroom, h'.cap_le⟩
  | cons a answers ih =>
    intro r hr
    rw [readRequestsFrom] at hr
    cases hg : grow b with
    | error e => simp [hg] at hr
    | ok b' =>
      obtain ⟨h', hroom⟩ := grow_ok h hg
      simp only [hg, List.mem_cons] at hr
      rcases hr with rfl | hr
      · exact ⟨hroom, h'.cap_le⟩
      · cases a with
        | eintr => exact ih h' r hr
        | error => simp at hr
        | upTo n =>
          dsimp only at hr
          split at hr
          · simp at hr
          · exact ih (h'.read n) r hr

end

/-! ### Where the two sides draw the line -/

/-- However the pipe is split into reads and whatever reads are interrupted, the loop comes
    to the outcome `o` as soon as it has been answered often enough, and to no other. -/
def AlwaysEnds (p : Bytes) (o : SetupOutcome) : Prop :=
  ∀ answers, ReadAnswer.error ∉ answers →
    (readSetup answers p = .waiting ∨ readSetup answers p = o) ∧
      (p.length < answers.countP (· ≠ .eintr) → readSetup answers p = o)

/-- The helper takes a payload of a length `build_setup` lets pass and refuses any other, and
    asks for at least one byte in every read, within `CHDB_SETUP_MAX`. -/
structure SetupAgrees (p : Bytes) : Prop where
  fits : p.length ≤ chdbSetupMax → AlwaysEnds p (.done p)
  refused : chdbSetupMax < p.length → AlwaysEnds p (.failed .tooLarge)
  requests : ∀ answers, ∀ r ∈ readRequests answers p, r.2 < r.1 ∧ r.1 ≤ chdbSetupMax

theorem alwaysEnds (p : Bytes) :
    AlwaysEnds p (if p.length < chdbSetupMax then .done p else .failed .tooLarge) := by
  intro answers herr
  have hout := readSetupFrom_outcome (SetupBuffer.Holds.start p) herr
  refine ⟨hout, fun hcount => ?_⟩
  exact hout.resolve_left (readSetupFrom_ends (SetupBuffer.Holds.start p) hcount)

/-- The loop comes to one outcome. -/
theorem AlwaysEnds.unique {p : Bytes} {o o' : SetupOutcome} (h : AlwaysEnds p o)
    (h' : AlwaysEnds p o') : o = o' := by
  -- one byte at a time is often enough to bring either to its outcome
  have herr : ReadAnswer.error ∉ List.replicate (p.length + 1) (ReadAnswer.upTo 1) := by
    simp
  have hcount : p.length
      < (List.replicate (p.length + 1) (ReadAnswer.upTo 1)).countP (· ≠ .eintr) := by
    simp [List.countP_replicate]
  rw [← (h _ herr).2 hcount, ← (h' _ herr).2 hcount]

/-- **The helper refuses one length that the backend sends.**  The two agree on a payload
    unless it is exactly `CHDB_SETUP_MAX` bytes long. -/
theorem readSetup_agrees_iff (p : Bytes) : SetupAgrees p ↔ p.length ≠ chdbSetupMax := by
  have hends := alwaysEnds p
  constructor
  · intro h hlen
    -- at the limit the loop fails, and the two outcomes are not the same
    rw [if_neg (by omega)] at hends
    have hsame := (h.fits hlen.le).unique hends
    cases hsame
  · intro hne
    refine ⟨?_, ?_, ?_⟩
    · intro hle
      rwa [if_pos (by omega)] at hends
    · intro hlt
      rwa [if_neg (by omega)] at hends
    · intro answers
      exact readRequestsFrom_bounded (SetupBuffer.Holds.start p)

/-- A query that fills the payload up to the limit, with the time zone `UTC` and no
    parameters. -/
def longestQuery : Bytes := List.replicate (chdbSetupMax - 20) (byte ' ')

theorem setupBytes_longestQuery (ctx : ChdbHelperContext) :
    (setupBytes ctx (lit "UTC") longestQuery []).length = chdbSetupMax := by
  have hquery : longestQuery.length = chdbSetupMax - 20 := List.length_replicate
  have hmod : (chdbSetupMax - 20) % 2 ^ 32 = chdbSetupMax - 20 := by decide
  have hzone : (lit "UTC").length = 3 := rfl
  simp only [setupBytes, appendString, appendParams, List.length_cons, List.length_append,
    leBytes_length, stringBody_length, hquery, hmod, hzone, List.flatMap_nil, List.length_nil]
  decide

/-- The backend sends it, and the helper fails however the pipe splits it. -/
theorem readSetup_refuses_longest :
    buildSetup ⟨.select, 0, 0, 0⟩ (lit "UTC") longestQuery []
        = .ok (setupBytes ⟨.select, 0, 0, 0⟩ (lit "UTC") longestQuery []) ∧
      AlwaysEnds (setupBytes ⟨.select, 0, 0, 0⟩ (lit "UTC") longestQuery [])
        (.failed .tooLarge) ∧
      ¬ SetupAgrees (setupBytes ⟨.select, 0, 0, 0⟩ (lit "UTC") longestQuery []) := by
  have hlen := setupBytes_longestQuery ⟨.select, 0, 0, 0⟩
  refine ⟨?_, ?_, ?_⟩
  · unfold buildSetup
    dsimp only
    rw [if_neg (by omega)]
  · have hends := alwaysEnds (setupBytes ⟨.select, 0, 0, 0⟩ (lit "UTC") longestQuery [])
    rwa [if_neg (by omega)] at hends
  · intro h
    have hsame := (h.fits hlen.le).unique (alwaysEnds _)
    rw [if_neg (by omega)] at hsame
    cases hsame

end PgChdb
