import PgChdb.Setup.Payload
import PgChdb.Lib.Memory

namespace PgChdb

open CText Memory

/-!
# What the helper accepts as a setup payload

`build_setup` and the parser in `main` share no code, only the comment in `src/setup.h`.
The parser is exact: it accepts what some request is written as, whatever follows, and
nothing else.  Each of its functions checks the room left before it reads, so it never
looks past the end of the payload.

* `SetupRequest.bytes`, `SetupRequest.Fits` — the encoding of a request, and the requests
  whose lengths fit their fields;
* `take1_eq_some`, `take2_eq_some`, `takeStr_eq_some`, `takeParams_eq_some` — what each
  reader accepts, and `parseSetup_eq_some` for all of them in turn;
* `parseMain` — the same functions over the cursor's two pointers into the buffer, and
  `parseMain_follows`;
* `parseMain_exact` — the parser inverts the encoding.
-/

/-! ### Requests as bytes -/

/-- A request as `build_setup` writes it, whichever byte its command is. -/
def SetupRequest.bytes (x : SetupRequest) : Bytes :=
  x.cmdType :: (leBytes 2 x.maxMem.toNat ++ (leBytes 2 x.maxThreads.toNat ++
    (leBytes 2 x.maxParsers.toNat ++ (appendString x.timezone ++ (appendString x.query ++
      (leBytes 2 x.params.length ++ appendParams x.params))))))

/-- The lengths of a request fit the fields they cross in. -/
structure SetupRequest.Fits (x : SetupRequest) : Prop where
  timezone : x.timezone.length < 2 ^ 32
  query : x.query.length < 2 ^ 32
  params : ∀ p ∈ x.params, p.1.length < 2 ^ 32 ∧ p.2.length < 2 ^ 32
  count : x.params.length < 2 ^ 16

/-- The request a context, a time zone, a query and its parameters make. -/
def setupRequest (ctx : ChdbHelperContext) (timezone query : Bytes)
    (params : List (Bytes × Bytes)) : SetupRequest where
  cmdType := ctx.cmd.toByte
  maxMem := ctx.maxMemory
  maxThreads := ctx.maxThreads
  maxParsers := ctx.maxParsers
  timezone := timezone
  query := query
  params := params

/-! ### What each reader accepts -/

/-- Words of `w` bytes are written as they were read. -/
theorem leBytes_leNat (s : Bytes) : leBytes s.length (leNat s) = s := by
  induction s with
  | nil => rfl
  | cons b s ih =>
    have hb : b.toNat < 256 := b.toNat_lt
    -- the lowest byte and the others, as the word is written
    have hlow : UInt8.ofNat (b.toNat + 256 * leNat s) = b := by
      apply UInt8.toNat_inj.mp
      rw [UInt8.toNat_ofNat']
      omega
    have hhigh : (b.toNat + 256 * leNat s) / 256 = leNat s := by omega
    rw [List.length_cons, leNat, leBytes, hlow, hhigh, ih]

theorem leNat_lt (s : Bytes) : leNat s < 256 ^ s.length := by
  induction s with
  | nil => exact Nat.one_pos
  | cons b s ih =>
    have hb : b.toNat < 256 := b.toNat_lt
    rw [List.length_cons, leNat, pow_succ]
    omega

/-- A reader of a word takes the bytes of that word. -/
theorem takeExactly_eq_some {n : ℕ} {s a r : Bytes} :
    takeExactly n s = some (a, r) ↔ a.length = n ∧ s = a ++ r := by
  unfold takeExactly
  constructor
  · intro h
    split at h
    · cases h
    · rename_i hlen
      cases h
      exact ⟨by rw [List.length_take]; omega, (List.take_append_drop n s).symm⟩
  · rintro ⟨rfl, rfl⟩
    rw [if_neg (by simp), List.take_left' rfl, List.drop_left' rfl]

theorem take1_eq_some {s r : Bytes} {b : UInt8} : take1 s = some (b, r) ↔ s = b :: r := by
  cases s with
  | nil => simp [take1]
  | cons c s => simp [take1]

theorem take2_eq_takeExactly (s : Bytes) :
    take2 s = (takeExactly 2 s).map fun p => (UInt16.ofNat (leNat p.1), p.2) := by
  unfold take2 takeExactly
  split <;> rfl

theorem take2_eq_some {s r : Bytes} {w : UInt16} :
    take2 s = some (w, r) ↔ s = leBytes 2 w.toNat ++ r := by
  constructor
  · intro h
    rw [take2_eq_takeExactly, Option.map_eq_some_iff] at h
    obtain ⟨⟨a, r'⟩, ha, heq⟩ := h
    obtain ⟨hlen, rfl⟩ := takeExactly_eq_some.mp ha
    cases heq
    have hlt : leNat a < 2 ^ 16 := by
      have h := leNat_lt a
      rw [hlen] at h
      exact h
    have hword : (UInt16.ofNat (leNat a)).toNat = leNat a := by
      rw [UInt16.toNat_ofNat', Nat.mod_eq_of_lt hlt]
    rw [hword, ← hlen, leBytes_leNat]
  · rintro rfl
    rw [take2_append, UInt16.ofNat_toNat]

theorem takeStr_eq_bind (s : Bytes) :
    takeStr s = (takeExactly 4 s).bind fun p => takeExactly (leNat p.1) p.2 := by
  unfold takeStr takeExactly
  split <;> rfl

/-- A string shorter than `2 ^ 32` bytes crosses whole. -/
theorem appendString_of_lt {str : Bytes} (h : str.length < 2 ^ 32) :
    appendString str = leBytes 4 str.length ++ str := by
  rw [appendString, stringBody, Nat.mod_eq_of_lt h, List.take_length]

theorem stringBody_of_lt {str : Bytes} (h : str.length < 2 ^ 32) : stringBody str = str := by
  rw [stringBody, Nat.mod_eq_of_lt h, List.take_length]

theorem takeStr_eq_some {s str r : Bytes} :
    takeStr s = some (str, r) ↔ str.length < 2 ^ 32 ∧ s = appendString str ++ r := by
  constructor
  · intro h
    rw [takeStr_eq_bind, Option.bind_eq_some_iff] at h
    obtain ⟨⟨n, rest⟩, hn, hstr⟩ := h
    obtain ⟨hlen, rfl⟩ := takeExactly_eq_some.mp hn
    obtain ⟨hstrlen, hrest⟩ := takeExactly_eq_some.mp hstr
    have hlt : str.length < 2 ^ 32 := by
      have h := leNat_lt n
      rw [hlen] at h
      rw [hstrlen]
      exact h
    refine ⟨hlt, ?_⟩
    -- the count that was read is the one the string is written with
    have hword : leBytes 4 str.length = n := by
      rw [hstrlen, ← hlen]
      exact leBytes_leNat n
    show n ++ rest = _
    rw [appendString_of_lt hlt, hword, List.append_assoc]
    exact congrArg (n ++ ·) hrest
  · rintro ⟨hlt, rfl⟩
    rw [takeStr_append, stringBody_of_lt hlt]

theorem takeParams_eq_some {n : ℕ} {s r : Bytes} {params : List (Bytes × Bytes)} :
    takeParams n s = some (params, r) ↔ params.length = n ∧
      (∀ p ∈ params, p.1.length < 2 ^ 32 ∧ p.2.length < 2 ^ 32) ∧
        s = appendParams params ++ r := by
  induction n generalizing s params with
  | zero =>
    show some ([], s) = some (params, r) ↔ _
    constructor
    · intro h
      cases h
      exact ⟨rfl, by simp, rfl⟩
    · rintro ⟨hlen, _, rfl⟩
      rw [List.length_eq_zero_iff.mp hlen]
      rfl
  | succ n ih =>
    have hstep : takeParams (n + 1) s = some (params, r) ↔ ∃ name s₁, takeStr s = some (name, s₁) ∧
        ∃ value s₂, takeStr s₁ = some (value, s₂) ∧
          ∃ rest, takeParams n s₂ = some (rest, r) ∧ (name, value) :: rest = params := by
      rw [takeParams]
      simp [bind, StateT.bind, Option.bind_eq_some_iff]
    rw [hstep]
    simp only [takeStr_eq_some, ih]
    constructor
    · rintro ⟨name, s₁, ⟨hname, rfl⟩, value, s₂, ⟨hvalue, rfl⟩, rest, ⟨rfl, hall, rfl⟩, rfl⟩
      refine ⟨rfl, ?_, by simp [appendParams]⟩
      rw [List.forall_mem_cons]
      exact ⟨⟨hname, hvalue⟩, hall⟩
    · rintro ⟨hlen, hall, rfl⟩
      cases params with
      | nil => cases hlen
      | cons p rest =>
        rw [List.forall_mem_cons] at hall
        refine ⟨p.1, _, ⟨hall.1.1, ?_⟩, p.2, _, ⟨hall.1.2, rfl⟩, rest,
          ⟨by simpa using hlen, hall.2, rfl⟩, rfl⟩
        simp [appendParams]

/-- **The parser inverts the encoding.** -/
theorem parseSetup_eq_some {p r : Bytes} {x : SetupRequest} :
    parseSetup p = some (x, r) ↔ x.Fits ∧ p = x.bytes ++ r := by
  -- each reader starts where the one before it stopped
  have hchain : parseSetup p = some (x, r) ↔ ∃ s₁, take1 p = some (x.cmdType, s₁) ∧
      ∃ s₂, take2 s₁ = some (x.maxMem, s₂) ∧ ∃ s₃, take2 s₂ = some (x.maxThreads, s₃) ∧
      ∃ s₄, take2 s₃ = some (x.maxParsers, s₄) ∧ ∃ s₅, takeStr s₄ = some (x.timezone, s₅) ∧
      ∃ s₆, takeStr s₅ = some (x.query, s₆) ∧ ∃ npar s₇, take2 s₆ = some (npar, s₇) ∧
      takeParams npar.toNat s₇ = some (x.params, r) := by
    rw [parseSetup]
    simp only [bind, StateT.bind, Option.bind_eq_some_iff, Cursor.pure_apply, Prod.exists]
    constructor
    · rintro ⟨c, s₁, h₁, m, s₂, h₂, t, s₃, h₃, q, s₄, h₄, z, s₅, h₅, y, s₆, h₆, k, s₇, h₇, ps, s₈,
        h₈, heq⟩
      cases heq
      exact ⟨s₁, h₁, s₂, h₂, s₃, h₃, s₄, h₄, s₅, h₅, s₆, h₆, k, s₇, h₇, h₈⟩
    · rintro ⟨s₁, h₁, s₂, h₂, s₃, h₃, s₄, h₄, s₅, h₅, s₆, h₆, k, s₇, h₇, h₈⟩
      exact ⟨_, s₁, h₁, _, s₂, h₂, _, s₃, h₃, _, s₄, h₄, _, s₅, h₅, _, s₆, h₆, k, s₇, h₇, _, r, h₈,
        rfl⟩
  rw [hchain]
  simp only [take1_eq_some, take2_eq_some, takeStr_eq_some, takeParams_eq_some]
  constructor
  · rintro ⟨s₁, rfl, s₂, rfl, s₃, rfl, s₄, rfl, s₅, ⟨hz, rfl⟩, s₆, ⟨hy, rfl⟩, k, s₇, rfl,
      hk, hall, rfl⟩
    have hcount : x.params.length < 2 ^ 16 := hk ▸ k.toNat_lt
    refine ⟨⟨hz, hy, hall, hcount⟩, ?_⟩
    simp [SetupRequest.bytes, hk]
  · rintro ⟨hfits, rfl⟩
    -- the count fits its field, so the loop reads every parameter
    have hcount : (UInt16.ofNat x.params.length).toNat = x.params.length := by
      rw [UInt16.toNat_ofNat', Nat.mod_eq_of_lt hfits.count]
    have happ : x.bytes ++ r = x.cmdType :: (leBytes 2 x.maxMem.toNat ++
        (leBytes 2 x.maxThreads.toNat ++ (leBytes 2 x.maxParsers.toNat ++
          (appendString x.timezone ++ (appendString x.query ++ (leBytes 2 x.params.length ++
            (appendParams x.params ++ r))))))) := by
      simp [SetupRequest.bytes]
    exact ⟨_, happ, _, rfl, _, rfl, _, rfl, _, ⟨hfits.timezone, rfl⟩, _, ⟨hfits.query, rfl⟩,
      UInt16.ofNat x.params.length, appendParams x.params ++ r, by rw [hcount], hcount.symm,
      hfits.params, rfl⟩

/-! ### The parser over its buffer -/

/-- `take1`, over the buffer. -/
def take1At (mem : Bytes) : Access UInt8 := do
  let b ← needOne >>= fun _ => fetch mem 1
  return b.headD 0

/-- `take2`, over the buffer. -/
def take2At (mem : Bytes) : Access UInt16 := do
  let val ← need 2 >>= fun _ => fetch mem 2
  return UInt16.ofNat (leNat val)

/-- `take_str`, over the buffer. -/
def takeStrAt (mem : Bytes) : Access Bytes := do
  let len ← need 4 >>= fun _ => fetch mem 4
  need (leNat len) >>= fun _ => fetch mem (leNat len)

/-- The loop over the parameters, over the buffer. -/
def takeParamsAt (mem : Bytes) : ℕ → Access (List (Bytes × Bytes))
  | 0 => pure []
  | n + 1 => do
    let name ← takeStrAt mem
    let value ← takeStrAt mem
    let rest ← takeParamsAt mem n
    pure ((name, value) :: rest)

/-- The part of `main` that parses the payload, over the buffer `read_setup` returned. -/
def parseMain (mem : Bytes) : Access SetupRequest := do
  let cmdType ← take1At mem
  let maxMem ← take2At mem
  let maxThreads ← take2At mem
  let maxParsers ← take2At mem
  let timezone ← takeStrAt mem
  let query ← takeStrAt mem
  let npar ← take2At mem
  let params ← takeParamsAt mem npar.toNat
  pure { cmdType, maxMem, maxThreads, maxParsers, timezone, query, params }

section
variable (mem : Bytes)

theorem take1At_follows : Follows mem (take1At mem) take1 := by
  have hread : take1 = (takeExactly 1 >>= fun b => pure (b.headD 0)) := by
    funext s
    cases s with
    | nil => rfl
    | cons b s => simp [take1, takeExactly, bind, StateT.bind]
  rw [hread]
  exact Follows.fetchOne.bind fun b => Follows.pure _

theorem take2At_follows : Follows mem (take2At mem) take2 := by
  have hread : take2 = (takeExactly 2 >>= fun b => pure (UInt16.ofNat (leNat b))) := by
    funext s
    rw [take2_eq_takeExactly]
    show _ = (takeExactly 2 s).bind _
    cases takeExactly 2 s <;> rfl
  rw [hread]
  exact (Follows.fetch 2).bind fun b => Follows.pure _

theorem takeStrAt_follows : Follows mem (takeStrAt mem) takeStr := by
  have hread : takeStr = (takeExactly 4 >>= fun len => takeExactly (leNat len)) := by
    funext s
    exact takeStr_eq_bind s
  rw [hread]
  exact (Follows.fetch 4).bind fun len => Follows.fetch (leNat len)

theorem takeParamsAt_follows (n : ℕ) : Follows mem (takeParamsAt mem n) (takeParams n) := by
  induction n with
  | zero => exact Follows.pure []
  | succ n ih =>
    unfold takeParamsAt takeParams
    apply (takeStrAt_follows mem).bind
    intro name
    apply (takeStrAt_follows mem).bind
    intro value
    apply ih.bind
    intro rest
    exact Follows.pure _

theorem parseMain_follows : Follows mem (parseMain mem) parseSetup := by
  unfold parseMain parseSetup
  apply (take1At_follows mem).bind
  intro cmdType
  apply (take2At_follows mem).bind
  intro maxMem
  apply (take2At_follows mem).bind
  intro maxThreads
  apply (take2At_follows mem).bind
  intro maxParsers
  apply (takeStrAt_follows mem).bind
  intro timezone
  apply (takeStrAt_follows mem).bind
  intro query
  apply (take2At_follows mem).bind
  intro npar
  apply (takeParamsAt_follows mem npar.toNat).bind
  intro params
  exact Follows.pure _

end

/-! ### Exact acceptance -/

/-- **The parser is exact.**  Over the bytes `p` of a payload and whatever `slack` the buffer
    holds behind them, it succeeds with the fields `x` and the cursor in front of `r` exactly
    when `p` is `x` as it is written, then `r`; on every other payload it stops with its own
    truncation failure, and it never reads past the end of `p`.  So it reads a payload
    `build_setup` sends as the request it was made of. -/
theorem parseMain_exact (p slack : Bytes) :
    (∀ x c, parseMain (p ++ slack) ⟨0, p.length⟩ = .ok (x, c) ↔
      x.Fits ∧ c = ⟨x.bytes.length, p.length⟩ ∧ ∃ r, p = x.bytes ++ r) ∧
    ((¬ ∃ x r, SetupRequest.Fits x ∧ p = x.bytes ++ r) →
      parseMain (p ++ slack) ⟨0, p.length⟩ = .error .short) ∧
    parseMain (p ++ slack) ⟨0, p.length⟩ ≠ .error .outside ∧
    ∀ ctx timezone query params, (setupRequest ctx timezone query params).Fits →
      buildSetup ctx timezone query params = .ok p →
        parseMain (p ++ slack) ⟨0, p.length⟩
          = .ok (setupRequest ctx timezone query params, ⟨p.length, p.length⟩) := by
  have hrun := (parseMain_follows (p ++ slack)).run
  have hexact : ∀ x c, parseMain (p ++ slack) ⟨0, p.length⟩ = .ok (x, c) ↔
      x.Fits ∧ c = ⟨x.bytes.length, p.length⟩ ∧ ∃ r, p = x.bytes ++ r := by
    intro x c
    constructor
    · intro h
      rw [hrun] at h
      cases hparse : parseSetup p with
      | none => rw [hparse] at h; cases h
      | some y =>
        obtain ⟨y, r⟩ := y
        rw [hparse] at h
        cases h
        obtain ⟨hfits, hp⟩ := parseSetup_eq_some.mp hparse
        refine ⟨hfits, ?_, r, hp⟩
        rw [hp, List.length_append, Nat.add_sub_cancel]
    · rintro ⟨hfits, rfl, r, hp⟩
      rw [hrun, parseSetup_eq_some.mpr ⟨hfits, hp⟩]
      show Except.ok (x, Span.mk (p.length - r.length) p.length) = _
      rw [hp, List.length_append, Nat.add_sub_cancel]
  refine ⟨hexact, ?_, ?_, ?_⟩
  · intro hno
    rw [hrun]
    cases hparse : parseSetup p with
    | none => rfl
    | some y => exact absurd ⟨y.1, y.2, parseSetup_eq_some.mp hparse⟩ hno
  · rw [hrun]
    cases parseSetup p <;> simp
  · intro ctx timezone query params hfits hsent
    have hp : p = (setupRequest ctx timezone query params).bytes :=
      eq_setupBytes_of_buildSetup hsent
    apply (hexact _ _).mpr
    exact ⟨hfits, by rw [← hp], [], by rw [← hp, List.append_nil]⟩

end PgChdb
