import PgChdb.Ereport

namespace PgChdb

open CText

/-!
# The setup payload

`src/setup.h` describes the payload the backend writes to the helper's descriptor 3.
`build_setup` in `src/helper.c` writes it and `main` in `src/helper/chdb_helper.c` reads
it, each in its own program:

* `buildSetup` — command byte, three settings, time zone, query, parameter count, names
  and values; refused when longer than `CHDB_SETUP_MAX`;
* `take1`, `take2`, `takeStr`, `takeParams`, `parseSetup` — the helper's cursor, failing
  on a payload that ends early.

Fields are native endian on both sides of one machine; the words here are little endian.
Each reader gives back what its writer put, whatever follows (`take2_append`,
`takeStr_append`, `takeParams_append`).
-/

/-! ### What the backend sends -/

/-- `chdbCmdType`: the type of query the helper is asked to execute. -/
inductive ChdbCmdType where
  | select
  | insert
  | describe
  deriving DecidableEq, Repr

/-- The byte a command type crosses as. -/
def ChdbCmdType.toByte : ChdbCmdType → UInt8
  | .select => byte 'S'
  | .insert => byte 'I'
  | .describe => byte 'D'

/-- `chdbHelperContext`: the command and the settings, zero leaving a setting to chDB. -/
structure ChdbHelperContext where
  cmd : ChdbCmdType
  maxMemory : UInt16
  maxThreads : UInt16
  maxParsers : UInt16
  deriving DecidableEq, Repr

/-- `CHDB_SETUP_MAX`: payloads longer than this are refused. -/
def chdbSetupMax : ℕ := 16 * 1024 * 1024

/-- What crosses of a string: its length goes through a `(uint32_t)` cast. -/
def stringBody (str : Bytes) : Bytes := str.take (str.length % 2 ^ 32)

/-- `append_string`: a 32-bit byte count, then that many bytes. -/
def appendString (str : Bytes) : Bytes :=
  leBytes 4 (str.length % 2 ^ 32) ++ stringBody str

/-- The parameters, name and value in turn. -/
def appendParams (params : List (Bytes × Bytes)) : Bytes :=
  params.flatMap fun p => appendString p.1 ++ appendString p.2

/-- The payload before its length is checked. -/
def setupBytes (ctx : ChdbHelperContext) (timezone query : Bytes)
    (params : List (Bytes × Bytes)) : Bytes :=
  ctx.cmd.toByte :: (leBytes 2 ctx.maxMemory.toNat ++ (leBytes 2 ctx.maxThreads.toNat ++
    (leBytes 2 ctx.maxParsers.toNat ++ (appendString timezone ++ (appendString query ++
      (leBytes 2 params.length ++ appendParams params))))))

/-- `build_setup`: the payload, or the error for one that is too large. -/
def buildSetup (ctx : ChdbHelperContext) (timezone query : Bytes)
    (params : List (Bytes × Bytes)) : Raises Bytes :=
  let buf := setupBytes ctx timezone query params
  if buf.length > chdbSetupMax then
    .error { errcode := .programLimitExceeded
             errmsg := lit "chdb: query is too large to send to chDB" }
  else .ok buf

/-- What is sent is the payload, whole. -/
theorem eq_setupBytes_of_buildSetup {ctx : ChdbHelperContext} {timezone query payload : Bytes}
    {params : List (Bytes × Bytes)} (h : buildSetup ctx timezone query params = .ok payload) :
    payload = setupBytes ctx timezone query params := by
  unfold buildSetup at h
  dsimp only at h
  split at h
  · cases h
  · cases h
    rfl

/-! ### What the helper reads -/

/-- The helper's cursor: the bytes still unread.  `none` is its truncation failure. -/
abbrev Cursor := StateT Bytes Option

/-- A reader that takes nothing. -/
@[simp] theorem Cursor.pure_apply {α : Type} (a : α) (cur : Bytes) :
    (pure a : Cursor α) cur = some (a, cur) := rfl

/-- `take1`. -/
def take1 : Cursor UInt8
  | [] => none
  | b :: rest => some (b, rest)

/-- `take2`. -/
def take2 : Cursor UInt16 := fun cur =>
  if cur.length < 2 then none else some (UInt16.ofNat (leNat (cur.take 2)), cur.drop 2)

/-- `take_str`. -/
def takeStr : Cursor Bytes := fun cur =>
  if cur.length < 4 then none
  else
    let len := leNat (cur.take 4)
    let rest := cur.drop 4
    if rest.length < len then none else some (rest.take len, rest.drop len)

/-- The loop over the announced number of parameters. -/
def takeParams : ℕ → Cursor (List (Bytes × Bytes))
  | 0 => pure []
  | n + 1 => do
    let name ← takeStr
    let value ← takeStr
    let rest ← takeParams n
    pure ((name, value) :: rest)

/-- The fields `main` takes out of the payload. -/
structure SetupRequest where
  cmdType : UInt8
  maxMem : UInt16
  maxThreads : UInt16
  maxParsers : UInt16
  timezone : Bytes
  query : Bytes
  params : List (Bytes × Bytes)
  deriving DecidableEq, Repr

/-- The part of `main` that parses the payload. -/
def parseSetup : Cursor SetupRequest := do
  let cmdType ← take1
  let maxMem ← take2
  let maxThreads ← take2
  let maxParsers ← take2
  let timezone ← takeStr
  let query ← takeStr
  let npar ← take2
  let params ← takeParams npar.toNat
  pure { cmdType, maxMem, maxThreads, maxParsers, timezone, query, params }

/-! ### Each reader gives back what its writer put -/

@[simp] theorem take1_cons (b : UInt8) (rest : Bytes) : take1 (b :: rest) = some (b, rest) := rfl

theorem take2_append (n : ℕ) (rest : Bytes) :
    take2 (leBytes 2 n ++ rest) = some (UInt16.ofNat n, rest) := by
  have hval : UInt16.ofNat (leNat (leBytes 2 n)) = UInt16.ofNat n := by
    -- two bytes hold the count modulo `2 ^ 16`
    have h : leBytes 2 n = leBytes 2 (n % 256 ^ 2) := by
      simp only [leBytes]
      congr 1
      · apply UInt8.toNat_inj.mp; simp only [UInt8.toNat_ofNat']; omega
      · congr 1
        apply UInt8.toNat_inj.mp; simp only [UInt8.toNat_ofNat']; omega
    rw [h, leNat_leBytes (Nat.mod_lt _ (by decide))]
    apply UInt16.toNat_inj.mp
    simp only [UInt16.toNat_ofNat']; omega
  have hlen : (leBytes 2 n).length = 2 := leBytes_length 2 n
  have hlong : ¬ (leBytes 2 n ++ rest).length < 2 := by
    rw [List.length_append, hlen]
    omega
  unfold take2
  rw [if_neg hlong, List.take_left' hlen, List.drop_left' hlen, hval]

@[simp] theorem stringBody_length (str : Bytes) :
    (stringBody str).length = str.length % 2 ^ 32 := by
  rw [stringBody, List.length_take]
  exact Nat.min_eq_left (Nat.mod_le _ _)

theorem takeStr_append (str rest : Bytes) :
    takeStr (appendString str ++ rest) = some (stringBody str, rest) := by
  have hlen : leNat (leBytes 4 (str.length % 2 ^ 32)) = str.length % 2 ^ 32 :=
    leNat_leBytes (Nat.mod_lt _ (by decide))
  have hbody := stringBody_length str
  rw [appendString]
  generalize str.length % 2 ^ 32 = n at hlen hbody ⊢
  rw [List.append_assoc, takeStr, List.take_left' (leBytes_length 4 n),
    List.drop_left' (leBytes_length 4 n), hlen, ← hbody]
  simp

/-- Reading the first `n` of the parameters written leaves the others unread. -/
theorem takeParams_append (params : List (Bytes × Bytes)) (n : ℕ) (hn : n ≤ params.length)
    (rest : Bytes) :
    takeParams n (appendParams params ++ rest)
      = some ((params.take n).map (fun p => (stringBody p.1, stringBody p.2)),
          appendParams (params.drop n) ++ rest) := by
  induction n generalizing params with
  | zero => simp [takeParams]
  | succ n ih =>
    cases params with
    | nil => simp at hn
    | cons p ps =>
      -- one parameter in front: its name, its value, the others
      have hsplit : appendParams (p :: ps) ++ rest
          = appendString p.1 ++ (appendString p.2 ++ (appendParams ps ++ rest)) := by
        simp [appendParams]
      have hn' : n ≤ ps.length := by simpa using hn
      rw [hsplit, takeParams]
      simp only [bind, StateT.bind, takeStr_append, Option.bind_some, ih ps hn',
        Cursor.pure_apply]
      simp

/-- **The helper reads what the backend wrote.**  The fields come out as they went in;
    of the parameters, the number that survives the 16-bit count. -/
theorem parseSetup_setupBytes (ctx : ChdbHelperContext) (timezone query : Bytes)
    (params : List (Bytes × Bytes)) :
    parseSetup (setupBytes ctx timezone query params)
      = some ({ cmdType := ctx.cmd.toByte
                maxMem := ctx.maxMemory
                maxThreads := ctx.maxThreads
                maxParsers := ctx.maxParsers
                timezone := stringBody timezone
                query := stringBody query
                params := (params.take (params.length % 2 ^ 16)).map
                  fun p => (stringBody p.1, stringBody p.2) },
          appendParams (params.drop (params.length % 2 ^ 16))) := by
  have hn : params.length % 2 ^ 16 ≤ params.length := Nat.mod_le _ _
  have hpar := takeParams_append params (params.length % 2 ^ 16) hn []
  simp only [List.append_nil] at hpar
  rw [parseSetup, setupBytes]
  simp only [bind, StateT.bind, take1_cons, take2_append, takeStr_append, Option.bind_some,
    UInt16.ofNat_toNat, UInt16.toNat_ofNat', hpar, Cursor.pure_apply]

end PgChdb
