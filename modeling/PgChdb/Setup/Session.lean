import PgChdb.Setup.Payload
import PgChdb.Lib.Text

namespace PgChdb

open CText

/-!
# From the GUCs to the helper's `SET` statement

A limit set with `chdb.max_memory` or `chdb_hook.max_memory` crosses four representations:
an `int` GUC counted in megabytes, the `uint16_t` field of the context both entry points
fill by a cast, two bytes of the setup payload, and the 64-bit product `setup_session`
prints after `max_memory_usage=`.

* `helperContext` — the context `chdb_query`, `chdb_copy` and `chdb_describe` hand to
  `chdb_helper_start`;
* `setupSession` — the text the helper executes first, cut by its 1024-byte buffer;
* `helperSettings` — the two joined through the payload;
* `maxMemoryUsage` — the value a `SET` statement assigns to `max_memory_usage`.
-/

/-! ### The settings and the contexts -/

/-- `INT32_MAX`, the top of the range `CHDB_GUCS` gives `max_memory`. -/
def int32Max : ℕ := 2147483647

/-- `UINT16_MAX`, the top of the range of the two thread budgets. -/
def uint16Max : ℕ := 65535

/-- The values `CHDB_GUCS` admits for the three settings. -/
structure ChdbGucs where
  maxMemory : ℕ
  maxThreads : ℕ
  maxParsers : ℕ
  maxMemory_le : maxMemory ≤ int32Max
  maxThreads_le : maxThreads ≤ uint16Max
  maxParsers_le : maxParsers ≤ uint16Max

/-- The functions that start a helper. -/
inductive HelperEntry where
  | chdbQuery
  | chdbCopy (isFrom : Bool)
  | chdbDescribe
  deriving DecidableEq, Repr

/-- The command each entry point asks for. -/
def HelperEntry.cmd : HelperEntry → ChdbCmdType
  | .chdbQuery => .select
  | .chdbCopy isFrom => if isFrom then .select else .insert
  | .chdbDescribe => .describe

/-- The context handed to `chdb_helper_start`, each setting through its `(uint16_t)`
    cast.  `chdb_query` casts directly; the hook casts into `chdbCopyContext`, from which
    `chdb_copy` and `chdb_describe` copy the fields. -/
def helperContext (entry : HelperEntry) (gucs : ChdbGucs) : ChdbHelperContext where
  cmd := entry.cmd
  maxMemory := UInt16.ofNat gucs.maxMemory
  maxThreads := UInt16.ofNat gucs.maxThreads
  maxParsers := UInt16.ofNat gucs.maxParsers

/-! ### `setup_session` -/

/-- The settings that do not depend on the payload, up to the first that does. -/
def fixedSettings : Bytes :=
  lit "SET allow_experimental_nullable_tuple_type," ++
    lit "output_format_json_quote_denormals," ++
    lit "output_format_native_write_json_as_string," ++
    lit "output_format_native_encode_types_in_binary_format=0," ++
    lit "date_time_output_format='iso'," ++ lit "max_threads="

/-- `(uint64_t)max_mem * 1024 * 1024`. -/
def maxMemoryBytes (maxMem : UInt16) : UInt64 := maxMem.toUInt64 * 1024 * 1024

/-- What stands before the time zone. -/
def settingsHead (maxMem maxThreads maxParsers : UInt16) : Bytes :=
  fixedSettings ++ (decimal maxThreads.toNat ++ (lit ",max_parsing_threads=" ++
    (decimal maxParsers.toNat ++ (lit ",max_memory_usage=" ++
      (decimal (maxMemoryBytes maxMem).toNat ++ lit ",session_timezone='")))))

/-- `setup_session`: the statement `chdb_query` is called with.  `%.*s` stops at a NUL
    byte, and `snprintf` keeps 1023 bytes and the terminator. -/
def setupSession (maxMem maxThreads maxParsers : UInt16) (timezone : Bytes) : Bytes :=
  (settingsHead maxMem maxThreads maxParsers ++
    (timezone.takeWhile (· ≠ 0) ++ lit "'")).take 1023

/-- The statement the helper executes for a payload, if the payload parses. -/
def helperSettings (payload : Bytes) : Option Bytes :=
  (parseSetup payload).map fun r =>
    setupSession r.1.maxMem r.1.maxThreads r.1.maxParsers r.1.timezone

/-- The number a `SET` statement assigns to `max_memory_usage`: the digits after the
    first such assignment. -/
def maxMemoryUsage (stmt : Bytes) : Option ℕ :=
  (strstr (lit ",max_memory_usage=") stmt).map fun p => readDecimal (p.2.takeWhile isDigit)

/-! ### Reading the statement back -/

/-- The part before the time zone takes less than a third of the buffer, whatever the
    settings. -/
theorem settingsHead_length_le (maxMem maxThreads maxParsers : UInt16) :
    (settingsHead maxMem maxThreads maxParsers).length ≤ 303 := by
  have hfix : fixedSettings.length = 215 := by decide +kernel
  have hpar : (lit ",max_parsing_threads=").length = 21 := by decide
  have hmem : (lit ",max_memory_usage=").length = 18 := by decide
  have hzone : (lit ",session_timezone='").length = 19 := by decide
  have h₁ : (decimal maxThreads.toNat).length ≤ 5 :=
    decimal_length_le (by decide) (lt_trans maxThreads.toNat_lt (by decide))
  have h₂ : (decimal maxParsers.toNat).length ≤ 5 :=
    decimal_length_le (by decide) (lt_trans maxParsers.toNat_lt (by decide))
  have h₃ : (decimal (maxMemoryBytes maxMem).toNat).length ≤ 20 :=
    decimal_length_le (by decide) (lt_trans (maxMemoryBytes maxMem).toNat_lt (by decide))
  simp only [settingsHead, List.length_append]
  omega

private theorem takeWhile_isDigit_decimal (n : ℕ) (s : Bytes) (c : UInt8) (hc : isDigit c = false) :
    (decimal n ++ c :: s).takeWhile isDigit = decimal n := by
  rw [List.takeWhile_append_of_pos (fun b hb => isDigit_of_mem_decimal hb), List.takeWhile_cons, hc]
  simp

/-- The statement assigns `max_memory_usage` the product `setup_session` computes. -/
theorem maxMemoryUsage_setupSession (maxMem maxThreads maxParsers : UInt16) (timezone : Bytes) :
    maxMemoryUsage (setupSession maxMem maxThreads maxParsers timezone)
      = some (maxMemoryBytes maxMem).toNat := by
  have hfix : skips (lit ",max_memory_usage=") fixedSettings = true := by decide +kernel
  have hpar : skips (lit ",max_memory_usage=") (lit ",max_parsing_threads=") = true := by decide
  -- no piece before the assignment has a comma that could begin another
  have hdec : ∀ n, skips (lit ",max_memory_usage=") (decimal n) = true :=
    fun n => skips_of_head_not_mem (lit "max_memory_usage=") (not_mem_decimal (by decide) n)
  -- the buffer is cut behind it, in the time zone at the earliest
  have hhead : (settingsHead maxMem maxThreads maxParsers).length ≤ 1023 :=
    (settingsHead_length_le maxMem maxThreads maxParsers).trans (by decide)
  rw [setupSession, List.take_append, List.take_of_length_le hhead]
  simp only [settingsHead, List.append_assoc, maxMemoryUsage, strstr_append_of_skips hfix,
    strstr_append_of_skips hpar, strstr_append_of_skips (hdec _), strstr_append_self,
    Option.map_some, Option.some.injEq]
  have hzone : lit ",session_timezone='" = byte ',' :: lit "session_timezone='" := rfl
  rw [hzone, List.cons_append, takeWhile_isDigit_decimal _ _ _ (by decide), readDecimal_decimal]

/-- The product, with the 16 bits the context keeps of the setting. -/
theorem maxMemoryBytes_ofNat (v : ℕ) :
    (maxMemoryBytes (UInt16.ofNat v)).toNat = v % 65536 * 1024 * 1024 := by
  have hv : v % 65536 < 65536 := Nat.mod_lt _ (by decide)
  simp only [maxMemoryBytes, UInt64.toNat_mul, UInt16.toNat_toUInt64, UInt16.toNat_ofNat']
  have h₁ : (1024 : UInt64).toNat = 1024 := by decide
  rw [h₁]
  omega

/-- The helper's statement is the one `setup_session` builds from the backend's context. -/
theorem helperSettings_of_buildSetup {ctx : ChdbHelperContext} {timezone query payload : Bytes}
    {params : List (Bytes × Bytes)} (h : buildSetup ctx timezone query params = .ok payload) :
    helperSettings payload = some (setupSession ctx.maxMemory ctx.maxThreads ctx.maxParsers
      (stringBody timezone)) := by
  rw [helperSettings, eq_setupBytes_of_buildSetup h, parseSetup_setupBytes]
  rfl

/-! ### The memory limit -/

/-- **The memory limit reaches chDB unchanged exactly when it fits 16 bits.**  From 65536 MB
    on the cast into the context drops the high bits: the helper sets the remainder, and no
    limit at all for a multiple of 64 GB. -/
theorem helperSettings_maxMemory_iff (entry : HelperEntry) (gucs : ChdbGucs)
    (timezone query payload : Bytes) (params : List (Bytes × Bytes))
    (h : buildSetup (helperContext entry gucs) timezone query params = .ok payload) :
    (helperSettings payload).bind maxMemoryUsage = some (gucs.maxMemory * 1024 * 1024)
      ↔ gucs.maxMemory < 65536 := by
  rw [helperSettings_of_buildSetup h, Option.bind_some, maxMemoryUsage_setupSession,
    helperContext, maxMemoryBytes_ofNat, Option.some.injEq]
  have hmod : gucs.maxMemory % 65536 < 65536 := Nat.mod_lt _ (by decide)
  constructor
  · intro heq; omega
  · intro hlt; rw [Nat.mod_eq_of_lt hlt]

/-- The default settings with a memory limit of `v` megabytes. -/
def gucsWithMemory (v : ℕ) (h : v ≤ int32Max) : ChdbGucs where
  maxMemory := v
  maxThreads := 0
  maxParsers := 0
  maxMemory_le := h
  maxThreads_le := Nat.zero_le _
  maxParsers_le := Nat.zero_le _

/-- A limit of 64 GB, which the GUC admits, is sent as no limit. -/
theorem helperSettings_maxMemory_wraps :
    ∃ payload, buildSetup (helperContext .chdbQuery (gucsWithMemory 65536 (by decide)))
        (lit "UTC") (lit "SELECT 1") [] = .ok payload ∧
      (helperSettings payload).bind maxMemoryUsage = some 0 ∧ 0 ≠ 65536 * 1024 * 1024 := by
  have hsent : buildSetup (helperContext .chdbQuery (gucsWithMemory 65536 (by decide)))
      (lit "UTC") (lit "SELECT 1") [] = .ok (setupBytes (helperContext .chdbQuery
        (gucsWithMemory 65536 (by decide))) (lit "UTC") (lit "SELECT 1") []) := rfl
  refine ⟨_, hsent, ?_, by decide⟩
  rw [helperSettings_of_buildSetup hsent, Option.bind_some, maxMemoryUsage_setupSession]
  decide

/-- The default limit of 4096 MB arrives. -/
theorem helperSettings_maxMemory_default :
    (helperSettings (setupBytes (helperContext (.chdbCopy true) (gucsWithMemory 4096 (by decide)))
      (lit "UTC") (lit "SELECT 1") [])).bind maxMemoryUsage = some (4096 * 1024 * 1024) :=
  (helperSettings_maxMemory_iff (.chdbCopy true) (gucsWithMemory 4096 (by decide)) (lit "UTC")
    (lit "SELECT 1") _ [] rfl).mpr (by decide)

end PgChdb
