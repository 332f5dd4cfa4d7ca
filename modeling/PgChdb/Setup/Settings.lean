import PgChdb.Setup.Session
import PgChdb.Lib.Literal

namespace PgChdb

open CText

/-!
# The `SET` statement, read back

`setup_session` prints the time zone between single quotes as it stands, after the limits
only a superuser may set.  Read with ClickHouse's rules for literals, a zone with a quote or
a backslash in it may end the literal early, and what follows it is read as settings.

* `SettingValue`, `readSet` — a `SET` statement as the assignments it makes;
* `writeSetting`, `readSettings_write` — assignments as they are printed, and read back;
* `sessionSettings` — what `setup_session` means to assign;
* `setupSession_exact_iff` — the statement assigns that exactly when the zone has no quote
  and its backslashes are kept.
-/

variable {esc : UInt8 → Bytes}

/-! ### Reading a `SET` statement -/

/-- What a setting is given: nothing, a number, or a string. -/
inductive SettingValue where
  | flag
  | number (n : ℕ)
  | string (s : Bytes)
  deriving DecidableEq, Repr

/-- What follows the name of a setting, and the rest of the statement. -/
def readSettingValue (esc : UInt8 → Bytes) : Bytes → Option (SettingValue × Bytes)
  | [] => some (.flag, [])
  | c :: s =>
    if c = byte '=' then
      match s with
      | [] => none
      | d :: s =>
        if d = apostrophe then (readLiteral esc s).map fun p => (.string p.1, p.2)
        else if isDigit d then
          some (.number (readDecimal ((d :: s).takeWhile isDigit)), (d :: s).dropWhile isDigit)
        else none
    else some (.flag, c :: s)

/-- One assignment, and the rest of the statement. -/
def readSetting (esc : UInt8 → Bytes) (s : Bytes) : Option ((Bytes × SettingValue) × Bytes) :=
  if s.takeWhile isWordByte = [] then none
  else (readSettingValue esc (s.dropWhile isWordByte)).map fun p =>
    ((s.takeWhile isWordByte, p.1), p.2)

/-- Assignments joined by commas, up to the end of the statement. -/
def readSettings (esc : UInt8 → Bytes) : ℕ → Bytes → Option (List (Bytes × SettingValue))
  | 0, _ => none
  | fuel + 1, s =>
    (readSetting esc s).bind fun p =>
      match p.2 with
      | [] => some [p.1]
      | c :: r => if c = byte ',' then (readSettings esc fuel r).map (p.1 :: ·) else none

/-- The assignments of a `SET` statement, if the text is one such statement. -/
def readSet (esc : UInt8 → Bytes) (stmt : Bytes) : Option (List (Bytes × SettingValue)) :=
  if (lit "SET ").isPrefixOf stmt then readSettings esc stmt.length (stmt.drop 4) else none

/-! ### Assignments as they are printed -/

/-- An assignment as it is printed, a string as it stands. -/
def writeSetting : Bytes × SettingValue → Bytes
  | (name, .flag) => name
  | (name, .number n) => name ++ byte '=' :: decimal n
  | (name, .string s) => name ++ byte '=' :: apostrophe :: (s ++ [apostrophe])

/-- An assignment that can be printed as it stands. -/
structure Printable (esc : UInt8 → Bytes) (x : Bytes × SettingValue) : Prop where
  name_ne : x.1 ≠ []
  name_word : x.1.all isWordByte = true
  value : ∀ s, x.2 = .string s → apostrophe ∉ s ∧ Kept esc s

private theorem takeWhile_word {name : Bytes} (h : name.all isWordByte = true) {c : UInt8}
    (hc : isWordByte c = false) (s : Bytes) :
    (name ++ c :: s).takeWhile isWordByte = name ∧
      (name ++ c :: s).dropWhile isWordByte = c :: s := by
  rw [List.all_eq_true] at h
  rw [List.takeWhile_append_of_pos h, List.dropWhile_append_of_pos h]
  simp [hc]

/-- A printed assignment in front of a comma is read as it is. -/
theorem readSetting_write {x : Bytes × SettingValue} (hx : Printable esc x) (r : Bytes) :
    readSetting esc (writeSetting x ++ byte ',' :: r) = some (x, byte ',' :: r) := by
  obtain ⟨name, v⟩ := x
  have hname : name ≠ [] := hx.name_ne
  cases v with
  | flag =>
    obtain ⟨htake, hdrop⟩ := takeWhile_word hx.name_word (c := byte ',') (by decide) r
    show readSetting esc (name ++ byte ',' :: r) = _
    rw [readSetting, htake, hdrop, if_neg hname]
    rfl
  | number n =>
    obtain ⟨htake, hdrop⟩ := takeWhile_word hx.name_word (c := byte '=') (by decide)
      (decimal n ++ byte ',' :: r)
    have hdigit : ∀ b ∈ decimal n, isDigit b = true := fun b hb => isDigit_of_mem_decimal hb
    have hnum : (decimal n ++ byte ',' :: r).takeWhile isDigit = decimal n := by
      rw [List.takeWhile_append_of_pos hdigit]
      simp [show isDigit (byte ',') = false by decide]
    have hrest : (decimal n ++ byte ',' :: r).dropWhile isDigit = byte ',' :: r := by
      rw [List.dropWhile_append_of_pos hdigit]
      simp [show isDigit (byte ',') = false by decide]
    show readSetting esc ((name ++ byte '=' :: decimal n) ++ byte ',' :: r) = _
    rw [List.append_assoc, List.cons_append, readSetting, htake, hdrop, if_neg hname]
    cases hd : decimal n with
    | nil => exact absurd hd (decimal_ne_nil n)
    | cons d ds =>
      have hfirst : isDigit d = true := hdigit d (hd ▸ List.mem_cons_self)
      have hquote : d ≠ apostrophe := by
        rintro rfl
        exact absurd hfirst (by decide)
      rw [hd] at hnum hrest
      rw [List.cons_append] at hnum hrest ⊢
      rw [readSettingValue, if_pos rfl, if_neg hquote, if_pos hfirst, hnum, hrest, ← hd,
        readDecimal_decimal]
      rfl
  | string s =>
    obtain ⟨htake, hdrop⟩ := takeWhile_word hx.name_word (c := byte '=') (by decide)
      (apostrophe :: (s ++ apostrophe :: byte ',' :: r))
    obtain ⟨hq, hk⟩ := hx.value s rfl
    have hbody := readLiteral_kept hq hk (r := byte ',' :: r)
      (show some (byte ',') ≠ some apostrophe by decide)
    have hsplit : writeSetting (name, .string s) ++ byte ',' :: r
        = name ++ byte '=' :: apostrophe :: (s ++ apostrophe :: byte ',' :: r) := by
      simp [writeSetting]
    rw [hsplit, readSetting, htake, hdrop, if_neg hname, readSettingValue, if_pos rfl, if_pos rfl,
      hbody]
    rfl

/-- Assignments as they are printed, joined by commas, in front of more. -/
def writeSettings (xs : List (Bytes × SettingValue)) (rest : Bytes) : Bytes :=
  xs.foldr (fun x s => writeSetting x ++ byte ',' :: s) rest

@[simp] theorem writeSettings_nil (rest : Bytes) : writeSettings [] rest = rest := rfl

@[simp] theorem writeSettings_cons (x : Bytes × SettingValue) (xs : List (Bytes × SettingValue))
    (rest : Bytes) :
    writeSettings (x :: xs) rest = writeSetting x ++ byte ',' :: writeSettings xs rest := rfl

/-- **Printed assignments are read back**, and the reading goes on behind them. -/
theorem readSettings_write {xs : List (Bytes × SettingValue)} (hxs : ∀ x ∈ xs, Printable esc x)
    (fuel : ℕ) (rest : Bytes) :
    readSettings esc (xs.length + fuel) (writeSettings xs rest)
      = (readSettings esc fuel rest).map (xs ++ ·) := by
  induction xs with
  | nil => simp [writeSettings]
  | cons x xs ih =>
    rw [List.forall_mem_cons] at hxs
    have hfuel : (x :: xs).length + fuel = (xs.length + fuel) + 1 := by
      rw [List.length_cons]
      omega
    have hhead : writeSettings (x :: xs) rest
        = writeSetting x ++ byte ',' :: writeSettings xs rest := rfl
    rw [hfuel, readSettings, hhead, readSetting_write hxs.1, Option.bind_some]
    dsimp only
    rw [if_pos rfl, ih hxs.2, Option.map_map]
    rfl

/-- A statement of printed assignments makes them, then those behind them. -/
theorem readSet_write {xs : List (Bytes × SettingValue)} (hxs : ∀ x ∈ xs, Printable esc x)
    (rest : Bytes) : ∃ fuel, readSet esc (lit "SET " ++ writeSettings xs rest)
      = (readSettings esc (fuel + 1) rest).map (xs ++ ·) := by
  have hset : (lit "SET ").length = 4 := rfl
  have hlen : xs.length ≤ (writeSettings xs rest).length := by
    clear hxs
    induction xs with
    | nil => exact Nat.zero_le _
    | cons x xs ih =>
      rw [writeSettings_cons, List.length_append, List.length_cons, List.length_cons]
      omega
  have hlong : xs.length + 1 ≤ (lit "SET " ++ writeSettings xs rest).length := by
    rw [List.length_append, hset]
    omega
  obtain ⟨fuel, hfuel⟩ := Nat.exists_eq_add_of_le hlong
  refine ⟨fuel, ?_⟩
  have hsplit : xs.length + 1 + fuel = xs.length + (fuel + 1) := by omega
  rw [readSet, hfuel, if_pos (by simp), List.drop_left' hset, hsplit, readSettings_write hxs]

/-- A reading makes at least one assignment. -/
theorem readSettings_ne_nil (fuel : ℕ) (s : Bytes) : readSettings esc fuel s ≠ some [] := by
  cases fuel with
  | zero => simp [readSettings]
  | succ fuel =>
    intro h
    rw [readSettings] at h
    obtain ⟨p, _, hp⟩ := Option.bind_eq_some_iff.mp h
    split at hp
    · cases hp
    · split at hp
      · obtain ⟨xs, _, hxs⟩ := Option.map_eq_some_iff.mp hp
        cases hxs
      · cases hp

/-- **A string at the end of the statement is read as itself exactly when it can stand as it
    is.** -/
theorem readSettings_last (h : LiteralEscapes esc) {name : Bytes} (hne : name ≠ [])
    (hword : name.all isWordByte = true) (fuel : ℕ) (s : Bytes) :
    readSettings esc (fuel + 1) (writeSetting (name, .string s)) = some [(name, .string s)] ↔
      apostrophe ∉ s ∧ Kept esc s := by
  obtain ⟨htake, hdrop⟩ := takeWhile_word hword (c := byte '=') (by decide)
    (apostrophe :: (s ++ [apostrophe]))
  have hread : readSetting esc (writeSetting (name, .string s))
      = (readLiteral esc (s ++ [apostrophe])).map fun p => ((name, .string p.1), p.2) := by
    rw [writeSetting, readSetting, htake, hdrop, if_neg hne, readSettingValue, if_pos rfl,
      if_pos rfl, Option.map_map]
    rfl
  rw [← readLiteral_self_iff h, readSettings, hread]
  constructor
  · intro hlast
    obtain ⟨p, hp, hrest⟩ := Option.bind_eq_some_iff.mp hlast
    obtain ⟨⟨body, r⟩, hbody, rfl⟩ := Option.map_eq_some_iff.mp hp
    cases r with
    | nil =>
      -- the literal was the last of the statement
      have hsame : body = s := by simpa using hrest
      rw [hbody, hsame]
    | cons c r =>
      -- what follows the literal would be a further assignment
      dsimp only at hrest
      split at hrest
      · obtain ⟨xs, hxs, heq⟩ := Option.map_eq_some_iff.mp hrest
        cases heq
        exact absurd hxs (readSettings_ne_nil fuel r)
      · cases hrest
  · intro hbody
    rw [hbody]
    rfl

/-! ### The session's settings -/

/-- The settings in front of the time zone. -/
def limitSettings (maxMem maxThreads maxParsers : UInt16) : List (Bytes × SettingValue) :=
  [(lit "allow_experimental_nullable_tuple_type", .flag),
    (lit "output_format_json_quote_denormals", .flag),
    (lit "output_format_native_write_json_as_string", .flag),
    (lit "output_format_native_encode_types_in_binary_format", .number 0),
    (lit "date_time_output_format", .string (lit "iso")),
    (lit "max_threads", .number maxThreads.toNat),
    (lit "max_parsing_threads", .number maxParsers.toNat),
    (lit "max_memory_usage", .number (maxMem.toNat * 1024 * 1024))]

/-- What `setup_session` means to assign. -/
def sessionSettings (maxMem maxThreads maxParsers : UInt16) (timezone : Bytes) :
    List (Bytes × SettingValue) :=
  limitSettings maxMem maxThreads maxParsers ++ [(lit "session_timezone", .string timezone)]

/-- The settings that do not depend on the payload. -/
def formatSettings : List (Bytes × SettingValue) := (limitSettings 0 0 0).take 5

theorem limitSettings_eq (maxMem maxThreads maxParsers : UInt16) :
    limitSettings maxMem maxThreads maxParsers = formatSettings ++
      [(lit "max_threads", .number maxThreads.toNat),
        (lit "max_parsing_threads", .number maxParsers.toNat),
        (lit "max_memory_usage", .number (maxMem.toNat * 1024 * 1024))] := rfl

theorem writeSettings_append (xs : List (Bytes × SettingValue)) (rest s : Bytes) :
    writeSettings xs rest ++ s = writeSettings xs (rest ++ s) := by
  induction xs with
  | nil => rfl
  | cons x xs ih =>
    rw [writeSettings_cons, writeSettings_cons, ← ih, List.append_assoc, List.cons_append]

theorem fixedSettings_eq : fixedSettings
    = lit "SET " ++ writeSettings formatSettings (lit "max_threads=") := by
  decide +kernel

/-- The number of megabytes fits the product that is printed. -/
theorem maxMemoryBytes_toNat (maxMem : UInt16) :
    (maxMemoryBytes maxMem).toNat = maxMem.toNat * 1024 * 1024 := by
  have h := maxMemoryBytes_ofNat maxMem.toNat
  have hlt : maxMem.toNat < 65536 := maxMem.toNat_lt
  rwa [UInt16.ofNat_toNat, Nat.mod_eq_of_lt hlt] at h

/-- The statement is the printed assignments. -/
theorem settingsHead_eq (maxMem maxThreads maxParsers : UInt16) (timezone : Bytes) :
    settingsHead maxMem maxThreads maxParsers ++ (timezone ++ lit "'")
      = lit "SET " ++ writeSettings (limitSettings maxMem maxThreads maxParsers)
          (writeSetting (lit "session_timezone", .string timezone)) := by
  have hparsers : lit ",max_parsing_threads="
      = byte ',' :: (lit "max_parsing_threads" ++ [byte '=']) := by decide
  have hmemory : lit ",max_memory_usage=" = byte ',' :: (lit "max_memory_usage" ++ [byte '=']) := by
    decide
  have hzone : lit ",session_timezone='"
      = byte ',' :: (lit "session_timezone" ++ [byte '=', apostrophe]) := by
    decide
  have hthreads : lit "max_threads=" = lit "max_threads" ++ [byte '='] := by decide
  have hend : lit "'" = [apostrophe] := by decide
  have hjoin : ∀ rest, writeSettings (limitSettings maxMem maxThreads maxParsers) rest
      = writeSettings formatSettings (writeSettings
          [(lit "max_threads", .number maxThreads.toNat),
            (lit "max_parsing_threads", .number maxParsers.toNat),
            (lit "max_memory_usage", .number (maxMem.toNat * 1024 * 1024))] rest) := by
    intro rest
    rw [limitSettings_eq, writeSettings, writeSettings, writeSettings, List.foldr_append]
  rw [settingsHead, fixedSettings_eq, hjoin, maxMemoryBytes_toNat]
  simp only [List.append_assoc, writeSettings_append, writeSettings_cons, writeSettings_nil,
    writeSetting, hparsers, hmemory, hzone, hthreads, hend, List.cons_append, List.nil_append]

/-- The names are words. -/
theorem limitSettings_words : ((limitSettings 0 0 0).map Prod.fst).all
    (fun name => !name.isEmpty && name.all isWordByte) = true := by
  decide +kernel

theorem limitSettings_printable (maxMem maxThreads maxParsers : UInt16) :
    ∀ x ∈ limitSettings maxMem maxThreads maxParsers, Printable esc x := by
  intro x hx
  -- the names do not depend on the values
  have hnames : (limitSettings maxMem maxThreads maxParsers).map Prod.fst
      = (limitSettings 0 0 0).map Prod.fst := by
    simp only [limitSettings, List.map_cons, List.map_nil]
  have hname : x.1 ∈ (limitSettings 0 0 0).map Prod.fst := hnames ▸ List.mem_map_of_mem hx
  have hword : x.1 ≠ [] ∧ x.1.all isWordByte = true := by
    have h := List.all_eq_true.mp limitSettings_words x.1 hname
    rw [Bool.and_eq_true] at h
    exact ⟨by simpa using h.1, h.2⟩
  refine ⟨hword.1, hword.2, ?_⟩
  intro s hs
  -- one of the eight is a string
  simp only [limitSettings, List.mem_cons, List.not_mem_nil, or_false] at hx
  rcases hx with rfl | rfl | rfl | rfl | rfl | rfl | rfl | rfl <;> cases hs
  exact ⟨by decide, Kept.of_not_mem (by decide)⟩

/-- The statement is whole and assigns what it means to. -/
structure SettingsExact (esc : UInt8 → Bytes) (maxMem maxThreads maxParsers : UInt16)
    (timezone : Bytes) : Prop where
  whole : setupSession maxMem maxThreads maxParsers timezone
    = settingsHead maxMem maxThreads maxParsers ++ (timezone ++ lit "'")
  assigns : readSet esc (setupSession maxMem maxThreads maxParsers timezone)
    = some (sessionSettings maxMem maxThreads maxParsers timezone)

/-- A zone of at most 255 bytes is not cut. -/
theorem setupSession_whole (maxMem maxThreads maxParsers : UInt16) {timezone : Bytes}
    (hnul : 0 ∉ timezone) (hlen : timezone.length ≤ 255) :
    setupSession maxMem maxThreads maxParsers timezone
      = settingsHead maxMem maxThreads maxParsers ++ (timezone ++ lit "'") := by
  have hzone : timezone.takeWhile (· ≠ 0) = timezone := by
    rw [List.takeWhile_eq_self_iff]
    intro b hb
    have hb0 : b ≠ 0 := fun h => hnul (h ▸ hb)
    simpa using hb0
  have hhead := settingsHead_length_le maxMem maxThreads maxParsers
  have hquote : (lit "'").length = 1 := rfl
  rw [setupSession, hzone]
  apply List.take_of_length_le
  simp only [List.length_append, hquote]
  omega

/-- **The time zone leaves the other settings alone exactly when it can stand between the
    quotes as it is.**  For every value of the limits and every zone of at most 255 bytes, the
    statement assigns the zone and the limits as they were given if and only if the zone has
    no single quote and each of its backslashes stands before a character that keeps it. -/
theorem setupSession_exact_iff (h : LiteralEscapes esc) (maxMem maxThreads maxParsers : UInt16)
    {timezone : Bytes} (hnul : 0 ∉ timezone) (hlen : timezone.length ≤ 255) :
    SettingsExact esc maxMem maxThreads maxParsers timezone ↔
      apostrophe ∉ timezone ∧ Kept esc timezone := by
  have hwhole := setupSession_whole maxMem maxThreads maxParsers hnul hlen
  have hname : lit "session_timezone" ≠ [] ∧ (lit "session_timezone").all isWordByte = true := by
    decide
  obtain ⟨fuel, hread⟩ := readSet_write
    (fun x hx => limitSettings_printable maxMem maxThreads maxParsers x hx)
    (writeSetting (lit "session_timezone", .string timezone))
  rw [← settingsHead_eq, ← hwhole] at hread
  rw [← readSettings_last h hname.1 hname.2 fuel]
  constructor
  · intro hexact
    have hassigns := hexact.assigns
    rw [hread] at hassigns
    obtain ⟨xs, hxs, heq⟩ := Option.map_eq_some_iff.mp hassigns
    -- the limits are in front either way, so what is left is the zone
    rw [hxs, List.append_cancel_left heq]
  · intro hlast
    refine ⟨hwhole, ?_⟩
    rw [hread, hlast]
    rfl

/-- A zone that ends the literal and goes on with a limit of its own. -/
def limitZone : Bytes := lit "UTC',max_memory_usage=0,session_timezone='UTC"

/-- What is printed between quotes is that literal and one more assignment. -/
theorem writeSetting_limitZone :
    writeSetting (lit "session_timezone", .string limitZone)
      = writeSettings [(lit "session_timezone", .string (lit "UTC")),
            (lit "max_memory_usage", .number 0)]
          (writeSetting (lit "session_timezone", .string (lit "UTC"))) := by
  decide +kernel

/-- The statement of that zone sets the memory limit a second time. -/
theorem setupSession_injects :
    readSet plainLiteralEscapes (setupSession 4096 0 0 limitZone)
        = some (sessionSettings 4096 0 0 (lit "UTC") ++
            [(lit "max_memory_usage", .number 0), (lit "session_timezone", .string (lit "UTC"))]) ∧
      ¬ SettingsExact plainLiteralEscapes 4096 0 0 limitZone := by
  have hnul : 0 ∉ limitZone := by decide +kernel
  have hlen : limitZone.length ≤ 255 := by decide +kernel
  have hword : lit "session_timezone" ≠ [] ∧ (lit "session_timezone").all isWordByte = true := by
    decide +kernel
  constructor
  · have hutc : apostrophe ∉ lit "UTC" ∧ Kept plainLiteralEscapes (lit "UTC") :=
      ⟨by decide, Kept.of_not_mem (by decide)⟩
    have hprint : ∀ x ∈ limitSettings 4096 0 0 ++ [(lit "session_timezone", .string (lit "UTC")),
        (lit "max_memory_usage", .number 0)], Printable plainLiteralEscapes x := by
      intro x hx
      rcases List.mem_append.mp hx with hlimit | hmore
      · exact limitSettings_printable 4096 0 0 x hlimit
      · simp only [List.mem_cons, List.not_mem_nil, or_false] at hmore
        rcases hmore with rfl | rfl
        · refine ⟨hword.1, hword.2, ?_⟩
          intro s hs
          cases hs
          exact hutc
        · refine ⟨by decide +kernel, by decide +kernel, ?_⟩
          intro s hs
          cases hs
    obtain ⟨fuel, hread⟩ := readSet_write hprint
      (writeSetting (lit "session_timezone", .string (lit "UTC")))
    have hjoin : ∀ xs ys rest, writeSettings (xs ++ ys) rest
        = writeSettings xs (writeSettings ys rest) := by
      intro xs ys rest
      exact List.foldr_append
    rw [setupSession_whole 4096 0 0 hnul hlen, settingsHead_eq, writeSetting_limitZone, ← hjoin,
      hread, (readSettings_last plainLiteralEscapes_spec hword.1 hword.2 fuel _).mpr hutc,
      sessionSettings]
    simp only [Option.map_some, List.append_assoc, List.cons_append, List.nil_append]
  · rw [setupSession_exact_iff plainLiteralEscapes_spec 4096 0 0 hnul hlen]
    intro hzone
    exact hzone.1 (by decide +kernel)

/-- `America/New_York`, a zone that can stand as it is. -/
def newYork : Bytes := lit "America/New_York"

/-- It is set as it is, and so are the limits. -/
theorem setupSession_exact_newYork : SettingsExact plainLiteralEscapes 4096 2 2 newYork := by
  have hnul : 0 ∉ newYork := by decide +kernel
  have hlen : newYork.length ≤ 255 := by decide +kernel
  have hquote : apostrophe ∉ newYork := by decide +kernel
  have hkept : Kept plainLiteralEscapes newYork := Kept.of_not_mem (by decide +kernel)
  exact (setupSession_exact_iff plainLiteralEscapes_spec 4096 2 2 hnul hlen).mpr ⟨hquote, hkept⟩

end PgChdb
