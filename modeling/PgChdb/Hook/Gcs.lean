import PgChdb.Hook.Values

namespace PgChdb

open CText Fallible

/-!
# The server of a Google Cloud Storage URL

`make_ch_query` asks `gcs` for an `https` URL.  A URL that names the public host already is
passed on, any other is a bucket and a path and is put behind that host.  The code tells the
two apart by the first bytes in front of a slash; which server is contacted, and is sent the
credentials, is told by the authority of the URL that results.

* `urlAuthority`, `NamesHost` — the authority of a URL, and that it is a host with at most a
  port;
* `ContainsHost`, `gcsRest` — the test of the code, and what it makes stand behind `https://`
  (`objectStoreUrl_gcs`);
* `AddressesGcs` — the server of the URL is the host, the URL is passed on exactly when that
  was its own, and rewriting it again changes nothing;
* `makeChQuery_gcs_iff` — when that is so: where a rest begins with the host's name, a slash
  has to follow it exactly when the authority goes on with a port at most.
-/

/-! ### The server a URL names -/

/-- The authority of a URL, given what follows its `://`: the text up to the first `/`, `?`
    or `#`. -/
def urlAuthority (r : Bytes) : Bytes :=
  r.takeWhile fun c => c ≠ byte '/' ∧ c ≠ byte '?' ∧ c ≠ byte '#'

/-- The authority is the host, compared without case, and perhaps a port behind a `:`, whose
    digits may be missing. -/
def NamesHost (host r : Bytes) : Prop :=
  pgStrcaseEq (upTo (byte ':') (urlAuthority r)) host ∧
    (past (byte ':') (urlAuthority r)).all isDigit

instance (host r : Bytes) : Decidable (NamesHost host r) := by
  unfold NamesHost; infer_instance

/-- What follows the name of a host has at most a port in front of the end of the authority. -/
def PortAtMost (tail : Bytes) : Prop :=
  upTo (byte ':') (urlAuthority tail) = [] ∧ (past (byte ':') (urlAuthority tail)).all isDigit

instance (tail : Bytes) : Decidable (PortAtMost tail) := by
  unfold PortAtMost; infer_instance

/-- An authority ends at a slash. -/
theorem portAtMost_slash (r : Bytes) : PortAtMost (lit "/" ++ r) := by
  have hauth : urlAuthority (lit "/" ++ r) = [] := by
    simp [urlAuthority, show lit "/" = [byte '/'] from by decide]
  rw [PortAtMost, hauth]
  exact ⟨rfl, rfl⟩

/-- A text without a delimiter is passed over. -/
theorem urlAuthority_append {a : Bytes} (hslash : byte '/' ∉ a) (hquery : byte '?' ∉ a)
    (hhash : byte '#' ∉ a) (b : Bytes) : urlAuthority (a ++ b) = a ++ urlAuthority b := by
  apply List.takeWhile_append_of_pos
  intro c hc
  have h₁ : c ≠ byte '/' := fun e => hslash (e ▸ hc)
  have h₂ : c ≠ byte '?' := fun e => hquery (e ▸ hc)
  have h₃ : c ≠ byte '#' := fun e => hhash (e ▸ hc)
  simp [h₁, h₂, h₃]

/-! ### Texts that are the host but for their case -/

theorem length_of_strcaseEq {a b : Bytes} (h : pgStrcaseEq a b) : a.length = b.length := by
  have hmap : a.map asciiLower = b.map asciiLower := by simpa [pgStrcaseEq] using h
  rw [← List.length_map asciiLower, hmap, List.length_map]

/-- A byte whose lower case the one text does not have is not in the other. -/
theorem not_mem_of_strcaseEq {a b : Bytes} {c : UInt8} (h : pgStrcaseEq a b)
    (hc : asciiLower c ∉ b.map asciiLower) : c ∉ a := by
  have hmap : a.map asciiLower = b.map asciiLower := by simpa [pgStrcaseEq] using h
  intro hmem
  apply hc
  rw [← hmap]
  exact List.mem_map_of_mem hmem

section
variable {host : Bytes} (hhost : pgStrcaseEq host gcsHost)
include hhost

/-- The host's name ends an authority or goes on with what follows it. -/
theorem urlAuthority_host (tail : Bytes) :
    urlAuthority (host ++ tail) = host ++ urlAuthority tail := by
  apply urlAuthority_append
  · exact not_mem_of_strcaseEq hhost (by decide)
  · exact not_mem_of_strcaseEq hhost (by decide)
  · exact not_mem_of_strcaseEq hhost (by decide)

theorem namesHost_append (tail : Bytes) : NamesHost gcsHost (host ++ tail) ↔ PortAtMost tail := by
  have hcolon : byte ':' ∉ host := not_mem_of_strcaseEq hhost (by decide)
  unfold NamesHost PortAtMost
  rw [urlAuthority_host hhost, upTo_append_of_not_mem hcolon, past_append_of_not_mem hcolon]
  refine and_congr_left fun _ => ⟨fun h => ?_, fun h => ?_⟩
  · -- the two texts in front of the port are of the host's length
    have hlen := length_of_strcaseEq h
    have hlen' := length_of_strcaseEq hhost
    rw [List.length_append] at hlen
    apply List.eq_nil_of_length_eq_zero
    omega
  · rw [h, List.append_nil]
    exact hhost

end

/-- A rest whose authority is the host begins with its name. -/
theorem NamesHost.begins {host r : Bytes} (h : NamesHost host r) :
    ∃ name tail, r = name ++ tail ∧ pgStrcaseEq name host := by
  have hpre : upTo (byte ':') (urlAuthority r) <+: r :=
    (List.takeWhile_prefix _).trans (List.takeWhile_prefix _)
  obtain ⟨tail, htail⟩ := hpre
  exact ⟨_, tail, htail.symm, h.1⟩

/-! ### The rewriting -/

/-- The test of `make_ch_query`: the rest begins with the host's name, in any case, and has a
    slash behind it. -/
def ContainsHost (r : Bytes) : Prop :=
  pgStrcaseEq (r.take gcsHost.length) gcsHost ∧ byte '/' ∈ r.drop gcsHost.length

instance (r : Bytes) : Decidable (ContainsHost r) := by unfold ContainsHost; infer_instance

/-- What stands behind the `https://` of a `gcs` URL. -/
def gcsRest (r : Bytes) : Bytes := if ContainsHost r then r else gcsHost ++ lit "/" ++ r

theorem containsHost_append {host : Bytes} (hhost : pgStrcaseEq host gcsHost) (tail : Bytes) :
    ContainsHost (host ++ tail) ↔ byte '/' ∈ tail := by
  have hlen := length_of_strcaseEq hhost
  rw [ContainsHost, ← hlen, List.take_left, List.drop_left]
  exact and_iff_right hhost

theorem ContainsHost.begins {r : Bytes} (h : ContainsHost r) :
    ∃ name tail, r = name ++ tail ∧ pgStrcaseEq name gcsHost :=
  ⟨_, _, (List.take_append_drop gcsHost.length r).symm, h.1⟩

/-- The code compares in front of the first slash, and finds the name there. -/
theorem containsHost_iff_cut (r : Bytes) :
    ContainsHost r ↔ byte '/' ∈ r ∧ gcsHost.length ≤ (upTo (byte '/') r).length ∧
      pgStrcaseEq ((upTo (byte '/') r).take gcsHost.length) gcsHost := by
  constructor
  · intro h
    obtain ⟨host, tail, rfl, hhost⟩ := h.begins
    have hslash : byte '/' ∉ host := not_mem_of_strcaseEq hhost (by decide)
    have hlen := length_of_strcaseEq hhost
    rw [upTo_append_of_not_mem hslash, ← hlen, List.take_left, List.length_append]
    have htail := (containsHost_append hhost tail).mp h
    exact ⟨List.mem_append_right host htail, by omega, hhost⟩
  · rintro ⟨hmem, hlen, hhost⟩
    have hsplit : r = (upTo (byte '/') r).take gcsHost.length ++
        ((upTo (byte '/') r).drop gcsHost.length ++ byte '/' :: past (byte '/') r) := by
      rw [← List.append_assoc, List.take_append_drop, upTo_append_past hmem]
    rw [hsplit]
    exact (containsHost_append hhost _).mpr (by simp)

/-- The URL of a `gcs` query. -/
theorem objectStoreUrl_gcs (url r : Bytes) :
    objectStoreUrl .gcs url r = lit "https://" ++ gcsRest r := by
  unfold objectStoreUrl gcsRest
  simp only [cut_eq, Option.isSome_ite, reduceCtorEq, if_false, ← containsHost_iff_cut]
  by_cases h : ContainsHost r
  · rw [if_pos h, if_pos h]
  · rw [if_neg h, if_neg h]
    simp only [List.append_assoc]

theorem gcsRest_of_containsHost {r : Bytes} (h : ContainsHost r) : gcsRest r = r := if_pos h

/-- What was rewritten passes the test. -/
theorem containsHost_gcsRest (r : Bytes) : ContainsHost (gcsRest r) := by
  by_cases h : ContainsHost r
  · rwa [gcsRest_of_containsHost h]
  · rw [gcsRest, if_neg h, List.append_assoc]
    exact (containsHost_append (by decide) _).mpr (List.mem_append_left r (by decide))

/-- So rewriting it again changes nothing. -/
theorem gcsRest_gcsRest (r : Bytes) : gcsRest (gcsRest r) = gcsRest r :=
  gcsRest_of_containsHost (containsHost_gcsRest r)

/-! ### The query -/

/-- The url parameter of a copy's query. -/
def urlParam (ctx : ChdbCopyContext) : Raises (Option Bytes) :=
  (·.value (lit "url")) <$> makeChQuery ctx

/-- Every `gcs` URL has a query, and its url parameter is the rewritten URL. -/
theorem urlParam_gcs {ctx : ChdbCopyContext} {name r : Bytes} (hscheme : ctx.scheme = .gcs)
    (hurl : strstr (lit "://") ctx.url = some (name, r)) :
    urlParam ctx = .ok (some (lit "https://" ++ gcsRest r)) := by
  have hafter : afterScheme ctx.scheme.tableFunction ctx.url = .ok r := by
    rw [afterScheme, hurl]
  have hargs : schemeArguments ctx {} = .ok (objectStoreArguments ctx r {}) := by
    simp only [schemeArguments, hscheme] at hafter ⊢
    rw [hafter]
    rfl
  have hvalues : statementValues ctx = .ok ((lit "url", objectStoreUrl ctx.scheme ctx.url r) ::
      (credentialValues ctx ++ (formatValues ctx ++ compressionValues ctx))) := by
    simp only [statementValues, hscheme] at hafter ⊢
    rw [hafter]
    rfl
  have hquery := makeChQuery_eq_ok.mpr ⟨_, hargs, rfl⟩
  have hparams := makeChQuery_params hquery hvalues
  rw [urlParam, hquery]
  show Except.ok (List.lookup _ _) = _
  rw [hparams, List.lookup_cons_self, hscheme, objectStoreUrl_gcs]

/-- The URL of a `gcs` query, `rest` standing behind its `https://`: its server is the Google
    host, it is the rest `r` of the statement's URL where that names the host as its own and a
    path on the host otherwise, and rewritten under `gs://` again it stays what it is. -/
structure AddressesGcs (ctx : ChdbCopyContext) (r rest : Bytes) : Prop where
  param : urlParam ctx = .ok (some (lit "https://" ++ rest))
  server : NamesHost gcsHost rest
  own : NamesHost gcsHost r → rest = r
  bucket : ¬ NamesHost gcsHost r → rest = gcsHost ++ lit "/" ++ r
  again : ∀ ctx' : ChdbCopyContext, ctx'.scheme = .gcs → ctx'.url = lit "gs://" ++ rest →
    urlParam ctx' = urlParam ctx

/-- The URL addresses the host when the test of the code finds what its authority says. -/
theorem addressesGcs_iff_test {ctx : ChdbCopyContext} {name r : Bytes}
    (hscheme : ctx.scheme = .gcs) (hurl : strstr (lit "://") ctx.url = some (name, r)) :
    (∃ rest, AddressesGcs ctx r rest) ↔ (NamesHost gcsHost r ↔ ContainsHost r) := by
  have hparam := urlParam_gcs hscheme hurl
  constructor
  · rintro ⟨rest, h⟩
    have hrest : gcsRest r = rest := by
      have hsame := hparam.symm.trans h.param
      simp only [Except.ok.injEq, Option.some.injEq] at hsame
      exact List.append_cancel_left hsame
    constructor
    · intro hnames
      rw [← h.own hnames, ← hrest]
      exact containsHost_gcsRest r
    · intro hcontains
      rw [← gcsRest_of_containsHost hcontains, hrest]
      exact h.server
  · intro htest
    refine ⟨gcsRest r, hparam, ?_, ?_, ?_, ?_⟩
    · by_cases h : ContainsHost r
      · rw [gcsRest_of_containsHost h]
        exact htest.mpr h
      · rw [gcsRest, if_neg h, List.append_assoc]
        exact (namesHost_append (by decide) _).mpr (portAtMost_slash r)
    · intro hnames
      exact gcsRest_of_containsHost (htest.mp hnames)
    · intro hnames
      exact if_neg fun h => hnames (htest.mpr h)
    · intro ctx' hscheme' hurl'
      have hsplit : strstr (lit "://") ctx'.url = some (lit "gs", gcsRest r) := by
        rw [hurl', show lit "gs://" = lit "gs" ++ lit "://" from by decide, List.append_assoc,
          strstr_append_of_skips (by decide), strstr_append_self]
        rfl
      rw [urlParam_gcs hscheme' hsplit, gcsRest_gcsRest, hparam]

/-- **A `gcs` URL addresses the Google host, unless its rest begins with the name of the host
    and the test is misled**: behind the name there has to be a slash exactly when the authority
    goes on with a port at most.  A longer name with a path is contacted as a server, and the
    host alone, without a path, is taken for a bucket. -/
theorem makeChQuery_gcs_iff {ctx : ChdbCopyContext} {name r : Bytes} (hscheme : ctx.scheme = .gcs)
    (hurl : strstr (lit "://") ctx.url = some (name, r)) :
    (∃ rest, AddressesGcs ctx r rest) ↔ ∀ host tail, r = host ++ tail →
      pgStrcaseEq host gcsHost → (byte '/' ∈ tail ↔ PortAtMost tail) := by
  rw [addressesGcs_iff_test hscheme hurl]
  constructor
  · rintro htest host tail rfl hhost
    rw [← containsHost_append hhost, ← namesHost_append hhost]
    exact htest.symm
  · intro hall
    constructor
    · intro hnames
      obtain ⟨host, tail, rfl, hhost⟩ := hnames.begins
      have htail := (namesHost_append hhost tail).mp hnames
      exact (containsHost_append hhost tail).mpr ((hall host tail rfl hhost).mpr htail)
    · intro hcontains
      obtain ⟨host, tail, rfl, hhost⟩ := hcontains.begins
      have htail := (containsHost_append hhost tail).mp hcontains
      exact (namesHost_append hhost tail).mpr ((hall host tail rfl hhost).mp htail)

/-- A copy with credentials from a bucket whose name begins with that of the host. -/
def longerHost : ChdbCopyContext where
  scheme := .gcs
  url := lit "gs://storage.googleapis.com.example.org/b/a.csv"
  accessKey := lit "k"
  accessSecret := lit "s"
  structureClause := lit "a Int32"

/-- Another server is contacted, with the credentials. -/
theorem makeChQuery_gcs_longerHost :
    urlParam longerHost = .ok (some (lit "https://storage.googleapis.com.example.org/b/a.csv")) ∧
    ¬ ∃ rest, AddressesGcs longerHost (lit "storage.googleapis.com.example.org/b/a.csv") rest := by
  have hurl : strstr (lit "://") longerHost.url
      = some (lit "gs", lit "storage.googleapis.com.example.org/b/a.csv") := by decide
  refine ⟨(urlParam_gcs rfl hurl).trans (by decide +kernel), ?_⟩
  rw [addressesGcs_iff_test rfl hurl]
  decide +kernel

/-- A host in another case, with a port, is passed on. -/
theorem makeChQuery_gcs_port :
    ∃ rest, AddressesGcs { scheme := .gcs, url := lit "gcs://Storage.GoogleAPIs.com:443/b/a.csv" }
      (lit "Storage.GoogleAPIs.com:443/b/a.csv") rest := by
  have hurl : strstr (lit "://") (lit "gcs://Storage.GoogleAPIs.com:443/b/a.csv")
      = some (lit "gcs", lit "Storage.GoogleAPIs.com:443/b/a.csv") := by decide
  refine (makeChQuery_gcs_iff rfl hurl).mpr fun host tail hsplit hhost => ?_
  have htail : lit ":443/b/a.csv" = tail := by
    have hdrop := congrArg (List.drop gcsHost.length) hsplit
    rwa [← length_of_strcaseEq hhost, List.drop_left, length_of_strcaseEq hhost] at hdrop
  rw [← htail]
  decide

end PgChdb
