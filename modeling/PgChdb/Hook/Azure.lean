import PgChdb.Hook.Query

namespace PgChdb

open CText Fallible

/-!
# Azure URLs by their grammar

`parse_azure_url` takes a URL apart by one search after the other: for the `?` of a SAS
token, for the `@` or the `/` behind the account, for the `/` behind the container.  The
parts of a URL are said here without any order of searching, over what follows its `://`:

* `urlBody`, `urlQuery` — the text in front of the query, and the query with its `?`;
* `authority` — the text up to the first `/` or `?`;
* `AbfsSplit`, `AzSplit` — the parts a URL is taken apart into, which lose nothing of it;
* `parseAzureUrl_abfs_iff` — when an `abfs` URL is treated by its grammar: unless there is an
  `@` in it and its authority is not a container and an account;
* `parseAzureUrl_az` — an `az` URL always is, and its parts determine it but for one slash.
-/

/-! ### The parts of a URL -/

/-- What stands before the query. -/
def urlBody (r : Bytes) : Bytes := upTo (byte '?') r

/-- The query, its `?` included, if there is one. -/
def urlQuery (r : Bytes) : Bytes := r.drop (urlBody r).length

/-- The text up to the first `/` or `?`. -/
def authority (r : Bytes) : Bytes := r.takeWhile fun c => c ≠ byte '/' ∧ c ≠ byte '?'

/-- A path behind its slash, which may be missing when the path is empty. -/
def Slashed (path tail : Bytes) : Prop := tail = byte '/' :: path ∨ (tail = [] ∧ path = [])

theorem urlBody_append_urlQuery (r : Bytes) : urlBody r ++ urlQuery r = r := by
  have hpre : urlBody r <+: r := List.takeWhile_prefix _
  exact (List.prefix_iff_eq_append.mp hpre)

/-- The query is empty without a `?`, and begins with the first one otherwise. -/
theorem urlQuery_cases (r : Bytes) : (byte '?' ∉ r ∧ urlQuery r = []) ∨
    (byte '?' ∈ r ∧ urlQuery r = byte '?' :: past (byte '?') r) := by
  have hwhole := urlBody_append_urlQuery r
  by_cases h : byte '?' ∈ r
  · have hsplit : urlBody r ++ byte '?' :: past (byte '?') r = r := upTo_append_past h
    exact Or.inr ⟨h, List.append_cancel_left (hwhole.trans hsplit.symm)⟩
  · have hall : urlBody r = r := upTo_of_not_mem h
    exact Or.inl ⟨h, by rw [urlQuery, hall, List.drop_length]⟩

theorem authority_eq (r : Bytes) : authority r = upTo (byte '/') (urlBody r) := by
  unfold authority upTo urlBody upTo
  rw [List.takeWhile_takeWhile]
  congr 1
  funext c
  simp

/-- The path of a text, behind what comes before its first slash. -/
theorem slashed_past (s : Bytes) :
    ∃ tail, s = upTo (byte '/') s ++ tail ∧ Slashed (past (byte '/') s) tail := by
  by_cases h : byte '/' ∈ s
  · exact ⟨_, (upTo_append_past h).symm, Or.inl rfl⟩
  · exact ⟨[], by rw [upTo_of_not_mem h, List.append_nil], Or.inr ⟨rfl, past_of_not_mem h⟩⟩

/-- A path that is empty without a slash is the text past it. -/
theorem ite_past (c : UInt8) (s : Bytes) :
    (if c ∈ s then some (past c s) else none).getD [] = past c s := by
  by_cases h : c ∈ s
  · rw [if_pos h, Option.getD_some]
  · rw [if_neg h, Option.getD_none, past_of_not_mem h]

/-- The account URL carries the query unchanged. -/
theorem azureAccountUrl_eq (account r : Bytes) :
    azureAccountUrl account (if byte '?' ∈ r then some (past (byte '?') r) else none)
      = lit "https://" ++ account ++ urlQuery r := by
  rcases urlQuery_cases r with ⟨h, hquery⟩ | ⟨h, hquery⟩
  · rw [if_neg h, hquery, List.append_nil]
    rfl
  · rw [if_pos h, hquery]
    simp [azureAccountUrl, show lit "?" = [byte '?'] from by decide]

/-! ### The Hadoop style -/

/-- A container and an account, neither empty, around the first `@`. -/
def ContainerAtAccount (a : Bytes) : Prop :=
  ∃ container account, a = container ++ byte '@' :: account ∧ byte '@' ∉ container ∧
    container ≠ [] ∧ account ≠ []

/-- The parts of an `abfs` URL, `name` being its scheme and `r` what follows the `://`. -/
structure AbfsSplit (url name r : Bytes) (parts : AzureURLParts) : Prop where
  container : byte '/' ∉ parts.container
  path : parts.path = past (byte '/') (urlBody r)
  account : ∃ account tail, url = name ++ lit "://" ++ (parts.container ++ byte '@' ::
      (account ++ (tail ++ urlQuery r))) ∧ Slashed parts.path tail ∧
    parts.accountUrl = lit "https://" ++ (if byte '.' ∈ account then account
      else account ++ lit ".blob.core.windows.net") ++ urlQuery r

/-- An `abfs` URL is treated by its grammar: accepted exactly when its authority is a
    container and an account, and then taken apart into its parts. -/
def ParsedByAbfs (ctx : ChdbCopyContext) (name r : Bytes) : Prop :=
  ((∃ parts, parseAzureUrl ctx = .ok parts) ↔ ContainerAtAccount (authority r)) ∧
    ∀ parts, parseAzureUrl ctx = .ok parts → AbfsSplit ctx.url name r parts

/-- Such a URL is accepted as soon as there is an `@` before its query. -/
theorem parseAzureUrl_abfs {ctx : ChdbCopyContext} {name r : Bytes} {parts : AzureURLParts}
    (hscheme : ctx.scheme = .abfs) (hurl : strstr (lit "://") ctx.url = some (name, r)) :
    parseAzureUrl ctx = .ok parts ↔ byte '@' ∈ urlBody r ∧ parts =
      { accountUrl := lit "https://" ++
          (let host := upTo (byte '/') (past (byte '@') (urlBody r))
           if byte '.' ∈ host then host else host ++ lit ".blob.core.windows.net") ++ urlQuery r
        container := upTo (byte '@') (urlBody r)
        path := past (byte '/') (past (byte '@') (urlBody r)) } := by
  have hparse : parseAzureUrl ctx = parseAbfsUrl (urlBody r)
      (if byte '?' ∈ r then some (past (byte '?') r) else none) := by
    simp only [parseAzureUrl, afterScheme, hurl, hscheme, cut_eq]
    rfl
  rw [hparse, parseAbfsUrl]
  by_cases hat : byte '@' ∈ urlBody r
  · simp only [cut_eq, hat, if_true, true_and, azureAccountUrl_eq, ite_past, Except.ok.injEq]
    exact eq_comm
  · simp [cut_eq, hat]

/-- **An `abfs` URL is treated by its grammar unless it has an `@` and its authority is not a
    container and an account**: the first `@` is taken for the end of a container wherever it
    stands before the query, and neither part is looked at again. -/
theorem parseAzureUrl_abfs_iff {ctx : ChdbCopyContext} {name r : Bytes}
    (hscheme : ctx.scheme = .abfs) (hurl : strstr (lit "://") ctx.url = some (name, r)) :
    ParsedByAbfs ctx name r ↔ (byte '@' ∈ urlBody r → ContainerAtAccount (authority r)) := by
  have hparse : ∀ parts, parseAzureUrl ctx = .ok parts ↔ _ := fun _ => parseAzureUrl_abfs hscheme hurl
  constructor
  · rintro ⟨haccept, _⟩ hat
    exact haccept.mp ⟨_, (hparse _).mpr ⟨hat, rfl⟩⟩
  · intro hform
    refine ⟨⟨fun ⟨parts, hparts⟩ => hform ((hparse parts).mp hparts).1, fun h => ?_⟩, ?_⟩
    · -- the `@` of the authority is one of the text in front of the query
      obtain ⟨container, account, hauth, _, _, _⟩ := h
      have hmem : byte '@' ∈ authority r := by rw [hauth]; simp
      rw [authority_eq] at hmem
      exact ⟨_, (hparse _).mpr ⟨(List.takeWhile_prefix _).subset hmem, rfl⟩⟩
    · intro parts hparts
      obtain ⟨hat, rfl⟩ := (hparse parts).mp hparts
      obtain ⟨container, account, hauth, hno, _, _⟩ := hform hat
      obtain ⟨tail, hbody, htail⟩ := slashed_past (urlBody r)
      rw [← authority_eq, hauth] at hbody
      have hnoslash : byte '/' ∉ container ++ byte '@' :: account := by
        rw [← hauth, authority_eq]
        exact not_mem_upTo _ _
      simp only [List.mem_append, List.mem_cons, not_or] at hnoslash
      have hbody' : urlBody r = container ++ byte '@' :: (account ++ tail) := by
        rw [hbody, List.append_assoc, List.cons_append]
      have hcontainer : upTo (byte '@') (urlBody r) = container := by rw [hbody', upTo_append hno]
      have hrest : past (byte '@') (urlBody r) = account ++ tail := by rw [hbody', past_append hno]
      have hhost : upTo (byte '/') (account ++ tail) = account := by
        rcases htail with rfl | ⟨rfl, _⟩
        · exact upTo_append hnoslash.2.2 _
        · rw [List.append_nil, upTo_of_not_mem hnoslash.2.2]
      have hpath : past (byte '/') (account ++ tail) = past (byte '/') (urlBody r) := by
        rcases htail with rfl | ⟨rfl, hnone⟩
        · exact past_append hnoslash.2.2 _
        · rw [List.append_nil, past_of_not_mem hnoslash.2.2, hnone]
      rw [hrest, hhost, hcontainer, hpath]
      refine ⟨hnoslash.1, rfl, account, tail, ?_, htail, rfl⟩
      calc ctx.url = name ++ lit "://" ++ r := strstr_eq_some hurl
        _ = name ++ lit "://" ++ (urlBody r ++ urlQuery r) := by rw [urlBody_append_urlQuery]
        _ = _ := by rw [hbody']; simp

/-- A URL with its `@` in the path is accepted, with a container that has a slash in it. -/
theorem parseAzureUrl_abfs_atInPath :
    ¬ ParsedByAbfs { scheme := .abfs, url := lit "abfs://host/dir@file" } (lit "abfs")
      (lit "host/dir@file") := by
  intro h
  have hcontainer := (h.2 _ rfl).container
  revert hcontainer
  decide

/-- A URL with both parts is treated by the grammar. -/
theorem parseAzureUrl_abfs_account :
    ParsedByAbfs { scheme := .abfs, url := lit "abfs://data@account/dir/file?sig=1" } (lit "abfs")
      (lit "data@account/dir/file?sig=1") :=
  (parseAzureUrl_abfs_iff rfl (by decide)).mpr fun _ =>
    ⟨lit "data", lit "account", by decide, by decide, by decide, by decide⟩

/-! ### The blob style -/

/-- The container of an `az` URL: the text between its first two slashes. -/
def azContainer (r : Bytes) : Bytes := upTo (byte '/') (past (byte '/') (urlBody r))

/-- The parts of an `az` URL: the host, a slash, the container, the path behind a slash and
    the query are what follows the `://`, and the account URL is the host with the query. -/
structure AzSplit (r : Bytes) (parts : AzureURLParts) : Prop where
  container : byte '/' ∉ parts.container
  accountUrl : parts.accountUrl = lit "https://" ++ upTo (byte '/') (urlBody r) ++ urlQuery r
  whole : ∃ tail, r = upTo (byte '/') (urlBody r) ++ byte '/' ::
    (parts.container ++ (tail ++ urlQuery r)) ∧ Slashed parts.path tail

/-- The same text, or the same but for one slash between two pieces of it: an account's host
    with a container, and a query. -/
def SameButSlash (r r' : Bytes) : Prop :=
  r = r' ∨ ∃ a q, (r = a ++ q ∧ r' = a ++ byte '/' :: q) ∨ (r' = a ++ q ∧ r = a ++ byte '/' :: q)

theorem parseAzureUrl_az_eq_ok {ctx : ChdbCopyContext} {name r : Bytes} {parts : AzureURLParts}
    (hscheme : ctx.scheme = .az) (hurl : strstr (lit "://") ctx.url = some (name, r)) :
    parseAzureUrl ctx = .ok parts ↔
      byte '.' ∈ upTo (byte '/') (urlBody r) ∧ azContainer r ≠ [] ∧ parts =
        { accountUrl := lit "https://" ++ upTo (byte '/') (urlBody r) ++ urlQuery r
          container := azContainer r
          path := past (byte '/') (past (byte '/') (urlBody r)) } := by
  have hparse : parseAzureUrl ctx = parseAzUrl (urlBody r)
      (if byte '?' ∈ r then some (past (byte '?') r) else none) := by
    simp only [parseAzureUrl, afterScheme, hurl, hscheme, cut_eq]
    rfl
  rw [hparse, parseAzUrl]
  simp only [cut_eq, ite_past, azureAccountUrl_eq, bind_eq_ok, raiseIf_eq_ok, pure_eq_ok,
    not_not, exists_const, azContainer, eq_comm (b := parts)]

/-- The parts lose nothing of the URL. -/
theorem parseAzureUrl_az_split {ctx : ChdbCopyContext} {name r : Bytes} {parts : AzureURLParts}
    (hscheme : ctx.scheme = .az) (hurl : strstr (lit "://") ctx.url = some (name, r))
    (h : parseAzureUrl ctx = .ok parts) : AzSplit r parts := by
  obtain ⟨_, hne, rfl⟩ := (parseAzureUrl_az_eq_ok hscheme hurl).mp h
  refine ⟨not_mem_upTo _ _, rfl, ?_⟩
  -- a container needs a slash in front of it
  have hslash : byte '/' ∈ urlBody r := by
    by_contra hno
    exact hne (by rw [azContainer, past_of_not_mem hno]; rfl)
  obtain ⟨tail, hpast, htail⟩ := slashed_past (past (byte '/') (urlBody r))
  refine ⟨tail, ?_, htail⟩
  calc r = urlBody r ++ urlQuery r := (urlBody_append_urlQuery r).symm
    _ = (upTo (byte '/') (urlBody r) ++ byte '/' :: past (byte '/') (urlBody r)) ++ urlQuery r := by
        rw [upTo_append_past hslash]
    _ = (upTo (byte '/') (urlBody r) ++ byte '/' :: (azContainer r ++ tail)) ++ urlQuery r := by
        rw [azContainer, ← hpast]
    _ = _ := by simp

/-- A text in front of a query is read off the two together. -/
private theorem upTo_append_urlQuery {a : Bytes} (ha : byte '?' ∉ a) (r : Bytes) :
    upTo (byte '?') (a ++ urlQuery r) = a := by
  rcases urlQuery_cases r with ⟨_, hquery⟩ | ⟨_, hquery⟩
  · rw [hquery, List.append_nil, upTo_of_not_mem ha]
  · rw [hquery, upTo_append ha]

/-- URLs with the same parts are the same but for a slash behind the container. -/
theorem AzSplit.sameButSlash {r r' : Bytes} {parts : AzureURLParts} (h : AzSplit r parts)
    (h' : AzSplit r' parts) : SameButSlash r r' := by
  have hno : ∀ r : Bytes, byte '?' ∉ upTo (byte '/') (urlBody r) := fun r hmem =>
    not_mem_upTo (byte '?') r ((List.takeWhile_prefix _).subset hmem)
  -- the account URL gives the host and the query
  have haccount : upTo (byte '/') (urlBody r) ++ urlQuery r
      = upTo (byte '/') (urlBody r') ++ urlQuery r' := by
    have hurl : lit "https://" ++ (upTo (byte '/') (urlBody r) ++ urlQuery r)
        = lit "https://" ++ (upTo (byte '/') (urlBody r') ++ urlQuery r') := by
      rw [← List.append_assoc, ← List.append_assoc, ← h.accountUrl, ← h'.accountUrl]
    exact List.append_cancel_left hurl
  have hhost : upTo (byte '/') (urlBody r) = upTo (byte '/') (urlBody r') := by
    rw [← upTo_append_urlQuery (hno r) r, haccount, upTo_append_urlQuery (hno r')]
  have hquery : urlQuery r = urlQuery r' := by
    rw [hhost] at haccount
    exact List.append_cancel_left haccount
  obtain ⟨tail, hr, htail⟩ := h.whole
  obtain ⟨tail', hr', htail'⟩ := h'.whole
  rw [← hhost, ← hquery] at hr'
  generalize upTo (byte '/') (urlBody r) = host at hr hr'
  generalize urlQuery r = query at hr hr'
  rcases htail with rfl | ⟨rfl, hpath⟩ <;> rcases htail' with rfl | ⟨rfl, hpath'⟩
  · exact Or.inl (hr.trans hr'.symm)
  · refine Or.inr ⟨host ++ byte '/' :: parts.container, query, Or.inr ⟨?_, ?_⟩⟩
    · rw [hr']; simp
    · rw [hr, hpath']; simp
  · refine Or.inr ⟨host ++ byte '/' :: parts.container, query, Or.inl ⟨?_, ?_⟩⟩
    · rw [hr]; simp
    · rw [hr', hpath]; simp
  · exact Or.inl (hr.trans hr'.symm)

/-- **An `az` URL is treated by its grammar.**  It is accepted exactly when its host has a dot
    and its container is not empty; its parts are then what they are called, together they are
    all of the URL, and another accepted `az` URL with the same parts is the same but for its
    scheme and one slash. -/
theorem parseAzureUrl_az {ctx : ChdbCopyContext} {name r : Bytes} (hscheme : ctx.scheme = .az)
    (hurl : strstr (lit "://") ctx.url = some (name, r)) :
    ((∃ parts, parseAzureUrl ctx = .ok parts) ↔
      byte '.' ∈ upTo (byte '/') (urlBody r) ∧ azContainer r ≠ []) ∧
    (∀ parts, parseAzureUrl ctx = .ok parts → AzSplit r parts) ∧
    ∀ (ctx' : ChdbCopyContext) (name' r' : Bytes) (parts : AzureURLParts), ctx'.scheme = .az →
      strstr (lit "://") ctx'.url = some (name', r') → parseAzureUrl ctx = .ok parts →
      parseAzureUrl ctx' = .ok parts → SameButSlash r r' := by
  refine ⟨⟨?_, ?_⟩, fun parts => parseAzureUrl_az_split hscheme hurl, ?_⟩
  · rintro ⟨parts, hparts⟩
    obtain ⟨hdot, hne, _⟩ := (parseAzureUrl_az_eq_ok hscheme hurl).mp hparts
    exact ⟨hdot, hne⟩
  · rintro ⟨hdot, hne⟩
    exact ⟨_, (parseAzureUrl_az_eq_ok hscheme hurl).mpr ⟨hdot, hne, rfl⟩⟩
  · intro ctx' name' r' parts hscheme' hurl' hparts hparts'
    have hsplit := parseAzureUrl_az_split hscheme hurl hparts
    exact hsplit.sameButSlash (parseAzureUrl_az_split hscheme' hurl' hparts')

/-- A URL with a SAS token is accepted. -/
theorem parseAzureUrl_az_sas :
    ∃ parts, parseAzureUrl { scheme := .az, url := lit "az://a.example/c/d/e?sig=x/y" }
      = .ok parts := by
  have hurl : strstr (lit "://") (lit "az://a.example/c/d/e?sig=x/y")
      = some (lit "az", lit "a.example/c/d/e?sig=x/y") := by decide
  exact (parseAzureUrl_az rfl hurl).1.mpr (by decide)

end PgChdb
