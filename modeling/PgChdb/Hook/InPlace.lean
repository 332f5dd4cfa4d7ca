import PgChdb.Hook.Load

namespace PgChdb.InPlace

open CText Fallible Effects

/-!
# The hook, in place

`chDBProcessUtilityHook` once more, with what a caller of `ProcessUtility` can see of it: the
statement tree it is given, which the hook edits in place unless the tree is read-only, the
arguments it hands on, and the completion tag behind a pointer that may be `NULL`.

* `HookAct` — what the hook does: a `HookEvent`, a change to a tree, a call of
  `PrevProcessUtility`, or a write to the completion tag;
* `TreeServer.trees` — the two trees as those acts leave them;
* `takeUrlOption`, `createColumnsFromUrl`, `chDBProcessUtilityHook` — the functions that read
  and write the trees, over the parts of the hook that do not;
* `createColumnsFromUrl_wp` — the options a tree is left with;
* `calls_chDBProcessUtilityHook` — with the trees left out, this is the hook over events.
-/

variable {T A : Type}

/-! ### Trees -/

/-- `plannedStmt`: the caller's, or the copy made of it. -/
inductive TreeRef where
  | caller
  | copied
  deriving DecidableEq, Repr

/-- Storing another list of options. -/
def setOptions (options : List DefElem) : UtilityStmt → UtilityStmt
  | .copy copy => .copy { copy with options }
  | .create create => .create { create with options }
  | .other => .other

/-- Storing another list of columns. -/
def setTableElts (tableElts : List ColumnDef) : UtilityStmt → UtilityStmt
  | .create create => .create { create with tableElts }
  | stmt => stmt

/-- The arguments of `ProcessUtility` besides the statement.  `rest` are those the hook hands
    on unread; `qc` is the address of the completion tag. -/
structure HookArgs (A : Type) where
  readOnlyTree : Bool
  rest : A
  qc : Option ℕ

/-- What the hook does. -/
inductive HookAct (A : Type) where
  | event (e : HookEvent)
  | copyObject
  | setOptions (tree : TreeRef) (options : List DefElem)
  | setTableElts (tree : TreeRef) (tableElts : List ColumnDef)
  | prevProcessUtility (tree : TreeRef) (stmt : UtilityStmt) (args : HookArgs A)
  | setQueryCompletion (qc : Option ℕ) (rows : ℕ)

/-- The event an act is, if it is one. -/
def HookAct.event? : HookAct A → Option HookEvent
  | .event e => some e
  | .prevProcessUtility _ stmt _ => some (.prevProcessUtility stmt)
  | .setQueryCompletion _ rows => some (.setQueryCompletion rows)
  | _ => none

/-- What PostgreSQL and the helper do; `transform` is what `PrevProcessUtility` makes of a tree
    it may write to. -/
structure TreeServer extends HookServer where
  transform : UtilityStmt → UtilityStmt

/-- What an act makes of the trees. -/
def TreeServer.step (srv : TreeServer) (ts : TreeRef → UtilityStmt) :
    HookAct A → TreeRef → UtilityStmt
  | .copyObject => Function.update ts .copied (ts .caller)
  | .setOptions tree options => Function.update ts tree (setOptions options (ts tree))
  | .setTableElts tree tableElts => Function.update ts tree (setTableElts tableElts (ts tree))
  | .prevProcessUtility tree _ args =>
    if args.readOnlyTree then ts else Function.update ts tree (srv.transform (ts tree))
  | _ => ts

/-- The trees of a call with the statement `stmt`. -/
def TreeServer.trees (srv : TreeServer) (A : Type) (stmt : UtilityStmt) :
    World (HookAct A) (TreeRef → UtilityStmt) where
  start _ := stmt
  others _ ts := ts
  step := srv.step

/-- A raised error, or a store through `NULL`. -/
inductive Stop where
  | raised (e : Ereport)
  | crashed

/-- The hook, over those acts. -/
abbrev TreeHook (A : Type) := Proc Stop (HookAct A)

/-- A part of the hook that does not touch the trees. -/
def untouched {α : Type} (m : Hook α) : TreeHook A α :=
  within HookAct.event? HookAct.event Stop.raised m

/-! ### The hook -/

/-- `(CreateStmt*) parsetree`, as it is now; `create` is what it was. -/
def createAt (srv : TreeServer) (create : CreateStmt) (tree : TreeRef) : TreeHook A CreateStmt :=
  observe fun h =>
    match (srv.trees A (.create create)).after h tree with
    | .create create => create
    | _ => create

/-- `take_url_option`: the option is gone from the list before its value is read. -/
def takeUrlOption (srv : TreeServer) (create : CreateStmt) (tree : TreeRef) (name : Bytes) :
    TreeHook A (Option Bytes) := do
  let now ← createAt srv create tree
  match now.options.find? fun elem => elem.defname = name with
  | none => return none
  | some elem =>
    -- `list_delete_cell` comes before `defGetString`, which may raise
    note (.setOptions tree (now.options.eraseP fun elem => elem.defname = name))
    let value ← untouched (lift elem.string)
    return some value

/-- `create_columns_from_url`, as the URLs of the statement and the context for the copy. -/
def createColumnsFromUrl (srv : TreeServer) (cfg : HookConfig) (lib : PgchTypes T)
    (create : CreateStmt) (tree : TreeRef) (ctx : ChdbCopyContext) :
    TreeHook A (ChdbCreateFromURL × ChdbCopyContext) := do
  let structureUrl ← takeUrlOption srv create tree structureFromOption
  let copyUrl ← takeUrlOption srv create tree copyFromOption
  let now ← createAt srv create tree
  let urls ← untouched (lift (checkUrlOptions now { structureUrl, copyUrl }))
  let found ← untouched (ask (fun h => srv.relnameLookup h now.relname)
    (fun found => .relnameLookup now.relname found))
  untouched (lift (raiseIf found (relationExists now)))
  let (ctx, storage) ←
    untouched (lift (contextualizeOptions cfg.parseCheck true ctx now.options))
  -- stored whether or not there are columns to ask for
  note (.setOptions tree storage)
  match urls.structureUrl with
  | none => return (urls, ctx)
  | some url =>
    let scheme ← untouched (optionUrlScheme srv.toHookServer cfg url structureFromOption)
    let ctx := { ctx with url, scheme }
    let described ← untouched (chdbDescribe srv.toHookServer ctx)
    let (columns, ctx) ← untouched (lift (urlColumns lib ctx described))
    note (.setTableElts tree columns)
    return (urls, ctx)

/-- The call of `PrevProcessUtility`, with a tree as it is now. -/
def prevProcessUtility (srv : TreeServer) (stmt : UtilityStmt) (tree : TreeRef)
    (args : HookArgs A) : TreeHook A Unit := do
  let now ← observe fun h => (srv.trees A stmt).after h tree
  call (fun h _ => (srv.call (h.filterMap HookAct.event?) (.prevProcessUtility now)).mapError
    Stop.raised) (.prevProcessUtility tree now args)

/-- `SetQueryCompletion`, which stores through the pointer it is given. -/
def setQueryCompletion (qc : Option ℕ) (rows : ℕ) : TreeHook A Unit := do
  note (.setQueryCompletion qc rows)
  lift (if qc = none then .error .crashed else .ok ())

/-- The branch for a `COPY` of a relation from or to a URL. -/
def copyFromUrl (srv : TreeServer) (cfg : HookConfig) (lib : PgchNames) (copy : CopyStmt)
    (relation url : Bytes) (scheme : Scheme) (args : HookArgs A) : TreeHook A Unit := do
  untouched (lift (raiseIf copy.whereClause
    { errcode := .featureNotSupported
      errmsg := lit "chdb: COPY FROM a URL not supported with a WHERE clause" }))
  untouched (onlyIf copy.isFrom (call srv.call (.preventCommandIfReadOnly (lit "COPY FROM"))))
  untouched (onlyIf (scheme = .file) (checkServerFilePrivileges srv.toHookServer copy.isFrom))
  let cmdType := if copy.isFrom then .select else .insert
  let ctx ← untouched (openCopyRelation srv.toHookServer relation copy.attlist copy.isFrom
    { cfg.context with scheme, cmdType, url })
  let (ctx, _) ← untouched (lift (contextualizeOptions cfg.parseCheck false ctx copy.options))
  let rows ← untouched (chdbCopy srv.toHookServer lib ctx)
  setQueryCompletion args.qc rows
  untouched (call srv.call .tableClose)

/-- The branch for a `CREATE TABLE` with a URL option.  A read-only tree is copied first, and
    `PrevProcessUtility` may then write to the tree it is given. -/
def createFromUrl (srv : TreeServer) (cfg : HookConfig) (lib : PgchTypes T) (create : CreateStmt)
    (args : HookArgs A) : TreeHook A Unit := do
  -- `readOnlyTree` is cleared with the copy
  let tree := if args.readOnlyTree then TreeRef.copied else .caller
  onlyIf args.readOnlyTree (note .copyObject)
  untouched (call srv.call (.preventCommandIfReadOnly (lit "CREATE TABLE")))
  let (urls, ctx) ← createColumnsFromUrl srv cfg lib create tree cfg.context
  prevProcessUtility srv (.create create) tree { args with readOnlyTree := false }
  match urls.copyUrl with
  | some url => do
    -- the name is read from the tree `PrevProcessUtility` had
    let now ← createAt srv create tree
    untouched (copyUrlInto srv.toHookServer cfg lib.toPgchNames now.relname url ctx)
  | none => return ()

/-- `chDBProcessUtilityHook`. -/
def chDBProcessUtilityHook (srv : TreeServer) (cfg : HookConfig) (lib : PgchTypes T)
    (stmt : UtilityStmt) (args : HookArgs A) : TreeHook A Unit :=
  match stmt with
  | .copy copy =>
    match copy.relation, copy.filename, schemeFor cfg.noFileScheme copy.filename with
    | some relation, some url, some scheme =>
      if copy.isProgram then prevProcessUtility srv stmt .caller args
      else copyFromUrl srv cfg lib.toPgchNames copy relation url scheme args
    | _, _, _ => prevProcessUtility srv stmt .caller args
  | .create create =>
    if chdbCreatesFromUrl create then createFromUrl srv cfg lib create args
    else prevProcessUtility srv stmt .caller args
  | .other => prevProcessUtility srv stmt .caller args

/-! ### What acts leave alone -/

/-- An event of the hook itself that is not a copy done.  A `PrevProcessUtility` is an act of
    its own. -/
def prepares : HookAct A → Bool
  | .event e => e.prepares
  | _ => false

/-- An event, or a change to one tree. -/
def edits (tree : TreeRef) : HookAct A → Bool
  | .copyObject => tree = .copied
  | .setOptions at' _ => at' = tree
  | .setTableElts at' _ => at' = tree
  | .event e => e.inner
  | _ => false

/-- An act that does not write to the caller's tree, nor lets PostgreSQL. -/
def spares : HookAct A → Bool
  | .setOptions tree _ => tree = .copied
  | .setTableElts tree _ => tree = .copied
  | .prevProcessUtility tree _ args => args.readOnlyTree || tree = .copied
  | _ => true

section
variable {srv : TreeServer} {stmt : UtilityStmt} {h t : List (HookAct A)}

@[simp] theorem trees_concat (t : List (HookAct A)) (a : HookAct A) :
    (srv.trees A stmt).after (t ++ [a]) = srv.step ((srv.trees A stmt).after t) a :=
  World.after_concat _ t a

theorem trees_of_prepares (ht : Grown prepares h t) :
    (srv.trees A stmt).after t = (srv.trees A stmt).after h := by
  refine World.after_of_grown (I := fun ts => ts = (srv.trees A stmt).after h)
    (fun _ _ hs => hs) (fun ts a ha hs => ?_) ht rfl
  cases a with
  | event e => exact hs
  | _ => cases ha

theorem caller_of_spares (ht : ∀ a ∈ t, spares a = true) :
    (srv.trees A stmt).after t .caller = stmt := by
  have hgrown : Grown spares [] t := ⟨t, rfl, ht⟩
  refine World.after_of_grown (I := fun ts : TreeRef → UtilityStmt => ts .caller = stmt)
    (fun _ _ hs => hs) (fun ts a ha hs => ?_) hgrown rfl
  show srv.step ts a .caller = stmt
  cases a with
  | event e => exact hs
  | setQueryCompletion qc rows => exact hs
  | copyObject => simpa [TreeServer.step] using hs
  | setOptions tree options =>
    have htree : tree = .copied := by simpa [spares] using ha
    simpa [TreeServer.step, htree] using hs
  | setTableElts tree tableElts =>
    have htree : tree = .copied := by simpa [spares] using ha
    simpa [TreeServer.step, htree] using hs
  | prevProcessUtility tree now args =>
    unfold TreeServer.step
    dsimp only
    -- PostgreSQL writes to a tree only if it may
    by_cases hread : args.readOnlyTree = true
    · rw [if_pos hread]
      exact hs
    · have htree : tree = .copied := by simpa [spares, hread] using ha
      rw [if_neg hread, htree]
      simpa using hs

theorem exists_of_prepares {a : HookAct A} (ha : prepares a = true) :
    ∃ e, a = .event e ∧ e.prepares = true := by
  cases a with
  | event e => exact ⟨e, rfl, ha⟩
  | _ => cases ha

/-- A part of the hook with no copy in it. -/
theorem untouched_wp {α : Type} {m : Hook α} (hm : Only HookEvent.prepares m)
    (h : List (HookAct A)) :
    wp (untouched m) (fun _ => Grown prepares h) (Grown prepares h) h := by
  have honly : Only prepares (untouched m : TreeHook A α) := Only.within hm fun _ he => he
  exact honly h

end

/-! ### A table -/

section
variable {srv : TreeServer} {create now : CreateStmt} {tree : TreeRef} {h t : List (HookAct A)}

/-- The options that neither the hook nor chDB takes, in their order. -/
def optionsLeft (options : List DefElem) : List DefElem :=
  ((options.eraseP fun elem => elem.defname = structureFromOption).eraseP fun elem =>
    elem.defname = copyFromOption).filter fun elem => elem.defname ∉ chdbOptions

/-- The tree is read as it is. -/
theorem createAt_wp {Q : CreateStmt → List (HookAct A) → Prop} {E : List (HookAct A) → Prop}
    (hnow : (srv.trees A (.create create)).after h tree = .create now) (hQ : Q now h) :
    wp (createAt srv create tree) Q E h := by
  unfold createAt
  rw [wp_observe, hnow]
  exact hQ

theorem createAt_any {Q : CreateStmt → List (HookAct A) → Prop} {E : List (HookAct A) → Prop}
    (hQ : ∀ now, Q now h) : wp (createAt srv create tree) Q E h :=
  hQ _

theorem edits_of_prepares {a : HookAct A} (ha : prepares a = true) : edits tree a = true := by
  obtain ⟨e, rfl, he⟩ := exists_of_prepares ha
  exact e.inner_of_prepares he

/-- An option is taken out of the tree, also when its value is then no text. -/
theorem takeUrlOption_wp (hnow : (srv.trees A (.create create)).after h tree = .create now)
    (name : Bytes) :
    wp (takeUrlOption srv create tree name)
      (fun _ t => Grown (edits tree) h t ∧ (srv.trees A (.create create)).after t tree
        = .create { now with options := now.options.eraseP fun elem => elem.defname = name })
      (Grown (edits tree) h) h := by
  unfold takeUrlOption
  rw [wp_bind]
  refine createAt_wp hnow ?_
  cases hfind : now.options.find? fun elem => elem.defname = name with
  | none =>
    -- without the option the list is left as it is
    have hno : now.options.eraseP (fun elem => elem.defname = name) = now.options :=
      List.eraseP_of_forall_not fun elem helem => List.find?_eq_none.mp hfind elem helem
    exact ⟨Grown.refl h, by rw [hnow, hno]⟩
  | some elem =>
    dsimp only
    rw [wp_bind, wp_note, wp_bind]
    have htaken := Grown.single (p := edits tree) (e := HookAct.setOptions tree
      (now.options.eraseP fun elem => elem.defname = name)) (by simp [edits]) h
    refine wp_within_lift (fun value _ => ⟨htaken, ?_⟩) htaken
    rw [trees_concat]
    simp [TreeServer.step, hnow, setOptions]

/-- The statement PostgreSQL is given has the options that are left. -/
theorem createColumnsFromUrl_wp (cfg : HookConfig) (lib : PgchTypes T)
    (hnow : (srv.trees A (.create create)).after h tree = .create now) (ctx : ChdbCopyContext) :
    wp (createColumnsFromUrl srv cfg lib create tree ctx)
      (fun _ t => Grown (edits tree) h t ∧ ∃ create',
        (srv.trees A (.create create)).after t tree = .create create' ∧
        create'.options = optionsLeft now.options)
      (Grown (edits tree) h) h := by
  have hprepares : ∀ {u v : List (HookAct A)}, Grown prepares u v → Grown (edits tree) u v :=
    fun huv => huv.weaken fun _ ha => edits_of_prepares ha
  unfold createColumnsFromUrl
  rw [wp_bind]
  refine wp_mono (takeUrlOption_wp hnow structureFromOption) (fun structureUrl t ht => ?_)
    fun _ he => he
  obtain ⟨hht, hstructure⟩ := ht
  rw [wp_bind]
  refine wp_mono (takeUrlOption_wp hstructure copyFromOption) (fun copyUrl u hu => ?_)
    fun _ he => hht.trans he
  obtain ⟨htu, hcopy⟩ := hu
  have hhu := hht.trans htu
  rw [wp_bind]
  refine createAt_wp hcopy ?_
  rw [wp_bind]
  refine wp_within_lift (fun urls _ => ?_) hhu
  rw [wp_bind]
  refine wp_mono (untouched_wp (Only.ask fun _ => rfl) u) (fun found v huv => ?_)
    fun _ he => hhu.trans (hprepares he)
  have hhv := hhu.trans (hprepares huv)
  rw [wp_bind]
  refine wp_within_lift (fun _ _ => ?_) hhv
  rw [wp_bind]
  refine wp_within_lift (fun ⟨ctx, storage⟩ hoptions => ?_) hhv
  have hstorage : storage = optionsLeft now.options := contextualizeOptions_others hoptions
  rw [wp_bind, wp_note]
  -- the options that are left go back into the tree
  have hstored : (srv.trees A (.create create)).after (v ++ [.setOptions tree storage]) tree
      = .create { now with options := optionsLeft now.options } := by
    rw [trees_concat, trees_of_prepares huv]
    simp [TreeServer.step, hcopy, setOptions, hstorage]
  have hhs : Grown (edits tree) h (v ++ [.setOptions tree storage]) :=
    hhv.trans (Grown.single (by simp [edits]) v)
  generalize v ++ [HookAct.setOptions tree storage] = s at hstored hhs ⊢
  dsimp only
  cases urls.structureUrl with
  | none => exact ⟨hhs, _, hstored, rfl⟩
  | some url =>
    dsimp only
    rw [wp_bind]
    have hscheme := (optionUrlScheme_only srv.toHookServer cfg url structureFromOption).mono
      HookEvent.prepares_of_isCheck
    refine wp_mono (untouched_wp hscheme s) (fun scheme w hsw => ?_)
      fun _ he => hhs.trans (hprepares he)
    rw [wp_bind]
    refine wp_mono (untouched_wp (chdbDescribe_only srv.toHookServer _) w)
      (fun described x hwx => ?_) fun _ he => hhs.trans (hprepares (hsw.trans he))
    have hhx := hhs.trans (hprepares (hsw.trans hwx))
    rw [wp_bind]
    refine wp_within_lift (fun ⟨columns, ctx⟩ _ => ?_) hhx
    rw [wp_bind, wp_note]
    refine ⟨hhx.trans (Grown.single (by simp [edits]) x), ?_⟩
    refine ⟨{ now with options := optionsLeft now.options, tableElts := columns }, ?_, rfl⟩
    rw [trees_concat, trees_of_prepares (hsw.trans hwx)]
    simp [TreeServer.step, hstored, setTableElts]

end

/-! ### With the trees left out -/

section
variable {srv : TreeServer} {create now : CreateStmt} {tree : TreeRef} {h : List (HookAct A)}

theorem trees_of_events {stmt : UtilityStmt} (es : List HookEvent) :
    (srv.trees A stmt).after (h ++ es.map .event) = (srv.trees A stmt).after h := by
  induction es using List.reverseRecOn with
  | nil => simp
  | append_singleton es e ih =>
    rw [List.map_append, ← List.append_assoc, List.map_singleton, trees_concat, ih]
    rfl

/-- A part of the hook that does not touch the trees does what it did. -/
theorem untouched_tracks (srv : TreeServer) (stmt : UtilityStmt) {α : Type} {m : Hook α}
    {p : HookEvent → Bool} (hm : Only p m) :
    Tracks HookAct.event? (untouched m) h m fun a t a' =>
      a = a' ∧ (srv.trees A stmt).after t = (srv.trees A stmt).after h := by
  have hall : Only (fun _ => true) m := hm.mono fun _ _ => rfl
  have htracks : Tracks HookAct.event?
      (within HookAct.event? (HookAct.event : HookEvent → HookAct A) Stop.raised m) h m _ :=
    Tracks.within (fun _ => rfl) hall
  refine htracks.mono fun a t a' ht => ?_
  obtain ⟨heq, es, rfl⟩ := ht
  exact ⟨heq, trees_of_events es⟩

theorem returns_createAt (hnow : (srv.trees A (.create create)).after h tree = .create now) :
    returns (createAt srv create tree) h = some (now, h) := by
  unfold createAt returns observe
  dsimp only
  rw [hnow]

theorem takeUrlOption_tracks (hnow : (srv.trees A (.create create)).after h tree = .create now)
    (name : Bytes) :
    Tracks HookAct.event? (takeUrlOption srv create tree name) h
      (lift (PgChdb.takeUrlOption name now.options)) fun value t r =>
        value = r.1 ∧ (srv.trees A (.create create)).after t tree
          = .create { now with options := r.2 } := by
  unfold takeUrlOption
  rw [takeUrlOption_eq]
  refine Tracks.silent (returns_createAt hnow) rfl ?_
  cases hfind : now.options.find? fun elem => elem.defname = name with
  | none => exact ⟨rfl, rfl, hnow⟩
  | some elem =>
    dsimp only
    refine Tracks.silent returns_note (by simp [HookAct.event?]) ?_
    rw [lift_bind]
    refine Tracks.bind (untouched_tracks srv (.create create) (p := fun _ => true)
      (Only.lift elem.string)) fun value t value' ht => ?_
    obtain ⟨rfl, htrees⟩ := ht
    refine Tracks.pure ⟨rfl, ?_⟩
    rw [htrees, trees_concat]
    simp [TreeServer.step, hnow, setOptions]

/-- The two halves of a table are those over events, with the statement in a tree. -/
theorem createColumnsFromUrl_tracks (cfg : HookConfig) (lib : PgchTypes T)
    (hnow : (srv.trees A (.create create)).after h tree = .create now) (ctx : ChdbCopyContext) :
    Tracks HookAct.event? (createColumnsFromUrl srv cfg lib create tree ctx) h
      (PgChdb.createColumnsFromUrl srv.toHookServer cfg lib now ctx) fun r t r' =>
        r = r'.2 ∧ (srv.trees A (.create create)).after t tree = .create r'.1 := by
  unfold createColumnsFromUrl PgChdb.createColumnsFromUrl takeUrlOptions
  have hlift : ∀ {α : Type} (x : Raises α) (t : List (HookAct A)),
      Tracks HookAct.event? (untouched (lift x)) t (lift x) fun a u a' =>
        a = a' ∧ (srv.trees A (.create create)).after u = (srv.trees A (.create create)).after t :=
    fun x t => untouched_tracks srv (.create create) (p := fun _ => true) (Only.lift x)
  simp only [lift_bind, lift_pure, bind_assoc, pure_bind]
  refine Tracks.bind (takeUrlOption_tracks hnow structureFromOption)
    fun structureUrl t r ht => ?_
  obtain ⟨rfl, hstructure⟩ := ht
  refine Tracks.bind (takeUrlOption_tracks hstructure copyFromOption) fun copyUrl u s hu => ?_
  obtain ⟨rfl, hcopy⟩ := hu
  refine Tracks.silent (returns_createAt hcopy) rfl ?_
  refine Tracks.bind (hlift _ u) fun urls v urls' hv => ?_
  obtain ⟨rfl, huv⟩ := hv
  refine Tracks.bind (untouched_tracks srv (.create create) (p := fun _ => true)
    (Only.ask fun _ => rfl)) fun found w found' hw => ?_
  obtain ⟨rfl, hvw⟩ := hw
  refine Tracks.bind (hlift _ w) fun _ x _ hx => ?_
  refine Tracks.bind (hlift _ x) fun contextualized y contextualized' hy => ?_
  obtain ⟨rfl, hxy⟩ := hy
  -- nothing so far has touched the tree since the options were taken out
  have hkept : (srv.trees A (.create create)).after y tree
      = .create { now with options := s.2 } := by
    rw [hxy, hx.2, hvw, huv, hcopy]
  refine Tracks.silent returns_note (by simp [HookAct.event?]) ?_
  have hstored : (srv.trees A (.create create)).after
      (y ++ [.setOptions tree contextualized.2]) tree
        = .create { now with options := contextualized.2 } := by
    rw [trees_concat]
    simp [TreeServer.step, hkept, setOptions]
  generalize y ++ [HookAct.setOptions tree contextualized.2] = z at hstored ⊢
  cases hurl : urls.structureUrl with
  | none => exact Tracks.pure ⟨rfl, hstored⟩
  | some url =>
    dsimp only
    refine Tracks.bind (untouched_tracks srv (.create create)
      (optionUrlScheme_only srv.toHookServer cfg url structureFromOption))
      fun scheme z₁ scheme' h₁ => ?_
    obtain ⟨rfl, h₁⟩ := h₁
    refine Tracks.bind (untouched_tracks srv (.create create)
      (chdbDescribe_only srv.toHookServer _)) fun described z₂ described' h₂ => ?_
    obtain ⟨rfl, h₂⟩ := h₂
    refine Tracks.bind (hlift _ z₂) fun columns z₃ columns' h₃ => ?_
    obtain ⟨rfl, h₃⟩ := h₃
    refine Tracks.silent returns_note (by simp [HookAct.event?]) ?_
    refine Tracks.pure ⟨rfl, ?_⟩
    rw [trees_concat]
    simp [TreeServer.step, h₃, h₂, h₁, hstored, setTableElts]

/-- The statement in a tree is handed on. -/
theorem prevProcessUtility_tracks {stmt now : UtilityStmt} (args : HookArgs A)
    (hnow : (srv.trees A stmt).after h tree = now) :
    Tracks HookAct.event? (prevProcessUtility srv stmt tree args) h
      (call srv.call (.prevProcessUtility now)) fun _ t _ =>
        t = h ++ [.prevProcessUtility tree now args] := by
  unfold prevProcessUtility
  refine Tracks.silent (a := now) (t := h) (by rw [← hnow]; rfl) rfl ?_
  -- the two calls are answered alike
  unfold Tracks call
  dsimp only
  cases srv.call (h.filterMap HookAct.event?) (.prevProcessUtility now) with
  | ok u => exact ⟨by simp [HookAct.event?], rfl⟩
  | error x =>
    show _ = _
    simp [HookAct.event?]

/-- A tag that is there is written. -/
theorem setQueryCompletion_tracks {qc : Option ℕ} (hqc : qc ≠ none) (rows : ℕ)
    (htag : ∀ h rows, srv.call h (.setQueryCompletion rows) = .ok ()) :
    Tracks HookAct.event? (setQueryCompletion qc rows) h
      (call srv.call (.setQueryCompletion rows)) fun _ _ _ => True := by
  have hset : (setQueryCompletion qc rows : TreeHook A Unit) h
      = .ok () (h ++ [.setQueryCompletion qc rows]) := by
    unfold setQueryCompletion
    rw [if_neg hqc]
    rfl
  unfold Tracks
  rw [hset]
  unfold call
  rw [htag]
  exact ⟨by simp [HookAct.event?], trivial⟩

end

section
variable (srv : TreeServer) (cfg : HookConfig) {args : HookArgs A} {h : List (HookAct A)}

theorem copyFromUrl_tracks (lib : PgchNames) (copy : CopyStmt) (relation url : Bytes)
    (scheme : Scheme) (hqc : args.qc ≠ none)
    (htag : ∀ h rows, srv.call h (.setQueryCompletion rows) = .ok ()) :
    Tracks HookAct.event? (copyFromUrl srv cfg lib copy relation url scheme args) h
      (PgChdb.copyFromUrl srv.toHookServer cfg lib copy relation url scheme) fun _ _ _ => True := by
  have hsame : ∀ {α : Type} {m : Hook α} {p : HookEvent → Bool}, Only p m → ∀ t : List (HookAct A),
      Tracks HookAct.event? (untouched m) t m fun a _ a' => a = a' := fun hm _ =>
    (untouched_tracks srv (.copy copy) hm).mono fun _ _ _ ht => ht.1
  unfold copyFromUrl PgChdb.copyFromUrl
  refine Tracks.bind (hsame (p := fun _ => true) (Only.lift _) h) fun _ t _ _ => ?_
  refine Tracks.bind (hsame (p := fun _ => true) (Only.onlyIf fun _ => Only.call rfl) t)
    fun _ u _ _ => ?_
  refine Tracks.bind (hsame (Only.onlyIf fun _ =>
    checkServerFilePrivileges_only srv.toHookServer copy.isFrom) u) fun _ v _ _ => ?_
  refine Tracks.bind (hsame (openCopyRelation_only srv.toHookServer relation copy.attlist
    copy.isFrom _) v) fun ctx w ctx' hctx => ?_
  subst hctx
  refine Tracks.bind (hsame (p := fun _ => true) (Only.lift _) w) fun r x r' hr => ?_
  subst hr
  refine Tracks.bind (hsame (chdbCopy_only srv.toHookServer lib _) x) fun rows y rows' hrows => ?_
  subst hrows
  refine Tracks.bind (setQueryCompletion_tracks hqc rows htag) fun _ z _ _ => ?_
  exact (hsame (p := fun _ => true) (Only.call rfl) z).mono fun _ _ _ _ => trivial

theorem createFromUrl_tracks (lib : PgchTypes T) (create : CreateStmt)
    (htransform : ∀ create, ∃ create', srv.transform (.create create) = .create create' ∧
      create'.relname = create.relname) :
    Tracks HookAct.event? (createFromUrl srv cfg lib create args) []
      (PgChdb.createFromUrl srv.toHookServer cfg lib create) fun _ _ _ => True := by
  unfold createFromUrl PgChdb.createFromUrl
  generalize htree : (if args.readOnlyTree then TreeRef.copied else .caller) = tree
  -- copying the tree is no event, and leaves the statement in the tree that is edited
  have hcopied : ∃ t : List (HookAct A),
      returns (onlyIf args.readOnlyTree (note HookAct.copyObject) : TreeHook A Unit) []
        = some ((), t) ∧ t.filterMap HookAct.event? = [] ∧
      (srv.trees A (.create create)).after t tree = .create create := by
    by_cases hread : args.readOnlyTree = true
    · refine ⟨[.copyObject], by rw [onlyIf, if_pos hread]; rfl, rfl, ?_⟩
      rw [← htree, if_pos hread]
      rfl
    · exact ⟨[], by rw [onlyIf, if_neg hread]; rfl, rfl, rfl⟩
  obtain ⟨t, ht, hnone, hnow⟩ := hcopied
  refine Tracks.silent ht hnone ?_
  refine Tracks.bind (untouched_tracks srv (.create create) (p := fun _ => true)
    (Only.call rfl)) fun _ u _ hu => ?_
  have hallowed : (srv.trees A (.create create)).after u tree = .create create := by
    rw [hu.2, hnow]
  refine Tracks.bind (createColumnsFromUrl_tracks cfg lib hallowed cfg.context) fun r v r' hv => ?_
  obtain ⟨rfl, hmade⟩ := hv
  refine Tracks.bind (prevProcessUtility_tracks { args with readOnlyTree := false } hmade)
    fun _ w _ hw => ?_
  subst hw
  cases hurl : r'.2.1.copyUrl with
  | none => exact Tracks.pure trivial
  | some url =>
    -- PostgreSQL may have written to the tree, but the table has its name
    obtain ⟨table, htable, hname⟩ := htransform r'.1
    have hnow' : (srv.trees A (.create create)).after
        (v ++ [.prevProcessUtility tree (.create r'.1) { args with readOnlyTree := false }]) tree
          = .create table := by
      rw [trees_concat]
      simp [TreeServer.step, hmade, htable]
    refine Tracks.silent (returns_createAt hnow') rfl ?_
    rw [hname]
    exact (untouched_tracks srv (.create create) (copyUrlInto_only srv.toHookServer cfg
      lib.toPgchNames _ url _)).mono fun _ _ _ _ => trivial

/-- **With the trees left out this is the hook over events**: for a caller with a completion
    tag that is written without an error, and a PostgreSQL that leaves a table its name, the
    events of a run are those of a run of `PgChdb.chDBProcessUtilityHook`, so whatever holds of
    every run there holds here. -/
theorem calls_chDBProcessUtilityHook (lib : PgchTypes T) (stmt : UtilityStmt)
    (hqc : args.qc ≠ none) (htag : ∀ h rows, srv.call h (.setQueryCompletion rows) = .ok ())
    (htransform : ∀ create, ∃ create', srv.transform (.create create) = .create create' ∧
      create'.relname = create.relname) :
    (calls (chDBProcessUtilityHook srv cfg lib stmt args)).filterMap HookAct.event?
      = calls (PgChdb.chDBProcessUtilityHook srv.toHookServer cfg lib stmt) := by
  have hforward : Tracks HookAct.event? (prevProcessUtility srv stmt .caller args) []
      (call srv.call (.prevProcessUtility stmt)) fun _ _ _ => True :=
    (prevProcessUtility_tracks args rfl).mono fun _ _ _ _ => trivial
  refine Tracks.calls (R := fun _ _ _ => True) ?_
  unfold chDBProcessUtilityHook PgChdb.chDBProcessUtilityHook
  cases stmt with
  | other => exact hforward
  | create create =>
    dsimp only
    split
    · exact createFromUrl_tracks srv cfg lib create htransform
    · exact hforward
  | copy copy =>
    dsimp only
    cases copy.relation with
    | none => exact hforward
    | some relation =>
      cases copy.filename with
      | none => exact hforward
      | some url =>
        cases schemeFor cfg.noFileScheme (some url) with
        | none => exact hforward
        | some scheme =>
          dsimp only
          split
          · exact hforward
          · exact copyFromUrl_tracks srv cfg lib.toPgchNames copy relation url scheme hqc htag

end

end PgChdb.InPlace
