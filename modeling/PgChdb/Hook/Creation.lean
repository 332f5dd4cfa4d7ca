import PgChdb.Hook.Load

namespace PgChdb

open CText Fallible Effects

/-!
# Whose relation a table's rows are copied into

A `CREATE TABLE` with `copy_from` looks for a relation of its name, asks chDB for columns,
has PostgreSQL create the table, and then copies rows into the relation of that name.  Other
sessions commit relations and drops of them in between.

* `Catalog` — who created the relation of a name, and the one the statement has open;
* `Interleaving` — what other sessions commit, and between which two events of a run;
  `Interleaving.Governs` — what is relied on of PostgreSQL;
* `Interleaving.LoadsOwn` — rows are copied only into a relation the statement created;
* `createFromUrl_loadsOwn` — so they are, but when `IF NOT EXISTS` finds a relation that was
  not there when the statement looked for it.
-/

variable {T : Type}

/-! ### Relations by name -/

/-- Who created a relation. -/
inductive Creator where
  | another
  | own
  deriving DecidableEq, Repr

/-- What another session commits. -/
inductive Commit where
  | create (relname : Bytes)
  | drop (relname : Bytes)

/-- The relations the statement can see, and the one it has open. -/
structure Catalog where
  rels : Bytes → Option Creator
  opened : Option Creator

/-- A name that is taken cannot be created again, and what this statement created stays. -/
def Catalog.commit (c : Catalog) : Commit → Catalog
  | .create relname =>
    if c.rels relname = none then { c with rels := Function.update c.rels relname (some .another) }
    else c
  | .drop relname =>
    if c.rels relname = some .own then c
    else { c with rels := Function.update c.rels relname none }

/-- `CREATE TABLE` creates a relation of a name that is free, and a relation is opened by its
    name. -/
def Catalog.step (c : Catalog) : HookEvent → Catalog
  | .prevProcessUtility (.create create) =>
    if c.rels create.relname = none then
      { c with rels := Function.update c.rels create.relname (some .own) }
    else c
  | .tableOpen _ rel => { c with opened := c.rels rel.relname }
  | _ => c

/-- The names taken before the statement, and what other sessions commit before each event of
    its run. -/
structure Interleaving where
  taken : Bytes → Bool
  commits : ℕ → List Commit

/-- The catalog, as the run and the other sessions change it. -/
def Interleaving.world (il : Interleaving) : World HookEvent Catalog where
  start := { rels := fun relname => if il.taken relname then some .another else none
             opened := none }
  others n c := (il.commits n).foldl Catalog.commit c
  step := Catalog.step

/-- What is relied on of PostgreSQL: the existence check and opening a relation see the
    catalog, and `CREATE TABLE` raises over a name that is taken.  Under `IF NOT EXISTS` it may
    return, having created nothing. -/
structure Interleaving.Governs (il : Interleaving) (srv : HookServer) : Prop where
  lookup : ∀ h relname found, srv.relnameLookup h relname = .ok found →
    found = ((il.world.now h).rels relname).isSome
  create : ∀ h create, srv.call h (.prevProcessUtility (.create create)) = .ok () →
    create.ifNotExists = false → (il.world.now h).rels create.relname = none
  tableOpen : ∀ h relname isFrom rel, srv.tableOpen h relname isFrom = .ok rel →
    rel.relname = relname ∧ ((il.world.now h).rels relname).isSome

/-- Rows were copied only into a relation this statement created. -/
def Interleaving.LoadsOwn (il : Interleaving) : List HookEvent → Prop :=
  Permits fun pre e => ∀ rows, e = .copied rows → (il.world.after pre).opened = some .own

/-- Whenever a table was to be created `IF NOT EXISTS`, its name was free. -/
def Interleaving.CreatesFresh (il : Interleaving) : List HookEvent → Prop :=
  Permits fun pre e => ∀ create, e = .prevProcessUtility (.create create) →
    create.ifNotExists = true → (il.world.now pre).rels create.relname = none

/-- No copy has been completed. -/
def CopiesNone (t : List HookEvent) : Prop := ∀ rows, HookEvent.copied rows ∉ t

/-! ### What stays -/

section
variable (il : Interleaving)

theorem commit_opened (c : Catalog) (e : Commit) : (c.commit e).opened = c.opened := by
  unfold Catalog.commit
  split <;> split <;> rfl

/-- Another session neither makes a relation the statement's own nor takes one that is. -/
theorem commit_own (c : Catalog) (e : Commit) (relname : Bytes) :
    (c.commit e).rels relname = some .own ↔ c.rels relname = some .own := by
  unfold Catalog.commit
  cases e with
  | create other =>
    dsimp only
    split
    · rename_i hfree
      by_cases hname : relname = other
      · subst hname
        simp [hfree]
      · simp [Function.update_of_ne hname]
    · rfl
  | drop other =>
    dsimp only
    split
    · rfl
    · rename_i hother
      -- the name that was freed, or another
      by_cases hname : relname = other
      · subst hname
        simp [hother]
      · simp [Function.update_of_ne hname]

/-- What other sessions leave alone: the open relation, and which relations are the
    statement's own. -/
theorem Interleaving.others_keep (n : ℕ) (c : Catalog) :
    (il.world.others n c).opened = c.opened ∧
      ∀ relname, (il.world.others n c).rels relname = some .own ↔ c.rels relname = some .own := by
  show ((il.commits n).foldl Catalog.commit c).opened = _ ∧
    ∀ relname, ((il.commits n).foldl Catalog.commit c).rels relname = _ ↔ _
  -- one commit after the other
  induction il.commits n generalizing c with
  | nil => exact ⟨rfl, fun _ => Iff.rfl⟩
  | cons e es ih =>
    obtain ⟨hopened, hown⟩ := ih (c.commit e)
    rw [List.foldl_cons]
    refine ⟨hopened.trans (commit_opened c e), fun relname => ?_⟩
    exact (hown relname).trans (commit_own c e relname)

variable {il} {h t : List HookEvent}

/-- Only a creation makes a relation the statement's own. -/
theorem Interleaving.own_of_grown (ht : Grown HookEvent.prepares h t) (relname : Bytes) :
    (il.world.after t).rels relname = some .own ↔ (il.world.after h).rels relname = some .own := by
  refine World.after_of_grown (I := fun c : Catalog => c.rels relname = some .own ↔
    (il.world.after h).rels relname = some .own) (fun n c hc => ?_) (fun c e he hc => ?_) ht Iff.rfl
  · exact ((il.others_keep n c).2 relname).trans hc
  · cases e with
    | prevProcessUtility stmt => cases he
    | _ => exact hc

theorem CopiesNone.grown (hh : CopiesNone h) (ht : Grown HookEvent.prepares h t) :
    CopiesNone t := by
  obtain ⟨es, rfl, hes⟩ := ht
  intro rows hmem
  rcases List.mem_append.mp hmem with hold | hnew
  · exact hh rows hold
  · cases hes _ hnew

theorem Interleaving.createsFresh_grown (ht : Grown HookEvent.prepares h t) :
    il.CreatesFresh t ↔ il.CreatesFresh h := by
  apply permits_grown _ ht
  intro pre e he create hcreates
  rw [hcreates] at he
  cases he

/-- Nothing that opens a relation. -/
def HookEvent.opensNone : HookEvent → Bool
  | .tableOpen _ _ => false
  | _ => true

/-- The relation a statement opened stays the one it has open. -/
theorem Interleaving.opened_of_grown (ht : Grown HookEvent.opensNone h t) :
    (il.world.after t).opened = (il.world.after h).opened := by
  refine World.after_of_grown (I := fun c : Catalog => c.opened = (il.world.after h).opened)
    (fun n c hc => ?_) (fun c e he hc => ?_) ht rfl
  · rw [(il.others_keep n c).1, hc]
  · cases e with
    | tableOpen isFrom rel => cases he
    | prevProcessUtility stmt =>
      rw [← hc]
      show (Catalog.step c (.prevProcessUtility stmt)).opened = c.opened
      cases stmt with
      | create create =>
        unfold Catalog.step
        dsimp only
        split <;> rfl
      | copy copy => rfl
      | other => rfl
    | _ => exact hc

/-- Without a copy there is nothing to go wrong. -/
theorem CopiesNone.loadsOwn (hh : CopiesNone h) : il.LoadsOwn h := by
  intro pre e post hsplit rows hcopied
  rw [hcopied] at hsplit
  exact absurd (by simp [hsplit]) (hh rows)

end

/-! ### The copy into the table -/

theorem Interleaving.loadsOwn_concat {il : Interleaving} {t : List HookEvent} {e : HookEvent} :
    il.LoadsOwn (t ++ [e]) ↔ il.LoadsOwn t ∧
      ∀ rows, e = .copied rows → (il.world.after t).opened = some .own :=
  permits_concat

theorem Interleaving.createsFresh_concat {il : Interleaving} {t : List HookEvent} {e : HookEvent} :
    il.CreatesFresh (t ++ [e]) ↔ il.CreatesFresh t ∧
      ∀ create, e = .prevProcessUtility (.create create) → create.ifNotExists = true →
        (il.world.now t).rels create.relname = none :=
  permits_concat

section
variable {il : Interleaving} {relname : Bytes} {own : Prop} {h t : List HookEvent}

/-- The table was asked for, and it is the statement's own exactly when its name was free. -/
structure Created (il : Interleaving) (relname : Bytes) (own : Prop) (t : List HookEvent) :
    Prop where
  rels : (il.world.after t).rels relname = some .own ↔ own
  fresh : il.CreatesFresh t ↔ own
  copies : CopiesNone t

theorem Created.grown (hh : Created il relname own h) (ht : Grown HookEvent.prepares h t) :
    Created il relname own t :=
  ⟨(il.own_of_grown ht relname).trans hh.rels, (il.createsFresh_grown ht).trans hh.fresh,
    hh.copies.grown ht⟩

/-- The relation of the name is the one the statement has open. -/
structure Opened (il : Interleaving) (relname : Bytes) (own : Prop) (t : List HookEvent) : Prop
    extends Created il relname own t where
  opened : (il.world.after t).opened = some .own ↔ own

theorem Created.opens {isFrom : Bool} {rel : CopyRelation} (hh : Created il relname own h)
    (hname : rel.relname = relname) : Opened il relname own (h ++ [.tableOpen isFrom rel]) := by
  refine ⟨hh.grown (Grown.single rfl h), ?_⟩
  rw [World.after_concat]
  -- the relation is the one of its name when it is opened, commits in between included
  show (il.world.now h).rels rel.relname = some .own ↔ own
  rw [hname]
  exact ((il.others_keep h.length _).2 relname).trans hh.rels

/-- Other events leave it open. -/
theorem Opened.grown {es : List HookEvent} (hh : Opened il relname own h)
    (hes : ∀ e ∈ es, (e.prepares && e.opensNone) = true) : Opened il relname own (h ++ es) := by
  have hboth : ∀ e ∈ es, e.prepares = true ∧ e.opensNone = true :=
    fun e he => Bool.and_eq_true_iff.mp (hes e he)
  refine ⟨hh.toCreated.grown ⟨es, rfl, fun e he => (hboth e he).1⟩, ?_⟩
  rw [Interleaving.opened_of_grown ⟨es, rfl, fun e he => (hboth e he).2⟩]
  exact hh.opened

/-- A run went wrong only by completing a copy after `IF NOT EXISTS` found the name taken. -/
def Interleaving.Verdict (il : Interleaving) (t : List HookEvent) : Prop :=
  il.LoadsOwn t ↔ il.CreatesFresh t ∨ CopiesNone t

theorem CopiesNone.verdict (hh : CopiesNone h) : il.Verdict h :=
  iff_of_true hh.loadsOwn (Or.inr hh)

/-- PostgreSQL returned from creating the table. -/
theorem created_of_prevProcessUtility {srv : HookServer} (hsrv : il.Governs srv)
    {create : CreateStmt} (hcopies : CopiesNone h) (hfresh : il.CreatesFresh h)
    (hnone : (il.world.after h).rels create.relname ≠ some .own)
    (hok : srv.call h (.prevProcessUtility (.create create)) = .ok ()) :
    Created il create.relname ((il.world.now h).rels create.relname = none)
      (h ++ [.prevProcessUtility (.create create)]) := by
  constructor
  · rw [World.after_concat]
    show (Catalog.step _ (.prevProcessUtility (.create create))).rels _ = _ ↔ _
    unfold Catalog.step
    dsimp only
    split
    · rename_i hfree
      simp [hfree]
    · rename_i htaken
      -- the name was taken by another session, whose relation it stays
      refine iff_of_false (fun hown => hnone ?_) htaken
      exact ((il.others_keep h.length _).2 create.relname).mp hown
  · rw [Interleaving.createsFresh_concat]
    constructor
    · rintro ⟨_, hcreates⟩
      -- without `IF NOT EXISTS` it would have raised over a name that is taken
      by_cases hexists : create.ifNotExists = true
      · exact hcreates create rfl hexists
      · exact hsrv.create h create hok (by simpa using hexists)
    · intro hfree
      refine ⟨hfresh, fun create' hcreates _ => ?_⟩
      cases hcreates
      exact hfree
  · intro rows hmem
    simp at hmem
    exact hcopies rows hmem

/-- A copy that was completed. -/
structure Copied (il : Interleaving) (own : Prop) (t : List HookEvent) : Prop where
  loads : il.LoadsOwn t ↔ own
  fresh : il.CreatesFresh t ↔ own
  copied : ∃ rows, .copied rows ∈ t

theorem Copied.verdict (hh : Copied il own h) : il.Verdict h := by
  obtain ⟨rows, hcopied⟩ := hh.copied
  -- with a copy that is done, only the first of the two ways is left
  have hsome : ¬ CopiesNone h := fun hnone => hnone rows hcopied
  exact hh.loads.trans (hh.fresh.symm.trans (or_iff_left hsome).symm)

/-- The rows go into the relation that is open, whoever created it. -/
theorem chdbCopy_verdict (srv : HookServer) (lib : PgchNames) (ctx : ChdbCopyContext)
    (hh : Opened il relname own h) :
    wp (chdbCopy srv lib ctx) (fun _ => Copied il own) il.Verdict h := by
  unfold chdbCopy
  rw [wp_bind, wp_note, wp_bind]
  have hentered : Opened il relname own (h ++ [.chdbCopy ctx]) :=
    hh.grown (by simp [HookEvent.prepares, HookEvent.opensNone])
  refine wp_lift (fun query _ => ?_) hentered.copies.verdict
  have hstarted : Opened il relname own
      (h ++ [.chdbCopy ctx] ++ [.startHelper ctx.helper query]) :=
    hentered.grown (by simp [HookEvent.prepares, HookEvent.opensNone])
  rw [wp_bind]
  refine wp_call ?_ hstarted.copies.verdict
  refine wp_ask (fun rows _ => ?_) hstarted.copies.verdict
  generalize h ++ [.chdbCopy ctx] ++ [.startHelper ctx.helper query] = u at hstarted ⊢
  refine ⟨?_, ?_, rows, by simp⟩
  · rw [Interleaving.loadsOwn_concat, and_iff_right hstarted.copies.loadsOwn, ← hstarted.opened]
    exact ⟨fun hown => hown rows rfl, fun hown _ _ => hown⟩
  · rw [Interleaving.createsFresh_concat, and_iff_left (by simp)]
    exact hstarted.fresh

/-- The copy into the table completes, or nothing is copied. -/
theorem copyUrlInto_verdict {srv : HookServer} (hsrv : il.Governs srv) (cfg : HookConfig)
    (lib : PgchNames) (url : Bytes) (ctx : ChdbCopyContext) (hh : Created il relname own h) :
    wp (copyUrlInto srv cfg lib relname url ctx) (fun _ => Copied il own) il.Verdict h := by
  unfold copyUrlInto
  rw [wp_bind]
  refine wp_mono (optionUrlScheme_wp srv h cfg url copyFromOption) (fun scheme t hscheme => ?_)
    (fun t ht => (hh.grown (ht.weaken HookEvent.prepares_of_isCheck)).copies.verdict)
  obtain ⟨_, hchecks, _⟩ := hscheme
  have ht := hh.grown (hchecks.weaken HookEvent.prepares_of_isCheck)
  rw [wp_bind]
  have hvisible : Created il relname own (t ++ [.commandCounterIncrement]) :=
    ht.grown (Grown.single rfl t)
  refine wp_call ?_ hvisible.copies.verdict
  rw [wp_bind]
  -- a relation that is refused is not copied into
  refine wp_mono (openCopyRelation_wp srv _ relname [] true _) (fun sel u hsel => ?_)
    (fun u hu => (hvisible.grown (hu.weaken HookEvent.prepares_of_isCheck)).copies.verdict)
  obtain ⟨rel, attnums, hrel, _, rfl, _⟩ := hsel
  have hopened : Opened il relname own (t ++ [.commandCounterIncrement] ++ [.tableOpen true rel] ++
      [.execCheckPermissions rel true attnums, .checkEnableRls rel false]) :=
    (hvisible.opens (hsrv.tableOpen _ _ _ _ hrel).1).grown
      (by simp [HookEvent.prepares, HookEvent.opensNone])
  rw [List.append_assoc _ [HookEvent.tableOpen true rel], List.singleton_append] at hopened
  rw [wp_bind]
  refine wp_mono (chdbCopy_verdict srv lib sel hopened) (fun rows w hw => ?_) fun w hw => hw
  have hclosed : Copied il own (w ++ [.tableClose]) := by
    obtain ⟨rows, hcopied⟩ := hw.copied
    constructor
    · rw [Interleaving.loadsOwn_concat, and_iff_left (by simp)]
      exact hw.loads
    · rw [Interleaving.createsFresh_concat, and_iff_left (by simp)]
      exact hw.fresh
    · exact ⟨rows, List.mem_append_left _ hcopied⟩
  exact wp_call hclosed hclosed.verdict

end

/-! ### The whole statement -/

section
variable (srv : HookServer) (cfg : HookConfig)

/-- Until PostgreSQL is asked for the table nothing is created and nothing copied. -/
theorem createColumnsFromUrl_only (lib : PgchTypes T) (create : CreateStmt)
    (ctx : ChdbCopyContext) :
    Only HookEvent.prepares (createColumnsFromUrl srv cfg lib create ctx) := by
  unfold createColumnsFromUrl
  refine Only.bind (Only.lift _) fun taken => ?_
  refine Only.bind (Only.lift _) fun urls => ?_
  refine Only.bind (Only.ask fun _ => rfl) fun found => ?_
  refine Only.bind (Only.lift _) fun _ => ?_
  refine Only.bind (Only.lift _) fun contextualized => ?_
  dsimp only
  cases urls.structureUrl with
  | none => exact Only.pure _
  | some url =>
    have hscheme := (optionUrlScheme_only srv cfg url structureFromOption).mono
      HookEvent.prepares_of_isCheck
    refine Only.bind hscheme fun scheme => ?_
    refine Only.bind (chdbDescribe_only srv _) fun described => ?_
    exact Only.bind (Only.lift _) fun _ => Only.pure _

/-- What it leaves to be copied is the URL of the option. -/
theorem createColumnsFromUrl_copyUrl (lib : PgchTypes T) {create : CreateStmt}
    (hcopy : ∃ elem ∈ create.options, elem.defname = copyFromOption) (ctx : ChdbCopyContext)
    (h : List HookEvent) :
    wp (createColumnsFromUrl srv cfg lib create ctx)
      (fun r _ => ∃ url, r.2.1.copyUrl = some url) (fun _ => True) h := by
  unfold createColumnsFromUrl
  rw [wp_bind]
  refine wp_lift (fun ⟨create', urls⟩ htake => ?_) trivial
  rw [wp_bind]
  refine wp_lift (fun urls' hcheck => ?_) trivial
  have hurl := takeUrlOptions_copyUrl htake hcheck hcopy
  rw [wp_bind]
  refine wp_ask (fun found _ => ?_) trivial
  rw [wp_bind]
  refine wp_lift (fun _ _ => ?_) trivial
  rw [wp_bind]
  refine wp_lift (fun ⟨ctx, storage⟩ _ => ?_) trivial
  dsimp only
  cases urls'.structureUrl with
  | none => exact hurl
  | some url =>
    dsimp only
    rw [wp_bind]
    refine wp_mono (optionUrlScheme_wp srv _ cfg url structureFromOption)
      (fun scheme t _ => ?_) fun _ _ => trivial
    rw [wp_bind]
    refine wp_mono (chdbDescribe_wp srv _ t) (fun described u _ => ?_) fun _ _ => trivial
    rw [wp_bind]
    exact wp_lift (fun _ _ => hurl) trivial

end

section
variable {il : Interleaving} {srv : HookServer}

/-- Nothing is the statement's own before it creates something. -/
theorem Interleaving.own_nil (il : Interleaving) (relname : Bytes) :
    (il.world.after []).rels relname ≠ some .own := by
  show (if il.taken relname then some Creator.another else none) ≠ some .own
  split <;> simp

/-- Every run of a table that is loaded ends in one of the two ways. -/
theorem createFromUrl_verdict (hsrv : il.Governs srv) (cfg : HookConfig) (lib : PgchTypes T)
    {create : CreateStmt} (hcopy : ∃ elem ∈ create.options, elem.defname = copyFromOption) :
    wp (createFromUrl srv cfg lib create)
      (fun _ t => il.Verdict t ∧ ∃ rows, .copied rows ∈ t) il.Verdict [] := by
  have hpending : ∀ {t : List HookEvent}, Grown HookEvent.prepares [] t → CopiesNone t := by
    intro t ht
    apply CopiesNone.grown _ ht
    simp [CopiesNone]
  unfold createFromUrl
  rw [wp_bind]
  have hreadOnly : Grown HookEvent.prepares [] [.preventCommandIfReadOnly (lit "CREATE TABLE")] :=
    Grown.single rfl []
  refine wp_call ?_ (hpending hreadOnly).verdict
  rw [wp_bind]
  refine wp_mono (wp_and (createColumnsFromUrl_copyUrl srv cfg lib hcopy cfg.context _)
    (createColumnsFromUrl_only srv cfg lib create cfg.context _))
    (fun ⟨create', urls, ctx⟩ t ht => ?_) fun t ht => (hpending (hreadOnly.trans ht.2)).verdict
  obtain ⟨⟨url, hurl⟩, hgrown⟩ := ht
  have ht := hreadOnly.trans hgrown
  -- nothing has been created so far
  have hfresh : il.CreatesFresh t := by
    apply (il.createsFresh_grown ht).mpr
    intro pre e post hsplit
    simp at hsplit
  have hnone : (il.world.after t).rels create'.relname ≠ some .own := by
    rw [Ne, il.own_of_grown ht]
    exact il.own_nil create'.relname
  have hraised : CopiesNone (t ++ [.prevProcessUtility (.create create')]) := by
    intro rows hmem
    simp at hmem
    exact hpending ht rows hmem
  rw [wp_bind]
  refine wp_call_ok (fun hok => ?_) hraised.verdict
  have hcreated := created_of_prevProcessUtility hsrv (hpending ht) hfresh hnone hok
  rw [show urls.copyUrl = some url from hurl]
  refine wp_mono (copyUrlInto_verdict hsrv cfg lib.toPgchNames url ctx hcreated)
    (fun _ u hu => ⟨hu.verdict, hu.copied⟩) fun u hu => hu

/-- **A table is loaded only if the statement created it, but for one race.**  Over every run
    of the hook for a table with `copy_from`, however the steps of the statement and the commits
    of other sessions interleave: if `IF NOT EXISTS` did not meet a name that had been taken by
    the time PostgreSQL was asked for the table, rows are copied only into a relation the
    statement created, and a run that returns has copied them.  If it did, and the copy is
    completed, the rows are in a relation of another session. -/
theorem createFromUrl_loadsOwn (hsrv : il.Governs srv) (cfg : HookConfig) (lib : PgchTypes T)
    {create : CreateStmt} (hcopy : ∃ elem ∈ create.options, elem.defname = copyFromOption) :
    let t := calls (chDBProcessUtilityHook srv cfg lib (.create create))
    (il.CreatesFresh t → wp (chDBProcessUtilityHook srv cfg lib (.create create))
      (fun _ t => il.LoadsOwn t ∧ ∃ rows, .copied rows ∈ t) il.LoadsOwn []) ∧
    (¬ il.CreatesFresh t → ∀ rows, .copied rows ∈ t → ¬ il.LoadsOwn t) := by
  intro t
  have hfrom : chdbCreatesFromUrl create = true := by
    obtain ⟨elem, hmem, hname⟩ := hcopy
    exact List.any_eq_true.mpr ⟨elem, hmem, by simp [hname]⟩
  have hhook : chDBProcessUtilityHook srv cfg lib (.create create)
      = createFromUrl srv cfg lib create := if_pos hfrom
  have hends := createFromUrl_verdict hsrv cfg lib hcopy
  rw [← hhook] at hends
  have hverdict : il.Verdict t := wp_calls (wp_mono hends (fun _ _ ht => ht.1) fun _ ht => ht)
  have hreturns := wp_mono hends (fun _ _ ht => ht.2) fun _ _ => trivial
  constructor
  · intro hfresh
    have hloads : il.LoadsOwn t := hverdict.mpr (Or.inl hfresh)
    exact wp_mono ((wp_and_iff_calls hreturns).mpr hloads) (fun _ _ ht => ht) fun _ ht => ht.1
  · intro hnot rows hcopied hloads
    rcases hverdict.mp hloads with hfresh | hnone
    -- a copy was made, so the other way is excluded
    · exact hnot hfresh
    · exact hnone rows hcopied

end

/-! ### Two interleavings -/

/-- A server that answers by the catalog, and on which nothing else fails. -/
def catalogServer (il : Interleaving) (columns : List ChdbDescribedColumn) : HookServer :=
  { plainServer columns with
    call := fun h e =>
      match e with
      | .prevProcessUtility (.create create) =>
        raiseIf (((il.world.now h).rels create.relname).isSome && !create.ifNotExists)
          (relationExists create)
      | _ => .ok ()
    relnameLookup := fun h relname => .ok ((il.world.now h).rels relname).isSome
    tableOpen := fun h relname _ => do
      raiseIf ((il.world.now h).rels relname).isNone
        { errcode := .internalError
          errmsg := lit "relation \"" ++ relname ++ lit "\" does not exist" }
      return { relname, relkind := byte 'r', attrs := [intAttribute (lit "id")] }
    copied := fun _ => .ok 2 }

theorem catalogServer_governed (il : Interleaving) (columns : List ChdbDescribedColumn) :
    il.Governs (catalogServer il columns) := by
  constructor
  · intro h relname found hlookup
    exact (Except.ok.inj hlookup).symm
  · intro h create hok hexists
    have hfree := raiseIf_eq_ok.mp hok
    simpa [hexists] using hfree
  · intro h relname isFrom rel hopen
    simp only [catalogServer, bind_eq_ok, pure_eq_ok] at hopen
    obtain ⟨_, hfound, rfl⟩ := hopen
    have hsome := raiseIf_eq_ok.mp hfound
    exact ⟨rfl, by simpa [Option.isSome_iff_ne_none] using hsome⟩

/-- The name is dropped before the statement looks for it, and wanted again while the table
    is loaded. -/
def undisturbed : Interleaving where
  taken relname := relname = lit "t"
  commits n := if n = 1 then [.drop (lit "t")] else if n = 7 then [.create (lit "t")] else []

/-- A relation of the name is committed while chDB is asked for the columns. -/
def committedMeanwhile : Interleaving where
  taken _ := false
  commits n := if n = 3 then [.create (lit "t")] else []

theorem createFromUrl_loadsOwn_undisturbed :
    let m := chDBProcessUtilityHook
      (catalogServer undisturbed [{ name := lit "a", type := lit "String" }]) plainConfig
      (textTypes some) (.create (createFrom []))
    (undisturbed.CreatesFresh (calls m) → wp m
      (fun _ t => undisturbed.LoadsOwn t ∧ ∃ rows, .copied rows ∈ t) undisturbed.LoadsOwn []) ∧
    (¬ undisturbed.CreatesFresh (calls m) → ∀ rows, .copied rows ∈ calls m →
      ¬ undisturbed.LoadsOwn (calls m)) :=
  createFromUrl_loadsOwn (catalogServer_governed undisturbed _) plainConfig (textTypes some)
    ⟨textOption copyFromOption (lit "https://h/t.json"), List.mem_cons_self, rfl⟩

/-- The rows of a copy that is done. -/
def HookEvent.rows : HookEvent → Option ℕ
  | .copied rows => some rows
  | _ => none

theorem HookEvent.rows_eq_some {e : HookEvent} {rows : ℕ} (h : e.rows = some rows) :
    e = .copied rows := by
  cases e <;> cases h
  rfl

/-- `CREATE TABLE IF NOT EXISTS t () WITH (copy_from = …)` copies rows into a relation another
    session created after the statement looked for one. -/
theorem createFromUrl_loads_another :
    ¬ ∀ (il : Interleaving) (srv : HookServer), il.Governs srv → ∀ (cfg : HookConfig)
      (lib : PgchTypes Bytes) (create : CreateStmt),
      (∃ elem ∈ create.options, elem.defname = copyFromOption) →
      wp (chDBProcessUtilityHook srv cfg lib (.create create))
        (fun _ t => il.LoadsOwn t ∧ ∃ rows, .copied rows ∈ t) il.LoadsOwn [] := by
  intro h
  have hrun := h committedMeanwhile _
    (catalogServer_governed committedMeanwhile [{ name := lit "a", type := lit "String" }])
    plainConfig (textTypes some) { createFrom [] with ifNotExists := true }
    ⟨textOption copyFromOption (lit "https://h/t.json"), List.mem_cons_self, rfl⟩
  have hloads := wp_calls (wp_mono hrun (fun _ _ ht => ht.1) fun _ ht => ht)
  have hrows : ((calls (chDBProcessUtilityHook
      (catalogServer committedMeanwhile [{ name := lit "a", type := lit "String" }]) plainConfig
      (textTypes some) (.create { createFrom [] with ifNotExists := true })))[11]?.bind
        HookEvent.rows) = some 2 := by decide +kernel
  have hopened : (committedMeanwhile.world.after ((calls (chDBProcessUtilityHook
      (catalogServer committedMeanwhile [{ name := lit "a", type := lit "String" }]) plainConfig
      (textTypes some) (.create { createFrom [] with ifNotExists := true }))).take 11)).opened
        = some .another := by decide +kernel
  obtain ⟨e, he, hcopied⟩ := Option.bind_eq_some_iff.mp hrows
  have hown := hloads.at he 2 (HookEvent.rows_eq_some hcopied)
  rw [hopened] at hown
  cases hown

end PgChdb
