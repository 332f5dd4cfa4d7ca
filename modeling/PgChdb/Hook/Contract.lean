import PgChdb.Hook.InPlace

namespace PgChdb.InPlace

open CText Fallible Effects

/-!
# What a caller of the hook relies on

* `Forwards` — which statements are handed on to `PrevProcessUtility`, how often and with what,
  and that a read-only tree is left as it was;
* `WritesTag` — the completion tag is written only where there is one;
* `Contract` — both, over a call and over a second one with the same tree;
* `chDBProcessUtilityHook_keeps_iff` — the hook keeps it, but for the tag of a `COPY`.
-/

variable {T A : Type}

/-! ### The contract -/

/-- A statement the hook takes over: a `COPY` of a relation from or to a URL, or a
    `CREATE TABLE` with a URL option. -/
def handled (cfg : HookConfig) : UtilityStmt → Bool
  | .copy copy => copy.relation.isSome && !copy.isProgram &&
      (schemeFor cfg.noFileScheme copy.filename).isSome
  | .create create => chdbCreatesFromUrl create
  | .other => false

/-- A call of `PrevProcessUtility`. -/
def HookAct.forwards : HookAct A → Bool
  | .prevProcessUtility _ _ _ => true
  | .event (.prevProcessUtility _) => true
  | _ => false

/-- What a caller relies on, but for the completion tag, of a call that has returned or
    raised. -/
structure Forwards (srv : TreeServer) (cfg : HookConfig) (stmt : UtilityStmt) (args : HookArgs A)
    (returned : Bool) (t : List (HookAct A)) : Prop where
  other : handled cfg stmt = false → t = [.prevProcessUtility .caller stmt args]
  copy : ∀ copy, stmt = .copy copy → handled cfg stmt → t.countP HookAct.forwards = 0
  create : ∀ create, stmt = .create create → handled cfg stmt →
    t.countP HookAct.forwards ≤ 1 ∧ (returned → t.countP HookAct.forwards = 1) ∧
      ∀ tree now args', .prevProcessUtility tree now args' ∈ t →
        args'.rest = args.rest ∧ args'.qc = args.qc ∧
          ∃ create', now = .create create' ∧ create'.options = optionsLeft create.options
  caller : args.readOnlyTree → (srv.trees A stmt).after t .caller = stmt

/-- The completion tag is written only where there is one. -/
def WritesTag (t : List (HookAct A)) : Prop := ∀ rows, HookAct.setQueryCompletion none rows ∉ t

/-- The contract of `ProcessUtility`: over the whole call, returning or raising, and over a
    second call with the tree a read-only one left, which does what a call with the first tree
    does. -/
structure Contract (srv : TreeServer) (cfg : HookConfig) (lib : PgchTypes T) (stmt : UtilityStmt)
    (args : HookArgs A) : Prop where
  run : wp (chDBProcessUtilityHook srv cfg lib stmt args)
    (fun _ t => WritesTag t ∧ Forwards srv cfg stmt args true t)
    (fun t => WritesTag t ∧ Forwards srv cfg stmt args false t) []
  again : args.readOnlyTree → ∀ srv' : TreeServer,
    calls (chDBProcessUtilityHook srv' cfg lib ((srv.trees A stmt).after
        (calls (chDBProcessUtilityHook srv cfg lib stmt args)) .caller) args)
      = calls (chDBProcessUtilityHook srv' cfg lib stmt args)

/-! ### A statement that is handed on -/

section
variable (srv : TreeServer) (cfg : HookConfig) (args : HookArgs A)

/-- The tree is handed on as it is. -/
theorem prevProcessUtility_wp (stmt : UtilityStmt) (tree : TreeRef) {h : List (HookAct A)}
    {P : List (HookAct A) → Prop}
    (hP : P (h ++ [.prevProcessUtility tree ((srv.trees A stmt).after h tree) args])) :
    wp (prevProcessUtility srv stmt tree args) (fun _ => P) P h := by
  unfold prevProcessUtility
  rw [wp_bind, wp_observe]
  exact wp_call hP hP

theorem forwards_of_other {stmt : UtilityStmt} (hother : handled cfg stmt = false)
    (returned : Bool) :
    Forwards srv cfg stmt args returned [.prevProcessUtility .caller stmt args] := by
  -- the parts about statements that are handled have nothing to say
  have hnot : handled cfg stmt = true → False := by simp [hother]
  constructor
  · intro _
    rfl
  · intro _ _ hhandled
    exact (hnot hhandled).elim
  · intro _ _ hhandled
    exact (hnot hhandled).elim
  · intro hread
    exact caller_of_spares (by simp [spares, hread])

end

/-! ### A copy -/

/-- What a `COPY` has done: events, and the tag if a copy is done. -/
structure CopyActs (args : HookArgs A) (t : List (HookAct A)) : Prop where
  acts : ∀ a ∈ t, (∃ e, a = .event e ∧ ∀ stmt, e ≠ .prevProcessUtility stmt) ∨
    ∃ rows, a = .setQueryCompletion args.qc rows
  tag : (∃ rows, .setQueryCompletion args.qc rows ∈ t) ↔ ∃ rows, .event (.copied rows) ∈ t

section
variable {args : HookArgs A} {h t : List (HookAct A)}

/-- Other events change nothing. -/
theorem CopyActs.grown (hh : CopyActs args h) (ht : Grown prepares h t) : CopyActs args t := by
  apply ht.induction _ hh
  intro u a ha hu
  obtain ⟨e, rfl, he⟩ := exists_of_prepares ha
  constructor
  · intro a' ha'
    rcases List.mem_append.mp ha' with hold | hnew
    · exact hu.acts a' hold
    · rw [List.mem_singleton] at hnew
      refine Or.inl ⟨e, hnew, ?_⟩
      rintro stmt rfl
      cases he
  · have hcopied : ∀ rows, e ≠ .copied rows := by
      rintro rows rfl
      cases he
    simpa [fun rows => (hcopied rows).symm] using hu.tag

theorem CopyActs.nil : CopyActs args [] := ⟨by simp, by simp⟩

/-- The tag is written with the copy. -/
theorem CopyActs.done (hh : CopyActs args h) (rows : ℕ) :
    CopyActs args (h ++ [.event (.copied rows)] ++ [.setQueryCompletion args.qc rows]) := by
  constructor
  · intro a ha
    simp only [List.mem_append, List.mem_singleton] at ha
    rcases ha with (hold | hcopied) | htag
    · exact hh.acts a hold
    · exact Or.inl ⟨_, hcopied, by simp⟩
    · exact Or.inr ⟨rows, htag⟩
  · exact iff_of_true ⟨rows, by simp⟩ ⟨rows, by simp⟩

/-- A part of the hook with no copy in it. -/
theorem untouched_acts {α : Type} {m : Hook α} (hm : Only HookEvent.prepares m)
    (hh : CopyActs args h) :
    wp (untouched m) (fun _ => CopyActs args) (CopyActs args) h :=
  wp_mono (untouched_wp hm h) (fun _ _ ht => hh.grown ht) fun _ ht => hh.grown ht

/-- The whole of a `COPY`. -/
theorem copyFromUrl_acts (srv : TreeServer) (cfg : HookConfig) (lib : PgchNames) (copy : CopyStmt)
    (relation url : Bytes) (scheme : Scheme) (hh : CopyActs args h) :
    wp (copyFromUrl srv cfg lib copy relation url scheme args) (fun _ => CopyActs args)
      (CopyActs args) h := by
  have hchecks : ∀ {α : Type} {m : Hook α}, Only HookEvent.isCheck m → Only HookEvent.prepares m :=
    fun hm => hm.mono HookEvent.prepares_of_isCheck
  unfold copyFromUrl
  rw [wp_bind]
  refine wp_mono (untouched_acts (Only.lift _) hh) (fun _ t ht => ?_) fun _ he => he
  rw [wp_bind]
  refine wp_mono (untouched_acts (Only.onlyIf fun _ => Only.call rfl) ht) (fun _ u hu => ?_)
    fun _ he => he
  rw [wp_bind]
  have hrole : Only HookEvent.prepares
      (onlyIf (scheme = .file) (checkServerFilePrivileges srv.toHookServer copy.isFrom)) :=
    Only.onlyIf fun _ => hchecks (checkServerFilePrivileges_only srv.toHookServer copy.isFrom)
  refine wp_mono (untouched_acts hrole hu) (fun _ v hv => ?_) fun _ he => he
  rw [wp_bind]
  have hopen := hchecks (openCopyRelation_only srv.toHookServer relation copy.attlist copy.isFrom
    { cfg.context with scheme, cmdType := if copy.isFrom then .select else .insert, url })
  refine wp_mono (untouched_acts hopen hv) (fun ctx w hw => ?_) fun _ he => he
  rw [wp_bind]
  refine wp_mono (untouched_acts (Only.lift _) hw) (fun ⟨ctx, _⟩ x hx => ?_) fun _ he => he
  rw [wp_bind]
  have hcopy : wp (untouched (chdbCopy srv.toHookServer lib ctx))
      (fun rows t => ∃ u, CopyActs args u ∧ t = u ++ [.event (.copied rows)])
      (CopyActs args) x := by
    refine wp_within (wp_mono (chdbCopy_wp srv.toHookServer lib ctx _) (fun rows t ht => ?_)
      fun t ht => ?_)
    · obtain ⟨u, ⟨es, rfl, hes⟩, rfl⟩ := ht
      -- the last event of a copy that returns is that it is done
      refine ⟨es ++ [.copied rows], by simp, x ++ es.map .event, ?_, by simp⟩
      exact hx.grown ⟨_, rfl, by simpa [prepares] using hes⟩
    · obtain ⟨es, rfl, hes⟩ := ht
      exact ⟨es, rfl, hx.grown ⟨_, rfl, by simpa [prepares] using hes⟩⟩
  refine wp_mono hcopy (fun rows y hy => ?_) fun _ he => he
  obtain ⟨u, hu, rfl⟩ := hy
  -- the tag is written next, through whatever pointer there is
  have hdone := hu.done rows
  rw [wp_bind]
  unfold setQueryCompletion
  rw [wp_bind, wp_note]
  refine wp_lift (fun _ _ => ?_) hdone
  exact untouched_acts (Only.call rfl) hdone

end

/-! ### A table -/

section
variable {srv : TreeServer} {create now : CreateStmt} {tree : TreeRef} {h t : List (HookAct A)}

/-- The tree a statement with a URL option is edited in. -/
def HookArgs.edited (args : HookArgs A) : TreeRef :=
  if args.readOnlyTree then .copied else .caller

/-- One statement was handed on, with the options that are left. -/
def HandedOn (create : CreateStmt) (args : HookArgs A) (t : List (HookAct A)) : Prop :=
  ∃ pre now post, t = pre ++ .prevProcessUtility args.edited (.create now)
      { args with readOnlyTree := false } :: post ∧
    now.options = optionsLeft create.options ∧ ∀ a ∈ pre ++ post, edits args.edited a = true

/-- A table is handed on once, or the hook raises before. -/
theorem createFromUrl_handsOn (srv : TreeServer) (cfg : HookConfig) (lib : PgchTypes T)
    (create : CreateStmt) (args : HookArgs A) :
    wp (createFromUrl srv cfg lib create args) (fun _ => HandedOn create args)
      (fun t => HandedOn create args t ∨ ∀ a ∈ t, edits args.edited a = true) [] := by
  have hraised : ∀ {t : List (HookAct A)}, Grown (edits args.edited) [] t →
      ∀ a ∈ t, edits args.edited a = true := by
    rintro t ⟨es, rfl, hes⟩
    exact hes
  unfold createFromUrl
  rw [wp_bind]
  -- the tree to be edited is the statement, whether it had to be copied or not
  have hcopied : wp (onlyIf args.readOnlyTree (note .copyObject) : TreeHook A Unit)
      (fun _ t => Grown (edits args.edited) [] t ∧
        (srv.trees A (.create create)).after t args.edited = .create create)
      (Grown (edits args.edited) []) [] := by
    refine wp_onlyIf (fun hread => ?_) (fun hwrite => ⟨Grown.refl [], rfl⟩)
    rw [wp_note]
    have hedited : args.edited = .copied := if_pos hread
    refine ⟨Grown.single (by simp [edits, hedited]) [], ?_⟩
    rw [hedited, trees_concat]
    simp [TreeServer.step, TreeServer.trees, World.after]
  refine wp_mono hcopied (fun _ t ht => ?_) fun _ he => Or.inr (hraised he)
  obtain ⟨ht, hnow⟩ := ht
  have hprepares : ∀ {u v : List (HookAct A)}, Grown prepares u v → Grown (edits args.edited) u v :=
    fun huv => huv.weaken fun _ ha => edits_of_prepares ha
  rw [wp_bind]
  refine wp_mono (untouched_wp (Only.call rfl) t) (fun _ u hu => ?_)
    fun _ he => Or.inr (hraised (ht.trans (hprepares he)))
  have hallowed : (srv.trees A (.create create)).after u args.edited = .create create := by
    rw [trees_of_prepares hu, hnow]
  rw [wp_bind]
  refine wp_mono (createColumnsFromUrl_wp cfg lib hallowed cfg.context) (fun loaded v hv => ?_)
    fun _ he => Or.inr (hraised ((ht.trans (hprepares hu)).trans he))
  obtain ⟨urls, ctx⟩ := loaded
  obtain ⟨huv, now, hleft, hoptions⟩ := hv
  have hpre := hraised ((ht.trans (hprepares hu)).trans huv)
  rw [wp_bind]
  have hforwarded : HandedOn create args (v ++ [.prevProcessUtility args.edited (.create now)
      { args with readOnlyTree := false }]) :=
    ⟨v, now, [], rfl, hoptions, by simpa using hpre⟩
  unfold prevProcessUtility
  rw [wp_bind]
  show wp (observe fun h => (srv.trees A (.create create)).after h args.edited) _ _ v
  rw [wp_observe, hleft]
  refine wp_call ?_ (Or.inl hforwarded)
  cases urls.copyUrl with
  | none => exact hforwarded
  | some url =>
    dsimp only
    rw [wp_bind]
    refine createAt_any fun table => ?_
    have honly := copyUrlInto_only srv.toHookServer cfg lib.toPgchNames table.relname url ctx
    have hload : Only (edits args.edited)
        (untouched (copyUrlInto srv.toHookServer cfg lib.toPgchNames table.relname url ctx) :
          TreeHook A Unit) := Only.within honly fun _ he => he
    -- the load hands nothing on
    have hextends : ∀ {t : List (HookAct A)}, Grown (edits args.edited)
        (v ++ [.prevProcessUtility args.edited (.create now)
          { args with readOnlyTree := false }]) t → HandedOn create args t := by
      rintro t ⟨es, rfl, hes⟩
      refine ⟨v, now, es, by simp, hoptions, fun a ha => ?_⟩
      rcases List.mem_append.mp ha with hold | hnew
      · exact hpre a hold
      · exact hes a hnew
    exact wp_mono (hload _) (fun _ _ ht => hextends ht) fun _ ht => Or.inl (hextends ht)

end

/-! ### Every statement -/

/-- What the hook does with a statement. -/
theorem chDBProcessUtilityHook_cases (srv : TreeServer) (cfg : HookConfig) (lib : PgchTypes T)
    (stmt : UtilityStmt) (args : HookArgs A) :
    (handled cfg stmt = false ∧
      chDBProcessUtilityHook srv cfg lib stmt args = prevProcessUtility srv stmt .caller args) ∨
    (∃ copy relation url scheme, stmt = .copy copy ∧ handled cfg stmt = true ∧
      chDBProcessUtilityHook srv cfg lib stmt args
        = copyFromUrl srv cfg lib.toPgchNames copy relation url scheme args) ∨
    ∃ create, stmt = .create create ∧ handled cfg stmt = true ∧
      chDBProcessUtilityHook srv cfg lib stmt args = createFromUrl srv cfg lib create args := by
  cases stmt with
  | other => exact Or.inl ⟨rfl, rfl⟩
  | create create =>
    by_cases hfrom : chdbCreatesFromUrl create = true
    · exact Or.inr (Or.inr ⟨create, rfl, hfrom, if_pos hfrom⟩)
    · exact Or.inl ⟨by simpa [handled] using hfrom, if_neg hfrom⟩
  | copy copy =>
    unfold chDBProcessUtilityHook handled
    dsimp only
    split
    · rename_i relation url scheme hrelation hfile hscheme
      by_cases hprogram : copy.isProgram = true
      · exact Or.inl ⟨by simp [hprogram], if_pos hprogram⟩
      · refine Or.inr (Or.inl ⟨copy, relation, url, scheme, rfl, ?_, if_neg hprogram⟩)
        simp [hrelation, hscheme, hprogram]
    · rename_i hnone
      refine Or.inl ⟨?_, rfl⟩
      cases hrelation : copy.relation with
      | none => simp
      | some relation =>
        cases hscheme : schemeFor cfg.noFileScheme copy.filename with
        | none => simp
        | some scheme =>
          cases hfile : copy.filename with
          | none => rw [hfile] at hscheme; cases hscheme
          | some url => exact (hnone relation url scheme hrelation hfile hscheme).elim

section
variable (srv : TreeServer) (cfg : HookConfig) {args : HookArgs A} {t : List (HookAct A)}

theorem forwards_of_copyActs {copy : CopyStmt} (hhandled : handled cfg (.copy copy) = true)
    (ht : CopyActs args t) (returned : Bool) :
    Forwards srv cfg (.copy copy) args returned t := by
  constructor
  · intro hother
    rw [hhandled] at hother
    cases hother
  · intro _ _ _
    rw [List.countP_eq_zero]
    intro a ha
    rcases ht.acts a ha with ⟨e, rfl, he⟩ | ⟨rows, rfl⟩
    · cases e with
      | prevProcessUtility stmt => exact absurd rfl (he stmt)
      | _ => simp [HookAct.forwards]
    · simp [HookAct.forwards]
  · intro create hcreate
    cases hcreate
  · intro _
    apply caller_of_spares
    intro a ha
    rcases ht.acts a ha with ⟨e, rfl, _⟩ | ⟨rows, rfl⟩ <;> rfl

theorem forwards_of_edits {tree : TreeRef} {a : HookAct A} (ha : edits tree a = true) :
    a.forwards = false := by
  cases a with
  | event e => cases e <;> first | rfl | cases ha
  | prevProcessUtility tree stmt args => cases ha
  | _ => rfl

theorem spares_of_edits {a : HookAct A} (ha : edits .copied a = true) : spares a = true := by
  cases a with
  | prevProcessUtility tree stmt args => cases ha
  | setOptions tree options => exact ha
  | setTableElts tree tableElts => exact ha
  | _ => rfl

theorem forwards_of_raised {create : CreateStmt} (hhandled : handled cfg (.create create) = true)
    (ht : ∀ a ∈ t, edits args.edited a = true) :
    Forwards srv cfg (.create create) args false t := by
  have hnone : t.countP HookAct.forwards = 0 := by
    rw [List.countP_eq_zero]
    intro a ha
    rw [forwards_of_edits (ht a ha)]
    simp
  constructor
  · intro hother
    rw [hhandled] at hother
    cases hother
  · intro copy hcopy
    cases hcopy
  · intro create' _ _
    refine ⟨by omega, by simp, fun tree now args' hmem => ?_⟩
    cases ht _ hmem
  · intro hread
    have hedited : args.edited = .copied := if_pos hread
    apply caller_of_spares
    intro a ha
    exact spares_of_edits (hedited ▸ ht a ha)

theorem forwards_of_handedOn {create : CreateStmt}
    (hhandled : handled cfg (.create create) = true) (ht : HandedOn create args t)
    (returned : Bool) : Forwards srv cfg (.create create) args returned t := by
  obtain ⟨pre, now, post, rfl, hoptions, hedits⟩ := ht
  have hone : (pre ++ .prevProcessUtility args.edited (.create now)
      { args with readOnlyTree := false } :: post).countP HookAct.forwards = 1 := by
    have hnone : ∀ es : List (HookAct A), (∀ a ∈ es, edits args.edited a = true) →
        es.countP HookAct.forwards = 0 := by
      intro es hes
      rw [List.countP_eq_zero]
      intro a ha
      rw [forwards_of_edits (hes a ha)]
      simp
    rw [List.countP_append, List.countP_cons, hnone pre fun a ha => hedits a (by simp [ha]),
      hnone post fun a ha => hedits a (by simp [ha])]
    rfl
  constructor
  · intro hother
    rw [hhandled] at hother
    cases hother
  · intro copy hcopy
    cases hcopy
  · intro create' hcreate _
    cases hcreate
    refine ⟨by omega, fun _ => hone, fun tree now' args' hmem => ?_⟩
    simp only [List.mem_append, List.mem_cons] at hmem
    rcases hmem with hpre | hprev | hpost
    · cases hedits _ (List.mem_append_left _ hpre)
    · cases hprev
      exact ⟨rfl, rfl, now, rfl, hoptions⟩
    · cases hedits _ (List.mem_append_right _ hpost)
  · intro hread
    have hedited : args.edited = .copied := if_pos hread
    rw [hedited] at hedits ⊢
    apply caller_of_spares
    intro a ha
    simp only [List.mem_append, List.mem_cons] at ha
    rcases ha with hpre | rfl | hpost
    · exact spares_of_edits (hedits a (List.mem_append_left _ hpre))
    · simp [spares]
    · exact spares_of_edits (hedits a (List.mem_append_right _ hpost))

end

section
variable (srv : TreeServer) (cfg : HookConfig) (lib : PgchTypes T) (stmt : UtilityStmt)
  (args : HookArgs A)

/-- A `COPY` that is the hook's own. -/
def handledCopy (cfg : HookConfig) : UtilityStmt → Bool
  | .copy copy => handled cfg (.copy copy)
  | _ => false

/-- All of the contract but the tag, and when a tag that is not there is written to. -/
theorem chDBProcessUtilityHook_run :
    wp (chDBProcessUtilityHook srv cfg lib stmt args) (fun _ => Forwards srv cfg stmt args true)
        (Forwards srv cfg stmt args false) [] ∧
      (WritesTag (calls (chDBProcessUtilityHook srv cfg lib stmt args)) ↔
        ¬ (args.qc = none ∧ handledCopy cfg stmt = true ∧ ∃ rows,
          .event (.copied rows) ∈ calls (chDBProcessUtilityHook srv cfg lib stmt args))) := by
  rcases chDBProcessUtilityHook_cases srv cfg lib stmt args with ⟨hother, hhook⟩ |
    ⟨copy, relation, url, scheme, rfl, hhandled, hhook⟩ | ⟨create, rfl, hhandled, hhook⟩
  · rw [hhook]
    have hforwards := fun returned => forwards_of_other srv cfg args hother returned
    constructor
    · unfold prevProcessUtility
      rw [wp_bind, wp_observe]
      exact wp_call (hforwards true) (hforwards false)
    · have hcalls : calls (prevProcessUtility srv stmt .caller args)
          = [HookAct.prevProcessUtility .caller stmt args] :=
        wp_calls (prevProcessUtility_wp srv args stmt .caller
          (P := fun t => t = [HookAct.prevProcessUtility .caller stmt args]) rfl)
      rw [hcalls]
      exact iff_of_true (by simp [WritesTag]) (by simp)
  · rw [hhook]
    have hacts := copyFromUrl_acts srv cfg lib.toPgchNames copy relation url scheme
      (@CopyActs.nil A args)
    refine ⟨wp_mono hacts (fun _ t ht => forwards_of_copyActs srv cfg hhandled ht true)
      fun t ht => forwards_of_copyActs srv cfg hhandled ht false, ?_⟩
    have hrun := wp_calls hacts
    generalize calls (copyFromUrl srv cfg lib.toPgchNames copy relation url scheme args) = t
      at hrun ⊢
    -- with a pointer every write is through it
    by_cases hnull : args.qc = none
    · have htag := hrun.tag
      rw [hnull] at htag
      rw [← htag]
      simp [WritesTag, hnull, handledCopy, hhandled]
    · refine iff_of_true (fun rows hmem => ?_) fun hnone => hnull hnone.1
      rcases hrun.acts _ hmem with ⟨e, he, _⟩ | ⟨rows', hrows⟩
      · cases he
      · exact hnull (HookAct.setQueryCompletion.inj hrows).1.symm
  · rw [hhook]
    have hends := createFromUrl_handsOn srv cfg lib create args
    refine ⟨wp_mono hends (fun _ t ht => forwards_of_handedOn srv cfg hhandled ht true)
      fun t ht => ?_, ?_⟩
    · rcases ht with hhanded | hedits
      · exact forwards_of_handedOn srv cfg hhandled hhanded false
      · exact forwards_of_raised srv cfg hhandled hedits
    · refine iff_of_true (fun rows hmem => ?_) (by simp [handledCopy])
      have hrun := wp_calls (wp_mono hends (fun _ _ ht => Or.inl ht) fun _ ht => ht)
      -- a table has no tag
      rcases hrun with ⟨pre, now, post, hsplit, _, hedits⟩ | hedits
      · rw [hsplit] at hmem
        simp only [List.mem_append, List.mem_cons] at hmem
        rcases hmem with hpre | hprev | hpost
        · cases hedits _ (List.mem_append_left _ hpre)
        · cases hprev
        · cases hedits _ (List.mem_append_right _ hpost)
      · cases hedits _ hmem

/-- **The hook keeps the contract of `ProcessUtility`, but for a `COPY` without a completion
    tag.**  For every statement, every tree, read-only or not, and every pointer, whatever
    PostgreSQL and the helper do: a statement that is not the hook's is handed on once as it
    is, a `COPY` that is not at all, and a `CREATE TABLE` at most once, and once if the hook
    returns, with the options neither it nor chDB takes; a read-only tree is left as it was, so
    that it may be executed again; and the tag is written where there is one.  All of this holds
    exactly when no `COPY` of the hook's own is completed for a caller that passes `NULL`. -/
theorem chDBProcessUtilityHook_keeps_iff :
    Contract srv cfg lib stmt args ↔
      ¬ (args.qc = none ∧ handledCopy cfg stmt = true ∧
        ∃ rows, .event (.copied rows) ∈ calls (chDBProcessUtilityHook srv cfg lib stmt args)) := by
  obtain ⟨hforwards, htag⟩ := chDBProcessUtilityHook_run srv cfg lib stmt args
  have hcaller : args.readOnlyTree → (srv.trees A stmt).after
      (calls (chDBProcessUtilityHook srv cfg lib stmt args)) .caller = stmt :=
    wp_calls (P := fun t => args.readOnlyTree → (srv.trees A stmt).after t .caller = stmt)
      (wp_mono hforwards (fun _ _ ht => ht.caller) fun _ ht => ht.caller)
  rw [← htag]
  constructor
  · intro hkeeps
    exact (wp_and_iff_calls hforwards).mp hkeeps.run
  · intro hwrites
    refine ⟨(wp_and_iff_calls hforwards).mpr hwrites, fun hread srv' => ?_⟩
    rw [hcaller hread]

end

/-! ### A caller without a completion tag -/

/-- `COPY t FROM 'https://h/t.json'`. -/
def copyStmt : CopyStmt where
  relation := some (lit "t")
  attlist := []
  isFrom := true
  isProgram := false
  filename := some (lit "https://h/t.json")
  whereClause := false
  options := []

/-- The rows a tag that is not there is to hold. -/
def HookAct.nullTag : HookAct A → Option ℕ
  | .setQueryCompletion none rows => some rows
  | _ => none

theorem HookAct.nullTag_eq_some {a : HookAct A} {rows : ℕ} (h : a.nullTag = some rows) :
    a = .setQueryCompletion none rows := by
  cases a with
  | setQueryCompletion qc rows' =>
    cases qc with
    | none => cases h; rfl
    | some p => cases h
  | _ => cases h

/-- A `COPY` of the hook's own writes its tag through `NULL` for a caller that passes that. -/
theorem copy_writes_null :
    ¬ ∀ (srv : TreeServer) (cfg : HookConfig) (lib : PgchTypes Bytes) (stmt : UtilityStmt)
      (args : HookArgs Unit), Contract srv cfg lib stmt args := by
  intro h
  have hkeeps := h { plainServer [] with transform := id } plainConfig (textTypes some)
    (.copy copyStmt) { readOnlyTree := true, rest := (), qc := none }
  have hwrites := wp_calls (wp_mono hkeeps.run (fun _ _ ht => ht.1) fun _ ht => ht.1)
  have hnull : ((calls (chDBProcessUtilityHook { plainServer [] with transform := id } plainConfig
      (textTypes some) (.copy copyStmt)
      ({ readOnlyTree := true, rest := (), qc := none } : HookArgs Unit)))[7]?.bind
        HookAct.nullTag) = some 0 := by decide +kernel
  obtain ⟨a, ha, htag⟩ := Option.bind_eq_some_iff.mp hnull
  rw [HookAct.nullTag_eq_some htag] at ha
  exact hwrites 0 (List.mem_of_getElem? ha)

end PgChdb.InPlace
