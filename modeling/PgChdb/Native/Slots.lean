import PgChdb.Native.Statement
import Mathlib.Data.List.Nodup

namespace PgChdb

open CText Fallible Effects

/-!
# Where a stored tuple's values come from

`chdb_copy_receive` builds each row in the two arrays of a slot that earlier rows have used:
`memset` marks every attribute null, `pgch_reader_fill_map` writes the stream's columns at one
list of offsets, `fill_defaults` the defaults at another, and `ExecStoreVirtualTuple` makes a
tuple of what is there.  `copyRow` starts from fresh nulls instead; here the arrays are as the
code has them, with whatever they may hold when a row begins.

* `SlotArrays` — the arrays, with the two writers;
* `SlotCall`, `chdbCopyReceiveSlots` — the function over them, which reports every tuple;
* `chdbCopyReceiveSlots_tracks` — what the arrays held before makes no difference to anything
  the function does;
* `Sources` — where the values of a tuple come from;
* `chdbCopyReceiveSlots_sources` — that they do, for every tuple of every run.
-/

variable {γ κ δ : Type}

/-! ### The arrays of a slot -/

/-- `tts_values` and `tts_isnull`, which keep what was last written to them. -/
structure SlotArrays (δ : Type) where
  values : ℕ → δ
  isnull : ℕ → Bool

namespace SlotArrays

/-- `memset(slot->tts_isnull, true, natts)`. -/
def clear (s : SlotArrays δ) (natts : ℕ) : SlotArrays δ :=
  { s with isnull := fun i => if i < natts then true else s.isnull i }

/-- A value and its null flag at one offset; `zero` is the `Datum` that comes with a null. -/
def write (s : SlotArrays δ) (zero : δ) (i : ℕ) (v : Option δ) : SlotArrays δ where
  values := Function.update s.values i (v.getD zero)
  isnull := Function.update s.isnull i v.isNone

/-- The tuple that `ExecStoreVirtualTuple` makes of them. -/
def tuple (s : SlotArrays δ) (natts : ℕ) : List (Option δ) :=
  (List.range natts).map fun i => if s.isnull i then none else some (s.values i)

variable (s : SlotArrays δ) (n : ℕ)

@[simp] theorem length_tuple : (s.tuple n).length = n := by simp [tuple]

theorem getElem_tuple {i : ℕ} (hi : i < (s.tuple n).length) :
    (s.tuple n)[i] = if s.isnull i then none else some (s.values i) := by
  simp [tuple]

/-- Nothing an earlier row has left shows. -/
@[simp] theorem tuple_clear : (s.clear n).tuple n = List.replicate n none := by
  apply List.ext_getElem
  · simp
  · intro i hi hi'
    rw [getElem_tuple, List.getElem_replicate, if_pos]
    rw [length_tuple] at hi
    exact if_pos hi

@[simp] theorem tuple_write (zero : δ) (i : ℕ) (v : Option δ) :
    (s.write zero i v).tuple n = (s.tuple n).set i v := by
  apply List.ext_getElem
  · simp
  · intro j hj hj'
    rw [getElem_tuple, List.getElem_set]
    by_cases hij : i = j
    · subst hij
      cases v <;> simp [write]
    · have hji : j ≠ i := fun h => hij h.symm
      rw [if_neg hij, getElem_tuple]
      simp [write, hji]

end SlotArrays

/-- `pgch_reader_fill_map` into the arrays. -/
def fillArrays (conv : PgchConvert γ κ δ) (zero : δ) :
    List κ → List ℕ → List γ → SlotArrays δ → Raises (SlotArrays δ)
  | st :: states, d :: dest, c :: row, s => do
    let v ← conv.cell st c
    fillArrays conv zero states dest row (s.write zero d v)
  | _, _, _, s => .ok s

/-- `fill_defaults` into the arrays. -/
def fillArrayDefaults (ex : Executor δ) (zero : δ) (row : ℕ) (defaults : List ℕ)
    (s : SlotArrays δ) : Exec δ (SlotArrays δ) :=
  defaults.foldlM (fun s att => do
    let v ← ask (fun h => ex.evalDefault h att) (fun _ => .execEvalDefault row att)
    return s.write zero att v) s

/-- From the `memset` to the last default. -/
def buildRow (ex : Executor δ) (conv : PgchConvert γ κ δ) (tgt : CopyTarget) (states : List κ)
    (zero : δ) (p : List γ × ℕ) (stale : SlotArrays δ) : Exec δ (SlotArrays δ) := do
  let s ← lift (fillArrays conv zero states tgt.dest p.1 (stale.clear tgt.attrs.length))
  fillArrayDefaults ex zero p.2 tgt.defaults s

/-! ### The function over them -/

/-- The calls of the function, and the tuples it makes. -/
inductive SlotCall (δ : Type) where
  | own (e : Event δ)
  | execStoreVirtualTuple (row : ℕ) (tuple : List (Option δ))

def SlotCall.event? : SlotCall δ → Option (Event δ)
  | .own e => some e
  | .execStoreVirtualTuple _ _ => none

def SlotCall.row? : SlotCall δ → Option ℕ
  | .own _ => none
  | .execStoreVirtualTuple row _ => some row

/-- A part of the function that stores no tuple. -/
abbrev inSlots {α : Type} (m : Exec δ α) : Proc Ereport (SlotCall δ) α :=
  within SlotCall.event? .own id m

section
variable (ex : Executor δ) (conv : PgchConvert γ κ δ) (tgt : CopyTarget) (zero : δ)
  (stale : List (SlotCall δ) → SlotArrays δ)

/-- One turn of the loop, on row `k`; `stale` is what the slot's arrays hold by then. -/
def copyRowSlots (states : List κ) (st : LoopState δ) (p : List γ × ℕ) :
    Proc Ereport (SlotCall δ) (LoopState δ) := do
  let st ← inSlots (turnHead ex st p.2)
  let s ← observe stale
  let s ← inSlots (buildRow ex conv tgt states zero p s)
  note (.execStoreVirtualTuple p.2 (s.tuple tgt.attrs.length))
  inSlots (do
    let r ← routeRow ex tgt st
      { values := s.tuple tgt.attrs.length, tableOid := tgt.resultRelInfo.relid, row := p.2 }
    storeRow ex tgt r.st r.rri r.slot)

/-- `chdb_copy_receive`. -/
def chdbCopyReceiveSlots (rd : PgchReader γ) : Proc Ereport (SlotCall δ) ℕ := do
  inSlots (lift (raiseSome rd.initError reportReaderError))
  if rd.columns = 0 then
    return 0
  else do
    inSlots (lift (raiseIf (rd.columns ≠ tgt.attnums.length)
      { errcode := .badCopyFileFormat
        errmsg := lit "chdb: chDB returned " ++ decimal rd.columns ++ lit " columns, expected " ++
          decimal tgt.attnums.length }))
    let states ← inSlots (lift (convertStates conv tgt.copied))
    inSlots (openTarget ex tgt)
    let st ← rd.rows.zipIdx.foldlM (copyRowSlots ex conv tgt zero stale states)
      (tgt.loopState tgt.buffered)
    let st ← inSlots (turnHead ex st rd.rows.length)
    inSlots (lift (raiseSome rd.error reportReaderError))
    let ins ← inSlots (flushBuffer ex st.ins)
    inSlots (closeTarget ex tgt tgt.buffered)
    return ({ st with ins } : LoopState δ).rows

end

/-! ### What was in the arrays makes no difference -/

/-- The arrays' writers do to the tuple what the list's do. -/
theorem fillArrays_tuple (conv : PgchConvert γ κ δ) (zero : δ) (n : ℕ) (states : List κ)
    (dest : List ℕ) (row : List γ) (s : SlotArrays δ) :
    (fillArrays conv zero states dest row s).map (·.tuple n)
      = fillMap conv states dest row (s.tuple n) := by
  induction states generalizing dest row s with
  | nil => rfl
  | cons st states ih =>
    match dest, row with
    | [], _ => rfl
    | _ :: _, [] => rfl
    | d :: dest, c :: row =>
      unfold fillArrays fillMap
      cases hc : conv.cell st c with
      | error e => rfl
      | ok v =>
        have hrest := ih dest row (s.write zero d v)
        rw [SlotArrays.tuple_write] at hrest
        exact hrest

theorem fillArrayDefaults_tuple (ex : Executor δ) (zero : δ) (n row : ℕ) (defaults : List ℕ)
    (s : SlotArrays δ) :
    (·.tuple n) <$> fillArrayDefaults ex zero row defaults s
      = fillDefaults ex row defaults (s.tuple n) := by
  unfold fillArrayDefaults fillDefaults
  induction defaults generalizing s with
  | nil => rfl
  | cons att defaults ih =>
    simp only [List.foldlM_cons, map_bind, bind_assoc, pure_bind]
    refine bind_congr fun v => ?_
    rw [ih, SlotArrays.tuple_write]

theorem buildRow_tuple (ex : Executor δ) (conv : PgchConvert γ κ δ) (tgt : CopyTarget)
    (states : List κ) (zero : δ) (p : List γ × ℕ) (stale : SlotArrays δ) :
    (·.tuple tgt.attrs.length) <$> buildRow ex conv tgt states zero p stale
      = (do
        let values ← lift (fillRow conv tgt states p.1)
        fillDefaults ex p.2 tgt.defaults values) := by
  unfold buildRow fillRow
  rw [map_bind, ← SlotArrays.tuple_clear stale, ← fillArrays_tuple conv zero]
  simp only [fillArrayDefaults_tuple]
  funext h
  cases fillArrays conv zero states tgt.dest p.1 (stale.clear tgt.attrs.length) <;> rfl

section
variable {p : Event δ → Bool} {h : List (SlotCall δ)}

theorem inSlots_tracks {α : Type} {m : Exec δ α} (hm : Only p m) :
    Tracks SlotCall.event? (inSlots m) h m fun a _ b => a = b := by
  have hvis : ∀ e : Event δ, SlotCall.event? (.own e) = some e := fun _ => rfl
  exact (Tracks.within hvis (hm.mono fun _ _ => rfl)).mono fun _ _ _ hR => hR.1

end

section
variable (ex : Executor δ) (conv : PgchConvert γ κ δ) (tgt : CopyTarget) (zero : δ)
  (stale : List (SlotCall δ) → SlotArrays δ)

theorem buildRow_only (states : List κ) (p : List γ × ℕ) (s : SlotArrays δ) :
    Only Event.isOther (buildRow ex conv tgt states zero p s) := by
  unfold buildRow fillArrayDefaults
  refine Only.bind (Only.lift _) fun s => Only.foldlM (fun s att => ?_) _ _
  exact Only.bind (Only.ask fun _ => rfl) fun _ => Only.pure _

/-- A turn over the arrays is the turn over fresh nulls, whatever the arrays held. -/
theorem copyRowSlots_tracks (states : List κ) (st : LoopState δ) (p : List γ × ℕ)
    {h : List (SlotCall δ)} :
    Tracks SlotCall.event? (copyRowSlots ex conv tgt zero stale states st p) h
      (copyRow ex conv tgt states st p) fun a _ b => a = b := by
  unfold copyRowSlots copyRow
  refine Tracks.bind (inSlots_tracks (turnHead_only (p := Event.isOther) rfl rfl)) ?_
  rintro st t _ rfl
  refine Tracks.silent (a := stale t) rfl rfl ?_
  rw [← bind_assoc, ← buildRow_tuple ex conv tgt states zero p (stale t)]
  refine Tracks.bind (Tracks.within_map (fun _ => rfl)
    ((buildRow_only ex conv tgt zero states p (stale t)).mono fun _ _ => rfl)) ?_
  rintro s u _ ⟨rfl, -⟩
  refine Tracks.silent returns_note ?_ (inSlots_tracks (p := Event.isOther) ?_)
  · simp [SlotCall.event?]
  · exact Only.bind (routeRow_only ex tgt st _) fun r => storeRow_only ex tgt r.st r.rri r.slot

/-- **What a slot held before makes no difference**: the function over the arrays makes the same
    calls as the one over fresh nulls, and ends alike. -/
theorem chdbCopyReceiveSlots_tracks (rd : PgchReader γ) :
    Tracks SlotCall.event? (chdbCopyReceiveSlots ex conv tgt zero stale rd) []
      (chdbCopyReceive ex conv tgt rd) fun a _ b => a = b := by
  unfold chdbCopyReceiveSlots chdbCopyReceive copyFrom copyInto copyRows
  refine Tracks.bind (inSlots_tracks (p := Event.isOther) (Only.lift _)) ?_
  rintro _ t₀ _ rfl
  by_cases hcols : rd.columns = 0
  · rw [if_pos hcols, if_pos hcols]
    exact Tracks.pure rfl
  rw [if_neg hcols, if_neg hcols]
  refine Tracks.bind (inSlots_tracks (p := Event.isOther) (Only.lift _)) ?_
  rintro _ t₁ _ rfl
  refine Tracks.bind (inSlots_tracks (p := Event.isOther) (Only.lift _)) ?_
  rintro states t₂ _ rfl
  refine Tracks.bind (inSlots_tracks openTarget_only) ?_
  rintro _ t₃ _ rfl
  simp only [bind_assoc, pure_bind]
  refine Tracks.bind (Tracks.foldlM (R := fun a _ b => a = b) ?_ rfl) ?_
  · rintro st t _ rfl p -
    exact copyRowSlots_tracks ex conv tgt zero stale states st p
  rintro st t₄ _ rfl
  refine Tracks.bind (inSlots_tracks (turnHead_only (p := Event.isOther) rfl rfl)) ?_
  rintro st t₅ _ rfl
  refine Tracks.bind (inSlots_tracks (p := Event.isOther) (Only.lift _)) ?_
  rintro _ t₆ _ rfl
  refine Tracks.bind (inSlots_tracks (flushBuffer_only ex st.ins)) ?_
  rintro ins t₇ _ rfl
  refine Tracks.bind (inSlots_tracks closeTarget_only) ?_
  rintro _ t₈ _ rfl
  exact Tracks.pure rfl

end

/-! ### The two lists of offsets -/

section
variable {tgt : CopyTarget}

theorem mem_defaults {i : ℕ} : i ∈ tgt.defaults ↔ ∃ attr, tgt.attrs[i]? = some attr ∧
    attr.attisdropped = false ∧ attr.attgenerated = false ∧ i + 1 ∉ tgt.attnums ∧
    tgt.hasDefault i = true := by
  unfold CopyTarget.defaults
  simp only [List.mem_map, List.mem_filter, Prod.exists, List.mem_zipIdx_iff_getElem?,
    Bool.and_eq_true, Bool.not_eq_true', List.contains_eq_mem, decide_eq_false_iff_not, and_assoc]
  constructor
  · rintro ⟨attr, _, hattr, hdrop, hgen, hlist, hdef, rfl⟩
    exact ⟨attr, hattr, hdrop, hgen, hlist, hdef⟩
  · rintro ⟨attr, hattr, hdrop, hgen, hlist, hdef⟩
    exact ⟨attr, i, hattr, hdrop, hgen, hlist, hdef, rfl⟩

theorem nodup_defaults : tgt.defaults.Nodup := by
  unfold CopyTarget.defaults
  have hall : (tgt.attrs.zipIdx.map Prod.snd).Nodup := by
    rw [List.zipIdx_map_snd]
    exact List.nodup_range'
  exact hall.sublist (List.filter_sublist.map _)

theorem mem_dest (hpos : ∀ a ∈ tgt.attnums, 1 ≤ a) {i : ℕ} : i ∈ tgt.dest ↔ i + 1 ∈ tgt.attnums := by
  unfold CopyTarget.dest
  rw [List.mem_map]
  constructor
  · rintro ⟨a, ha, rfl⟩
    rwa [Nat.sub_add_cancel (hpos a ha)]
  · exact fun h => ⟨i + 1, h, rfl⟩

theorem nodup_dest (hnodup : tgt.attnums.Nodup) (hpos : ∀ a ∈ tgt.attnums, 1 ≤ a) :
    tgt.dest.Nodup := by
  refine List.Nodup.map_on (fun a ha b hb hab => ?_) hnodup
  have ha := hpos a ha
  have hb := hpos b hb
  omega

end

/-! ### What each of them fills -/

/-- Each stream column's value is at its offset; the others are as they were. -/
theorem fillMap_spec {conv : PgchConvert γ κ δ} {states : List κ} {dest : List ℕ} {row : List γ}
    {vals vals' : List (Option δ)} (hnodup : dest.Nodup)
    (h : fillMap conv states dest row vals = .ok vals') :
    vals'.length = vals.length ∧
      (∀ (i : ℕ) (st : κ) (d : ℕ) (c : γ), states[i]? = some st → dest[i]? = some d → row[i]? = some c →
        d < vals.length → ∃ v, conv.cell st c = .ok v ∧ vals'[d]? = some v) ∧
      ∀ a, a ∉ dest → vals'[a]? = vals[a]? := by
  induction states generalizing dest row vals with
  | nil =>
    cases h
    exact ⟨rfl, fun i st d c hst => by simp at hst, fun _ _ => rfl⟩
  | cons st states ih =>
    match dest, row with
    | [], _ =>
      cases h
      exact ⟨rfl, fun i st d c _ hd => by simp at hd, fun _ _ => rfl⟩
    | _ :: _, [] =>
      cases h
      exact ⟨rfl, fun i st d c _ _ hc => by simp at hc, fun _ _ => rfl⟩
    | d :: dest, c :: row =>
      unfold fillMap at h
      obtain ⟨v, hv, h⟩ := bind_eq_ok.mp h
      obtain ⟨hd, hnodup⟩ := List.nodup_cons.mp hnodup
      obtain ⟨hlen, hfill, hrest⟩ := ih hnodup h
      rw [List.length_set] at hlen hfill
      refine ⟨hlen, fun i st' d' c' hst hd' hc hlt => ?_, fun a ha => ?_⟩
      · cases i with
        | zero =>
          cases hst
          cases hd'
          cases hc
          refine ⟨v, hv, ?_⟩
          rw [hrest d hd, List.getElem?_set_self hlt]
        | succ i => exact hfill i st' d' c' hst hd' hc hlt
      · obtain ⟨hne, ha⟩ := not_or.mp (mt List.mem_cons.mpr ha)
        rw [hrest a ha, List.getElem?_set_ne (Ne.symm hne)]

/-- Each default is evaluated, one after the other, and put at its offset. -/
theorem fillDefaults_spec (ex : Executor δ) (k : ℕ) {defaults : List ℕ} (hnodup : defaults.Nodup)
    (values : List (Option δ)) (h : List (Event δ)) :
    wp (fillDefaults ex k defaults values)
      (fun values' t => t = h ++ defaults.map (.execEvalDefault k) ∧
        values'.length = values.length ∧
        (∀ i a : ℕ, defaults[i]? = some a → a < values.length → ∃ v,
          ex.evalDefault (h ++ (defaults.take i).map (.execEvalDefault k)) a = .ok v ∧
          values'[a]? = some v) ∧
        ∀ a, a ∉ defaults → values'[a]? = values[a]?)
      (fun _ => True) h := by
  induction defaults generalizing values h with
  | nil => exact ⟨by simp, rfl, fun i a ha => by simp at ha, fun _ _ => rfl⟩
  | cons d defaults ih =>
    obtain ⟨hd, hnodup⟩ := List.nodup_cons.mp hnodup
    unfold fillDefaults
    rw [List.foldlM_cons, wp_bind, wp_bind]
    refine wp_ask (fun v hv => ?_) trivial
    rw [wp_pure]
    refine wp_mono (ih hnodup (values.set d v) (h ++ [Event.execEvalDefault k d])) ?_
      fun _ he => he
    rintro values' t ⟨rfl, hlen, hfill, hrest⟩
    rw [List.length_set] at hlen hfill
    refine ⟨by simp, hlen, fun i a ha hlt => ?_, fun a ha => ?_⟩
    · cases i with
      | zero =>
        cases ha
        refine ⟨v, by simpa using hv, ?_⟩
        rw [hrest d hd, List.getElem?_set_self hlt]
      | succ i =>
        obtain ⟨w, hw, hat⟩ := hfill i a ha hlt
        exact ⟨w, by simpa using hw, hat⟩
    · obtain ⟨hne, ha⟩ := not_or.mp (mt List.mem_cons.mpr ha)
      rw [hrest a ha, List.getElem?_set_ne (Ne.symm hne)]

/-! ### Where the values come from -/

/-- The default of attribute `a` was evaluated to `v` for row `k`: since then nothing has happened
    but that the row's other defaults were evaluated. -/
def Evaluated (ex : Executor δ) (pre : List (SlotCall δ)) (k a : ℕ) (v : Option δ) : Prop :=
  ∃ before after, pre = before ++ .own (.execEvalDefault k a) :: after ∧
    ex.evalDefault (before.filterMap SlotCall.event?) a = .ok v ∧
    ∀ e ∈ after, ∃ a', e = .own (.execEvalDefault k a')

/-- The one right source of each attribute of the tuple of row `k`. -/
structure Sources (ex : Executor δ) (conv : PgchConvert γ κ δ) (tgt : CopyTarget)
    (pre : List (SlotCall δ)) (k : ℕ) (row : List γ) (tuple : List (Option δ)) : Prop where
  length : tuple.length = tgt.attrs.length
  /-- The stream's columns, converted for the attributes they are listed with. -/
  streamed : ∀ i attnum : ℕ, tgt.attnums[i]? = some attnum → ∃ attr st c v,
    tgt.attrs[attnum - 1]? = some attr ∧ conv.init i attr.atttypid attr.atttypmod = .ok st ∧
      row[i]? = some c ∧ conv.cell st c = .ok v ∧ tuple[attnum - 1]? = some v
  /-- The attributes that are left to their defaults. -/
  defaulted : ∀ (a : ℕ) (attr : FormPgAttribute), tgt.attrs[a]? = some attr →
    a + 1 ∉ tgt.attnums → attr.attisdropped = false → attr.attgenerated = false →
    tgt.hasDefault a = true → ∃ v, Evaluated ex pre k a v ∧ tuple[a]? = some v
  /-- The others. -/
  null : ∀ (a : ℕ) (attr : FormPgAttribute), tgt.attrs[a]? = some attr → a + 1 ∉ tgt.attnums →
    attr.attisdropped = true ∨ attr.attgenerated = true ∨ tgt.hasDefault a = false →
    tuple[a]? = some none

/-- A call of a run over `rows`: a tuple has its values from the right sources. -/
def FromSources (ex : Executor δ) (conv : PgchConvert γ κ δ) (tgt : CopyTarget)
    (rows : List (List γ)) (pre : List (SlotCall δ)) : SlotCall δ → Prop
  | .own _ => True
  | .execStoreVirtualTuple k tuple =>
    ∃ row, rows[k]? = some row ∧ Sources ex conv tgt pre k row tuple

/-- The tuples of the first `m` rows have been made, one each, in order and as they should be. -/
structure Made (ex : Executor δ) (conv : PgchConvert γ κ δ) (tgt : CopyTarget)
    (rows : List (List γ)) (m : ℕ) (t : List (SlotCall δ)) : Prop where
  sources : Permits (FromSources ex conv tgt rows) t
  once : t.filterMap SlotCall.row? = List.range m

/-- The listed attributes, in the list's order. -/
theorem getElem?_copied {tgt : CopyTarget}
    (hrange : ∀ a ∈ tgt.attnums, 1 ≤ a ∧ a ≤ tgt.attrs.length) (i : ℕ) :
    tgt.copied[i]? = tgt.attnums[i]?.bind fun a => tgt.attrs[a - 1]? := by
  unfold CopyTarget.copied CopyTarget.dest
  generalize tgt.attnums = attnums at hrange ⊢
  induction attnums generalizing i with
  | nil => rfl
  | cons a attnums ih =>
    obtain ⟨hpos, hle⟩ := hrange a List.mem_cons_self
    obtain ⟨attr, hattr⟩ : ∃ attr, tgt.attrs[a - 1]? = some attr :=
      ⟨_, List.getElem?_eq_getElem (by omega)⟩
    rw [List.map_cons, List.filterMap_cons, hattr]
    cases i with
    | zero => exact hattr.symm
    | succ i => exact ih i fun b hb => hrange b (List.mem_cons_of_mem a hb)

/-- The state of each stream column is made off the attribute the column lands in. -/
theorem convertStates_spec {conv : PgchConvert γ κ δ} {tgt : CopyTarget} {states : List κ}
    (hrange : ∀ a ∈ tgt.attnums, 1 ≤ a ∧ a ≤ tgt.attrs.length)
    (h : convertStates conv tgt.copied = .ok states) {i attnum : ℕ}
    (hi : tgt.attnums[i]? = some attnum) : ∃ attr st, tgt.attrs[attnum - 1]? = some attr ∧
      conv.init i attr.atttypid attr.atttypmod = .ok st ∧ states[i]? = some st := by
  obtain ⟨hpos, hle⟩ := hrange attnum (List.mem_of_getElem? hi)
  obtain ⟨attr, hattr⟩ : ∃ attr, tgt.attrs[attnum - 1]? = some attr :=
    ⟨_, List.getElem?_eq_getElem (by omega)⟩
  have hcopied : tgt.copied.zipIdx[i]? = some (attr, i) := by
    rw [List.getElem?_zipIdx, getElem?_copied hrange, hi, Option.bind_some, hattr, Nat.zero_add]
    rfl
  obtain ⟨st, hst, hinit⟩ := getElem?_of_forall₂ (mapM_eq_ok_iff.mp h) hcopied
  exact ⟨attr, st, hattr, hinit, hst⟩

section
variable (ex : Executor δ) (conv : PgchConvert γ κ δ) (tgt : CopyTarget) (zero : δ)

theorem filterMap_own (es : List (Event δ)) :
    (es.map SlotCall.own).filterMap SlotCall.event? = es := by
  have hid : SlotCall.event? ∘ SlotCall.own = (some : Event δ → Option (Event δ)) := rfl
  rw [List.filterMap_map, hid, List.filterMap_some]

/-- A row that is built is built from its sources. -/
theorem buildRow_spec {states : List κ} {row : List γ} (k : ℕ) (stale : SlotArrays δ)
    (hnodup : tgt.attnums.Nodup) (hrange : ∀ a ∈ tgt.attnums, 1 ≤ a ∧ a ≤ tgt.attrs.length)
    (hstates : convertStates conv tgt.copied = .ok states)
    (hwidth : row.length = tgt.attnums.length) (h : List (SlotCall δ)) :
    wp (inSlots (buildRow ex conv tgt states zero (row, k) stale))
      (fun s t => Sources ex conv tgt t k row (s.tuple tgt.attrs.length)) (fun _ => True) h := by
  have hpos : ∀ a ∈ tgt.attnums, 1 ≤ a := fun a ha => (hrange a ha).1
  apply wp_within
  -- what is known of the tuple is known of the row built on fresh nulls
  suffices hlist : wp ((·.tuple tgt.attrs.length) <$> buildRow ex conv tgt states zero (row, k) stale)
      (fun tuple t => ∃ es, t = h.filterMap SlotCall.event? ++ es ∧
        Sources ex conv tgt (h ++ es.map .own) k row tuple) (fun _ => True)
      (h.filterMap SlotCall.event?) by
    rw [wp_map] at hlist
    have hgrown := buildRow_only ex conv tgt zero states (row, k) stale (h.filterMap SlotCall.event?)
    refine wp_mono (wp_and hlist hgrown) (fun _ _ hs => hs.1) fun t ht => ?_
    obtain ⟨es, hes, -⟩ := ht.2
    exact ⟨es, hes, trivial⟩
  rw [buildRow_tuple, wp_bind]
  refine wp_lift (fun values hvalues => ?_) trivial
  obtain ⟨hlen, hstream, hother⟩ := fillMap_spec (nodup_dest hnodup hpos) hvalues
  rw [List.length_replicate] at hlen hstream
  refine wp_mono (fillDefaults_spec ex k nodup_defaults values _) ?_ fun _ _ => trivial
  rintro tuple t ⟨rfl, hlen', hdefault, hrest⟩
  refine ⟨_, rfl, hlen'.trans hlen, ?_, ?_, ?_⟩
  · intro i attnum hi
    have hmem := List.mem_of_getElem? hi
    obtain ⟨hone, hle⟩ := hrange attnum hmem
    have hlt : attnum - 1 < tgt.attrs.length := by omega
    obtain ⟨attr, st, hattr, hinit, hst⟩ := convertStates_spec hrange hstates hi
    have hdest : tgt.dest[i]? = some (attnum - 1) := by
      unfold CopyTarget.dest
      rw [List.getElem?_map, hi]
      rfl
    have hi' : i < row.length := by
      rw [hwidth]
      exact (List.getElem?_eq_some_iff.mp hi).1
    have hcell : row[i]? = some row[i] := List.getElem?_eq_getElem hi'
    obtain ⟨v, hv, hat⟩ := hstream i st (attnum - 1) _ hst hdest hcell hlt
    refine ⟨attr, st, _, v, hattr, hinit, hcell, hv, ?_⟩
    -- no default is put there
    rw [hrest, hat]
    intro hdefault
    obtain ⟨_, _, _, _, hlist, _⟩ := mem_defaults.mp hdefault
    rw [Nat.sub_add_cancel hone] at hlist
    exact hlist hmem
  · intro a attr hattr hlist hdrop hgen hdef
    obtain ⟨i, hi⟩ := List.mem_iff_getElem?.mp
      (mem_defaults.mpr ⟨attr, hattr, hdrop, hgen, hlist, hdef⟩)
    have hlt : a < values.length := by
      rw [hlen]
      exact (List.getElem?_eq_some_iff.mp hattr).1
    obtain ⟨v, hv, hat⟩ := hdefault i a hi hlt
    refine ⟨v, ⟨h ++ ((tgt.defaults.take i).map (Event.execEvalDefault k)).map .own,
      ((tgt.defaults.drop (i + 1)).map (Event.execEvalDefault k)).map .own, ?_, ?_, ?_⟩, hat⟩
    · have hsplit : tgt.defaults = tgt.defaults.take i ++ a :: tgt.defaults.drop (i + 1) := by
        obtain ⟨hlt, rfl⟩ := List.getElem?_eq_some_iff.mp hi
        rw [List.getElem_cons_drop, List.take_append_drop]
      conv_lhs => rw [hsplit]
      simp only [List.map_append, List.map_cons, List.append_assoc]
    · rw [List.filterMap_append, filterMap_own]
      exact hv
    · intro e he
      obtain ⟨e', he', rfl⟩ := List.mem_map.mp he
      obtain ⟨a', _, rfl⟩ := List.mem_map.mp he'
      exact ⟨a', rfl⟩
  · intro a attr hattr hlist hnone
    have hdefault : a ∉ tgt.defaults := by
      intro hmem
      obtain ⟨attr', hattr', hdrop, hgen, _, hdef⟩ := mem_defaults.mp hmem
      rw [hattr] at hattr'
      cases hattr'
      rw [hdrop, hgen, hdef] at hnone
      simp at hnone
    rw [hrest a hdefault, hother a (mt (mem_dest hpos).mp hlist), List.getElem?_replicate,
      if_pos (List.getElem?_eq_some_iff.mp hattr).1]

variable (stale : List (SlotCall δ) → SlotArrays δ)

/-- The calls of the function's other parts make no tuple. -/
theorem Made.inSlots {α : Type} {m : Exec δ α} {p : Event δ → Bool} {rows : List (List γ)} {n : ℕ}
    {h : List (SlotCall δ)} (hm : Only p m) (hmade : Made ex conv tgt rows n h) :
    wp (inSlots m) (fun _ => Made ex conv tgt rows n) (Made ex conv tgt rows n) h := by
  have hown : Only (fun e : SlotCall δ => e.event?.isSome) (PgChdb.inSlots m) :=
    hm.within fun _ _ => rfl
  refine hown.keeps (fun h e he hh => ?_) hmade
  cases e with
  | execStoreVirtualTuple row tuple => cases he
  | own e =>
    refine ⟨permits_concat.mpr ⟨hh.sources, trivial⟩, ?_⟩
    rw [List.filterMap_append, hh.once]
    exact List.append_nil _

/-- A turn makes the tuple of its row. -/
theorem copyRowSlots_made {states : List κ} {st : LoopState δ} {row : List γ} {k : ℕ}
    {rows : List (List γ)} {h : List (SlotCall δ)} (hnodup : tgt.attnums.Nodup)
    (hrange : ∀ a ∈ tgt.attnums, 1 ≤ a ∧ a ≤ tgt.attrs.length)
    (hstates : convertStates conv tgt.copied = .ok states)
    (hwidth : row.length = tgt.attnums.length) (hrow : rows[k]? = some row)
    (hmade : Made ex conv tgt rows k h) :
    wp (copyRowSlots ex conv tgt zero stale states st (row, k))
      (fun _ => Made ex conv tgt rows (k + 1))
      (fun t => ∃ m ≤ rows.length, Made ex conv tgt rows m t) h := by
  have hlt : k < rows.length := (List.getElem?_eq_some_iff.mp hrow).1
  unfold copyRowSlots
  rw [wp_bind]
  refine wp_mono (hmade.inSlots ex conv tgt (turnHead_only (p := Event.isOther) rfl rfl)) ?_
    fun _ ht => ⟨k, hlt.le, ht⟩
  intro st t ht
  rw [wp_bind, wp_observe, wp_bind]
  have hbuilt := buildRow_spec ex conv tgt zero k (stale t) hnodup hrange hstates hwidth t
  have hkept := ht.inSlots ex conv tgt (buildRow_only ex conv tgt zero states (row, k) (stale t))
  refine wp_mono (wp_and hbuilt hkept) ?_ fun _ hu => ⟨k, hlt.le, hu.2⟩
  rintro s u ⟨hsources, hu⟩
  rw [wp_bind, wp_note]
  have hstored : Made ex conv tgt rows (k + 1)
      (u ++ [.execStoreVirtualTuple k (s.tuple tgt.attrs.length)]) := by
    refine ⟨permits_concat.mpr ⟨hu.sources, row, hrow, hsources⟩, ?_⟩
    rw [List.filterMap_append, hu.once, List.range_succ]
    rfl
  refine wp_mono (hstored.inSlots ex conv tgt (p := Event.isOther) ?_) (fun _ _ hv => hv)
    fun _ hv => ⟨k + 1, hlt, hv⟩
  exact Only.bind (routeRow_only ex tgt st _) fun r => storeRow_only ex tgt r.st r.rri r.slot

/-- A stream without a schema has no row. -/
theorem PgchReader.Reads.rows_eq_nil {rd : PgchReader γ} {src : NativeSource γ} (h : rd.Reads src)
    (hcols : rd.columns = 0) : rd.rows = [] := by
  obtain ⟨blocks, _, _, hrows, hwidth, _⟩ := h.drained
  cases blocks with
  | nil => exact hrows
  | cons b blocks =>
    have hpos : 0 < b.nCols := b.nCols_pos
    have hb : rd.columns = b.nCols := hwidth
    omega

theorem chdbCopyReceiveSlots_made {rd : PgchReader γ} {src : NativeSource γ} (hreads : rd.Reads src)
    (hnodup : tgt.attnums.Nodup) (hrange : ∀ a ∈ tgt.attnums, 1 ≤ a ∧ a ≤ tgt.attrs.length) :
    wp (chdbCopyReceiveSlots ex conv tgt zero stale rd)
      (fun _ => Made ex conv tgt rd.rows rd.rows.length)
      (fun t => ∃ m ≤ rd.rows.length, Made ex conv tgt rd.rows m t) [] := by
  have hstart : Made ex conv tgt rd.rows 0 [] := ⟨Permits.nil, rfl⟩
  have hpart : ∀ {α : Type} {p : Event δ → Bool} {m : Exec δ α} {n h}, Only p m → n ≤ rd.rows.length →
      Made ex conv tgt rd.rows n h → wp (inSlots m) (fun _ => Made ex conv tgt rd.rows n)
        (fun t => ∃ m ≤ rd.rows.length, Made ex conv tgt rd.rows m t) h := by
    intro α p m n h hm hn hmade
    exact wp_mono (hmade.inSlots ex conv tgt hm) (fun _ _ ht => ht) fun _ ht => ⟨n, hn, ht⟩
  have hzero : 0 ≤ rd.rows.length := Nat.zero_le _
  unfold chdbCopyReceiveSlots
  rw [wp_bind]
  refine wp_mono (hpart (p := Event.isOther) (Only.lift _) hzero hstart) (fun _ t₀ h₀ => ?_)
    fun _ he => he
  by_cases hcols : rd.columns = 0
  · rw [if_pos hcols, wp_pure, hreads.rows_eq_nil hcols]
    rw [hreads.rows_eq_nil hcols] at h₀
    exact h₀
  rw [if_neg hcols, wp_bind]
  refine wp_within_lift (fun _ hcount => ?_) ⟨0, hzero, h₀⟩
  have hcount : rd.columns = tgt.attnums.length := not_not.mp (raiseIf_eq_ok.mp hcount)
  rw [wp_bind]
  refine wp_within_lift (fun states hstates => ?_) ⟨0, hzero, h₀⟩
  rw [wp_bind]
  refine wp_mono (hpart openTarget_only hzero h₀) (fun _ t₁ h₁ => ?_) fun _ he => he
  rw [wp_bind]
  have hloop : wp (rd.rows.zipIdx.foldlM (copyRowSlots ex conv tgt zero stale states)
        (tgt.loopState tgt.buffered)) (fun _ => Made ex conv tgt rd.rows rd.rows.zipIdx.length)
      (fun t => ∃ m ≤ rd.rows.length, Made ex conv tgt rd.rows m t) t₁ := by
    refine wp_foldlM (fun done _ => Made ex conv tgt rd.rows done.length) ?_ h₁
    rintro done ⟨row, k⟩ rest st t hsplit ht
    -- the turn is the one of the row at its position
    have hat : rd.rows.zipIdx[done.length]? = some (row, k) := by
      rw [hsplit, List.getElem?_append_right (Nat.le_refl _), Nat.sub_self]
      rfl
    rw [List.getElem?_zipIdx, Nat.zero_add] at hat
    obtain ⟨row', hrow, heq⟩ := Option.map_eq_some_iff.mp hat
    obtain ⟨rfl, rfl⟩ := Prod.mk.inj heq
    have hwidth : row'.length = tgt.attnums.length := by
      rw [← hcount]
      exact hreads.width row' (List.mem_of_getElem? hrow)
    rw [List.length_append]
    exact copyRowSlots_made ex conv tgt zero stale hnodup hrange hstates hwidth hrow ht
  rw [List.length_zipIdx] at hloop
  refine wp_mono hloop (fun st t₂ h₂ => ?_) fun _ he => he
  rw [wp_bind]
  refine wp_mono (hpart (turnHead_only (p := Event.isOther) rfl rfl) (Nat.le_refl _) h₂)
    (fun st t₃ h₃ => ?_) fun _ he => he
  rw [wp_bind]
  refine wp_mono (hpart (p := Event.isOther) (Only.lift _) (Nat.le_refl _) h₃)
    (fun _ t₄ h₄ => ?_) fun _ he => he
  rw [wp_bind]
  refine wp_mono (hpart (flushBuffer_only ex st.ins) (Nat.le_refl _) h₄) (fun ins t₅ h₅ => ?_)
    fun _ he => he
  rw [wp_bind]
  exact wp_mono (hpart closeTarget_only (Nat.le_refl _) h₅) (fun _ _ ht => ht) fun _ he => he

/-- **Each column gets its value from the one right source.**  Whatever the slots hold when a row
    begins, the tuple stored for it has the converted stream values, the row's own defaults and
    null elsewhere, and the rest of the function is as if the slots had been fresh; a stream
    whose schema has another number of columns raises before any call. -/
theorem chdbCopyReceiveSlots_sources {rd : PgchReader γ} {src : NativeSource γ}
    (hreads : rd.Reads src) (hnodup : tgt.attnums.Nodup)
    (hrange : ∀ a ∈ tgt.attnums, 1 ≤ a ∧ a ≤ tgt.attrs.length) :
    wp (chdbCopyReceiveSlots ex conv tgt zero stale rd)
        (fun _ => Made ex conv tgt rd.rows rd.rows.length)
        (fun t => ∃ m ≤ rd.rows.length, Made ex conv tgt rd.rows m t) [] ∧
      Tracks SlotCall.event? (chdbCopyReceiveSlots ex conv tgt zero stale rd) []
        (chdbCopyReceive ex conv tgt rd) (fun a _ b => a = b) ∧
      (rd.columns ≠ 0 → rd.columns ≠ tgt.attnums.length →
        ∃ e, chdbCopyReceiveSlots ex conv tgt zero stale rd [] = .error e []) := by
  refine ⟨chdbCopyReceiveSlots_made ex conv tgt zero stale hreads hnodup hrange,
    chdbCopyReceiveSlots_tracks ex conv tgt zero stale rd, fun hcols hcount => ?_⟩
  unfold chdbCopyReceiveSlots
  rw [if_neg hcols]
  cases hinit : rd.initError with
  | some msg => exact ⟨_, rfl⟩
  | none =>
    rw [raiseIf, if_pos hcount]
    exact ⟨_, rfl⟩

end

/-! ### A table of every kind of column -/

/-- Plain, defaulted, plain and dropped, with the plain ones listed the other way round. -/
def mixedTarget : CopyTarget where
  resultRelInfo := plainRelation 1
  partitioned := false
  attrs := [intAttribute (lit "a"), intAttribute (lit "b"), intAttribute (lit "c"),
    { intAttribute (lit "d") with attisdropped := true }]
  hasDefault i := i == 1
  attnums := [3, 1]
  transition := false

/-- One row of two columns. -/
def pairBlock : NativeBlock ℕ := { nCols := 2, rows := [[7, 8]], nCols_pos := Nat.two_pos }

/-- Into slots full of 9. -/
theorem chdbCopyReceiveSlots_sources_mixed :
    wp (chdbCopyReceiveSlots (plainExecutor (plainRelation 1)) cellsAsIs mixedTarget 0
        (fun _ => ⟨fun _ => 9, fun _ => false⟩) (readerOver [.block pairBlock]))
      (fun _ => Made (plainExecutor (plainRelation 1)) cellsAsIs mixedTarget [[7, 8]] 1)
      (fun t => ∃ m ≤ 1, Made (plainExecutor (plainRelation 1)) cellsAsIs mixedTarget [[7, 8]] m t)
      [] :=
  (chdbCopyReceiveSlots_sources (plainExecutor (plainRelation 1)) cellsAsIs mixedTarget 0
    (fun _ => ⟨fun _ => 9, fun _ => false⟩) (readerOver_reads (by decide)) (by decide) (by decide)).1

end PgChdb
