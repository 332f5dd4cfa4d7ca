import PgChdb.Native.Reader

namespace PgChdb

open CText Fallible

/-!
# Converting streamed rows

Both row consumers convert a streamed row the same way: one conversion state per column,
made from the column's attribute before the first row, then `pgch_reader_fill_map` for
each row, which writes the value of stream column `i` at the array index it is given for
`i` and touches nothing else.

* `FormPgAttribute` — the fields of a column's description the code reads;
* `PgchConvert` — the vendored conversions, either of which may raise;
* `convertStates`, `fillMap` — the two loops;
* `fillMap_range` — filling an array column by column, in order, replaces all of it.
-/

variable {γ κ δ : Type}

/-- The fields of `Form_pg_attribute` the code reads. -/
structure FormPgAttribute where
  attname : Bytes
  atttypid : ℕ
  atttypmod : ℤ
  attnotnull : Bool
  attisdropped : Bool
  attgenerated : Bool
  deriving DecidableEq, Repr

/-- A nullable `integer` column. -/
def intAttribute (name : Bytes) : FormPgAttribute where
  attname := name
  atttypid := 23
  atttypmod := -1
  attnotnull := false
  attisdropped := false
  attgenerated := false

/-- `pgch_reader_convert_init` for one column, and the conversion of one cell: a value, or
    none for a null. -/
structure PgchConvert (γ κ δ : Type) where
  init : ℕ → ℕ → ℤ → Raises κ
  cell : κ → γ → Raises (Option δ)

/-- Conversions that pass cells through. -/
def cellsAsIs : PgchConvert γ Unit γ where
  init _ _ _ := .ok ()
  cell _ c := .ok (some c)

/-- The conversion state of each stream column, off the attribute it lands in. -/
def convertStates (conv : PgchConvert γ κ δ) (attrs : List FormPgAttribute) : Raises (List κ) :=
  attrs.zipIdx.mapM fun p => conv.init p.2 p.1.atttypid p.1.atttypmod

/-- A block of one column and two rows. -/
def twoRows : NativeBlock ℕ := { nCols := 1, rows := [[1], [2]], nCols_pos := Nat.one_pos }

/-- `pgch_reader_fill_map`: column by column into the positions `dest` gives. -/
def fillMap (conv : PgchConvert γ κ δ) :
    List κ → List ℕ → List γ → List (Option δ) → Raises (List (Option δ))
  | st :: states, d :: dest, c :: row, vals => do
    let v ← conv.cell st c
    fillMap conv states dest row (vals.set d v)
  | _, _, _, vals => .ok vals

/-- The values of a streamed row, in stream order. -/
def convertRow (conv : PgchConvert γ κ δ) (states : List κ) (row : List γ) :
    Raises (List (Option δ)) :=
  (states.zip row).mapM fun p => conv.cell p.1 p.2

/-- Filling positions `k, k + 1, …` in order leaves the positions before `k` as they are
    and puts the row's values in the others. -/
theorem fillMap_range' (conv : PgchConvert γ κ δ) (states : List κ) (row : List γ)
    (pre post : List (Option δ)) (hst : states.length = post.length)
    (hrow : row.length = post.length) :
    fillMap conv states (List.range' pre.length post.length) row (pre ++ post)
      = (convertRow conv states row).map (pre ++ ·) := by
  induction post generalizing pre states row with
  | nil =>
    have hs : states = [] := List.length_eq_zero_iff.mp hst
    subst hs
    simp [fillMap, convertRow, pure, Except.pure, Except.map]
  | cons v post ih =>
    cases states with
    | nil => simp at hst
    | cons st states =>
      cases row with
      | nil => simp at hrow
      | cons c row =>
        simp only [List.length_cons, List.range'_succ, fillMap, convertRow, List.zip_cons_cons,
          List.mapM_cons]
        cases hc : conv.cell st c with
        | error e => rfl
        | ok w =>
          have hset : (pre ++ v :: post).set pre.length w = (pre ++ [w]) ++ post := by simp
          have hlen : pre.length + 1 = (pre ++ [w]).length := by simp
          simp only [bind, Except.bind, hset, hlen]
          rw [ih states row (pre ++ [w]) (by simpa using hst) (by simpa using hrow)]
          simp only [convertRow]
          cases (states.zip row).mapM fun p => conv.cell p.1 p.2 with
          | error e => rfl
          | ok ws => simp [Except.map, pure, Except.pure]

/-- Filling a whole array in order replaces its content by the row's values. -/
theorem fillMap_range (conv : PgchConvert γ κ δ) (states : List κ) (row : List γ)
    (vals : List (Option δ)) (hst : states.length = vals.length) (hrow : row.length = vals.length) :
    fillMap conv states (List.range vals.length) row vals = convertRow conv states row := by
  have h := fillMap_range' conv states row [] vals hst hrow
  simp only [List.length_nil, List.nil_append, ← List.range_eq_range'] at h
  rw [h]
  cases convertRow conv states row <;> simp [Except.map]

end PgChdb
