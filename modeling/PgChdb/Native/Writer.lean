import PgChdb.Ereport
import PgChdb.Lib.Fallible

namespace PgChdb

open CText Fallible

/-!
# The writer of a copy to a file

ClickHouse matches the columns of a Native block to its target by name, so `chdb_copy_send`
writes blocks with the names and types the structure clause declares.  `writer_for` reads
them off the clause: it is the field list of a named `Tuple`, which clickhouse-c's type
parser, a parameter here, splits.

* `namedFields` — the fields of a tuple all of which are named;
* `writerFor` — the columns of the writer, and `writerFor_eq_ok` when there are any.
-/

variable {T : Type}

/-- The fields of a tuple, if each has a name. -/
def namedFields : List (Option Bytes × T) → Option (List (Bytes × T))
  | [] => some []
  | (none, _) :: _ => none
  | (some name, t) :: fields => (namedFields fields).map ((name, t) :: ·)

/-- One column of the writer; a bare type parses as an unnamed field, which leaves nothing
    to match on. -/
def writerColumn (field : (Option Bytes × T) × ℕ) : Raises (Bytes × T) :=
  match field.1.1 with
  | some name => .ok (name, field.1.2)
  | none => .error { errcode := .invalidParameterValue
                     errmsg := lit "chdb: structure column " ++ decimal (field.2 + 1) ++
                       lit " has no name" }

/-- `writer_for`.  `parseTuple` is `chc_type_parse` on a tuple's text, as the tuple's fields,
    or raising what `pgch_raise` makes of a failure. -/
def writerFor (parseTuple : Bytes → Raises (List (Option Bytes × T))) (clause : Bytes)
    (nattrs : ℕ) : Raises (List (Bytes × T)) := do
  let fields ← parseTuple (lit "Tuple(" ++ (clause ++ lit ")"))
  let cols ← fields.zipIdx.mapM writerColumn
  -- an append per attribute, so a mismatch would shift every column
  raiseIf (cols.length ≠ nattrs)
    { errcode := .invalidParameterValue
      errmsg := lit "chdb: structure declares " ++ decimal cols.length ++
        lit " columns, copy has " ++ decimal nattrs }
  return cols

private theorem mapM_writerColumn {fields : List (Option Bytes × T)} {k : ℕ}
    {cols : List (Bytes × T)} :
    (fields.zipIdx k).mapM writerColumn = .ok cols ↔ namedFields fields = some cols := by
  induction fields generalizing k cols with
  | nil => simp [namedFields, pure, Except.pure]
  | cons field fields ih =>
    obtain ⟨name, t⟩ := field
    rw [List.zipIdx_cons, List.mapM_cons]
    cases name with
    | none => simp [writerColumn, namedFields, bind, Except.bind]
    | some name =>
      simp only [bind_eq_ok, pure_eq_ok, ih, namedFields, Option.map_eq_some_iff]
      constructor
      · rintro ⟨col, hcol, rest, hrest, rfl⟩
        cases hcol
        exact ⟨rest, hrest, rfl⟩
      · rintro ⟨rest, hrest, rfl⟩
        exact ⟨_, rfl, rest, hrest, rfl⟩

/-- The writer's columns are the fields of the tuple, all of them named, one for each
    attribute of the copy. -/
theorem writerFor_eq_ok {parseTuple : Bytes → Raises (List (Option Bytes × T))} {clause : Bytes}
    {nattrs : ℕ} {cols : List (Bytes × T)} :
    writerFor parseTuple clause nattrs = .ok cols ↔
      (∃ fields, parseTuple (lit "Tuple(" ++ (clause ++ lit ")")) = .ok fields ∧
        namedFields fields = some cols) ∧ cols.length = nattrs := by
  simp only [writerFor, bind_eq_ok, raiseIf_eq_ok, pure_eq_ok, mapM_writerColumn, not_not]
  constructor
  · rintro ⟨fields, hparse, cols', hnamed, _, hlen, rfl⟩
    exact ⟨⟨fields, hparse, hnamed⟩, hlen⟩
  · rintro ⟨⟨fields, hparse, hnamed⟩, hlen⟩
    exact ⟨fields, hparse, cols, hnamed, (), hlen, rfl⟩

end PgChdb
