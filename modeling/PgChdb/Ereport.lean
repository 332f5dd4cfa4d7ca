import PgChdb.Lib.Bytes

namespace PgChdb

open CText

/-!
# Raised errors

`ereport(ERROR, …)` leaves the function it is called in, so a source function that can
raise is a function into `Raises`.  An error carries what the source gives it: the error
code, the message, and the detail and hint when there are any.
-/

/-- The error codes the modelled code raises with. -/
inductive ErrCode where
  | externalRoutineException
  | badCopyFileFormat
  | programLimitExceeded
  | featureNotSupported
  | invalidParameterValue
  | invalidName
  | syntaxError
  | insufficientPrivilege
  | duplicateTable
  | wrongObjectType
  | fdwInvalidStringFormat
  | internalError
  | queryCanceled
  | checkViolation
  deriving DecidableEq, Repr

/-- One `ereport(ERROR, …)`. -/
structure Ereport where
  errcode : ErrCode
  errmsg : Bytes
  errdetail : Option Bytes := none
  errhint : Option Bytes := none
  deriving DecidableEq, Repr

/-- The result of code that may raise. -/
abbrev Raises := Except Ereport

end PgChdb
