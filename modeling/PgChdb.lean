import PgChdb.Lib.Bytes
import PgChdb.Lib.Text
import PgChdb.Lib.CString
import PgChdb.Lib.Utf8
import PgChdb.Lib.Fallible
import PgChdb.Lib.Effects
import PgChdb.Lib.Batch
import PgChdb.Lib.Memory
import PgChdb.Lib.Clause
import PgChdb.Lib.Literal
import PgChdb.Lib.Template
import PgChdb.Lib.Channels
import PgChdb.Lib.Fairness
import PgChdb.Lib.Machine
import PgChdb.Lib.Descriptors
import PgChdb.Ereport
import PgChdb.Setup.Payload
import PgChdb.Setup.Session
import PgChdb.Setup.Parse
import PgChdb.Setup.Channel
import PgChdb.Setup.Settings
import PgChdb.Native.Convert
import PgChdb.Native.Select
import PgChdb.Native.Insert
import PgChdb.Native.Send
import PgChdb.Native.Statement
import PgChdb.Native.Slots
import PgChdb.Native.Checks
import PgChdb.Native.Accounting
import PgChdb.Native.Buffering
import PgChdb.Helper.System
import PgChdb.Helper.Progress
import PgChdb.Helper.CopyFrom
import PgChdb.Helper.CopyTo
import PgChdb.Helper.HardErrors
import PgChdb.Helper.ErrorText
import PgChdb.Helper.RequestId
import PgChdb.Helper.Process
import PgChdb.Helper.Steady
import PgChdb.Helper.Release
import PgChdb.Helper.Capture
import PgChdb.Helper.Recv
import PgChdb.Helper.Exec
import PgChdb.Helper.Program
import PgChdb.Helper.ExitStatus
import PgChdb.Helper.Objects
import PgChdb.Helper.Follows
import PgChdb.Helper.Weave
import PgChdb.Helper.Whole
import PgChdb.Helper.Termination
import PgChdb.Hook.Query
import PgChdb.Hook.Placeholders
import PgChdb.Hook.Values
import PgChdb.Hook.Structure
import PgChdb.Hook.Types
import PgChdb.Hook.AsString
import PgChdb.Hook.Replacing
import PgChdb.Hook.Create
import PgChdb.Hook.ProcessUtility
import PgChdb.Hook.Load
import PgChdb.Hook.Privileges
import PgChdb.Hook.Creation
import PgChdb.Hook.InPlace
import PgChdb.Hook.Contract
import PgChdb.Hook.Azure
import PgChdb.Hook.Gcs
import PgChdb.Helper.Statements
import PgChdb.Helper.Rows
