import Mdbx.ProofKit.Binary64

/-! What the package reports: libmdbx statuses and their names, and the conditions that its entry
points raise, with their messages. -/

namespace Mdbx

open ProofKit

/-- A process id. -/
abbrev Pid := ℤ

abbrev Byte := Fin 256

/-- The byte that ends a C string. -/
def nul : Byte := ⟨0, by decide⟩

/-- A key, a value or a name, as libmdbx compares it. -/
abbrev Bytes := List Byte

/-- A status of libmdbx: zero, an `MDBX_*` code, or a system `errno`. -/
abbrev Status := ℤ

namespace Status

def success : Status := 0
def resultTrue : Status := -1
def keyExist : Status := -30799
def notFound : Status := -30798
def incompatible : Status := -30784
def badTxn : Status := -30782
def threadMismatch : Status := -30416
/-- `EACCES`. -/
def eaccess : Status := 13
/-- `ENOMEM`. -/
def enomem : Status := 12

end Status

/-- The statuses with a symbolic name, in the order of the table. -/
def errorTable : List (String × Status) :=
  [("MDBX_KEYEXIST", -30799), ("MDBX_NOTFOUND", -30798), ("MDBX_CORRUPTED", -30796),
   ("MDBX_PANIC", -30795), ("MDBX_VERSION_MISMATCH", -30794), ("MDBX_INVALID", -30793),
   ("MDBX_MAP_FULL", -30792), ("MDBX_DBS_FULL", -30791), ("MDBX_READERS_FULL", -30790),
   ("MDBX_TXN_FULL", -30788), ("MDBX_PAGE_FULL", -30786),
   ("MDBX_UNABLE_EXTEND_MAPSIZE", -30785), ("MDBX_INCOMPATIBLE", -30784),
   ("MDBX_BAD_RSLOT", -30783), ("MDBX_BAD_TXN", -30782), ("MDBX_BAD_VALSIZE", -30781),
   ("MDBX_BAD_DBI", -30780), ("MDBX_PROBLEM", -30779), ("MDBX_BUSY", -30778),
   ("MDBX_EBADSIGN", -30420), ("MDBX_WANNA_RECOVERY", -30419), ("MDBX_EKEYMISMATCH", -30418),
   ("MDBX_TOO_LARGE", -30417), ("MDBX_THREAD_MISMATCH", -30416),
   ("MDBX_TXN_OVERLAPPING", -30415), ("MDBX_DANGLING_DBI", -30412)]

def errorName (rc : Status) : Option String :=
  (errorTable.find? fun entry => entry.2 == rc).map Prod.fst

/-- What libmdbx recorded when an assertion of its own failed. -/
structure PanicInfo where
  message : String
  function : String
  line : ℕ
  deriving DecidableEq

/-- How a transaction ended, or that it has not. -/
inductive TxnState where
  | active
  | committed
  | aborted
  deriving DecidableEq

/-- The conditions that the package raises, one constructor for each message. -/
inductive Condition where
  | status (rc : Status)
  | assertionFailed (panic : PanicInfo)
  | expectedEnv
  | expectedTxn
  | foreignEnv (opener current : Pid)
  | foreignEnvClose (opener current : Pid)
  | envClosed
  | envUnusable
  | foreignTxn (opener current : Pid)
  | txnInvalid
  | txnUnusable
  | txnFinished (state : TxnState)
  | ownerClosed
  | ownerUnusable
  | unknownFlag (name : String)
  | maxDbsTooLarge
  | mapSizeTooLarge
  | maxReadersTooLarge
  | alreadyOpen (path : String) (incumbent : Option String)
  | txnsStillOpen (count : ℕ)
  | txnAlreadyOpen
  | rolledBack
  | missingDbi (name : Bytes) (path : String)
  | readOnlyTxn
  | createNeedsWrite
  | limitTooLarge
  | scanOutOfMemory
  | listOutOfMemory
  | pageSizeTooLarge
  | pageSizeUnusable (pagesize : Double)
  | sequenceExhausted (current increment : Double)
  | sequenceOverflow (increment : Double)
  | mainHoldsNamed
  | mainNotDeletable
  | flagsInTxn
  deriving DecidableEq

/-- The text that bytes spell as UTF-8. -/
def Bytes.text (bytes : Bytes) : String :=
  (String.fromUTF8? ⟨(bytes.map fun b => UInt8.ofNat b.val).toArray⟩).getD ""

/-- The text of a condition; `strerror` words the statuses of libmdbx. -/
def Condition.message (strerror : Status → String) : Condition → String
  | .status rc => s!"{strerror rc} (mdbx error {rc})"
  | .assertionFailed p => s!"libmdbx assertion failed: {p.message} ({p.function}:{p.line})"
  | .expectedEnv => "expected an 'mdbx_env' object"
  | .expectedTxn => "expected an 'mdbx_txn' object"
  | .foreignEnv opener current =>
    s!"this mdbx environment belongs to process {opener} and cannot be used from process " ++
      s!"{current}; it was inherited across a fork(). Open the environment inside the worker " ++
      "instead"
  | .foreignEnvClose opener current =>
    s!"this mdbx environment belongs to process {opener} and cannot be closed from process " ++
      s!"{current}; it was inherited across a fork()"
  | .envClosed => "this mdbx environment is closed"
  | .envUnusable => "this mdbx environment is unusable after a libmdbx assertion failure"
  | .foreignTxn opener current =>
    s!"this mdbx transaction belongs to process {opener} and cannot be used from process " ++
      s!"{current}; it was inherited across a fork(). libmdbx binds a transaction to the thread " ++
      "that began it"
  | .txnInvalid => "this mdbx transaction is no longer valid"
  | .txnUnusable => "this mdbx transaction is unusable after a libmdbx assertion failure"
  | .txnFinished .committed => "this mdbx transaction is already committed"
  | .txnFinished _ => "this mdbx transaction is already aborted"
  | .ownerClosed => "the environment owning this mdbx transaction is closed"
  | .ownerUnusable =>
    "the environment owning this mdbx transaction is unusable after a libmdbx assertion failure"
  | .unknownFlag name => s!"unknown mdbx flag '{name}'"
  | .maxDbsTooLarge => "max_dbs is too large: at most 2^53"
  | .mapSizeTooLarge => "map_size is too large for this platform's address space"
  | .maxReadersTooLarge => "max_readers is too large: at most 2^53"
  | .alreadyOpen path none =>
    s!"mdbx environment '{path}' is already open in this process; use the existing handle, or " ++
      "close it before opening it again"
  | .alreadyOpen path (some incumbent) =>
    s!"mdbx environment '{path}' is already open in this process, as '{incumbent}'; use the " ++
      "existing handle, or close it before opening it again"
  | .txnsStillOpen count =>
    s!"cannot close this mdbx environment: {count} transaction(s) still open; commit or abort " ++
      "them first"
  | .txnAlreadyOpen =>
    "this mdbx environment already has an open transaction; commit or abort it before beginning " ++
      "another (libmdbx allows one transaction per environment per thread)"
  | .rolledBack =>
    "this mdbx transaction was rolled back instead of committed: an earlier operation in it " ++
      "failed, which leaves the whole transaction unusable. No changes were written"
  | .missingDbi name path =>
    s!"named database '{Bytes.text name}' does not exist in '{path}'; pass create = TRUE inside " ++
      "a write transaction to create it"
  | .readOnlyTxn =>
    "this mdbx transaction is read-only; begin one with write = TRUE to modify the database"
  | .createNeedsWrite =>
    "create = TRUE needs a write transaction; this mdbx transaction is read-only, so begin one " ++
      "with write = TRUE, or pass create = FALSE to open a database that already exists"
  | .limitTooLarge => "limit is too large for this platform"
  | .scanOutOfMemory => "ran out of memory collecting keys; use `limit` to read fewer"
  | .listOutOfMemory => "ran out of memory listing databases"
  | .pageSizeTooLarge => "page size is too large for this platform"
  | .pageSizeUnusable pagesize =>
    s!"{pagesize.format0} is not a usable page size for libmdbx"
  | .sequenceExhausted current increment =>
    s!"this sequence stands at {current.format0}, and reserving {increment.format0} more would " ++
      "pass 2^53, the largest integer R's numeric type holds exactly. Past that point the " ++
      "counter would hand out duplicate values, so it stops here"
  | .sequenceOverflow increment =>
    s!"this sequence cannot be increased by {increment.format0} without overflowing its 64-bit " ++
      "counter"
  | .mainHoldsNamed =>
    "emptying the main database would also destroy the named databases in this environment, " ++
      "because each one is a record in the main database. Drop them by name first if that is " ++
      "what you want, or delete the main database's keys individually"
  | .mainNotDeletable =>
    "the main database cannot be deleted, only emptied: it is what records the named databases. " ++
      "Use delete = FALSE to empty it"
  | .flagsInTxn =>
    "cannot change flags while a transaction is open on this mdbx environment; commit or abort " ++
      "it first"

/-- `"MDBX_BUSY"` to `"mdbx_busy"`, a condition's most specific class. -/
def subclassOf (name : String) : String := name.map Char.toLower

/-- The classes of a condition: a status carries its own name and `mdbx_error` before the two that
every error has. -/
def Condition.classes : Condition → List String
  | .status rc =>
    ((errorName rc).map subclassOf).toList ++ ["mdbx_error", "error", "condition"]
  | _ => ["simpleError", "error", "condition"]

/-- Where the language leaves a program without a meaning. -/
inductive Undefined where
  | danglingPointer
  | narrowing
  deriving DecidableEq

/-- How code of the package leaves other than by returning: a raised condition, a panic on its way
to the guard below it, an R error that jumps past the C++ frames, or undefined behaviour. -/
inductive Exit where
  | stop (condition : Condition)
  | panic (info : PanicInfo)
  | longjmp
  | undefined (why : Undefined)
  deriving DecidableEq

end Mdbx
