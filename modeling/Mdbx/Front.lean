import Mdbx.Command

/-! The R functions in front of the entry points: what they check of their arguments, and what they
hand on.  Values come back as raw vectors. -/

namespace Mdbx

open ProofKit

/-- A numeric argument: `NULL`, a single number, where `NA` is not a number, or anything else. -/
inductive NumberArg where
  | null
  | number (x : Double)
  | other
  deriving DecidableEq

/-- A list of class `mdbx_dbi`; a field that is not a single non-empty string is `none`. -/
structure DbiRecord where
  name : Option Bytes
  path : Option String
  deriving DecidableEq

/-- A `db` argument. -/
inductive DbArg where
  | null
  | record (r : DbiRecord)
  | other
  deriving DecidableEq

/-- Why an R function stops by itself. -/
inductive FrontCondition where
  | limitNotNumber
  | notWhole (arg : String) (x : Double)
  | limitTooLarge (bound : Double)
  | notDbi
  | damagedDbi
  | otherEnvironment (path : String) (current : Option String)
  | expectedEnvOrTxn
  | dotsNotEmpty
  | tooManyRecords (entries : Double)
  | badIncrement
  | readonlyEnv
  | notPositive (arg nullHint : String)
  | sizeTooLarge (arg : String) (bound : Double)
  | tooManyReaders
  | noEnvironment (path : String) (readonly : Bool)
  | notPageSize
  | untranslatable
  deriving DecidableEq

def mdbxScanMax : Double := .ofNat 1000000

def maxReadersLimit : ℕ := 32767

/-- The text of a condition; `format` renders a number as R does. -/
def FrontCondition.message (format : Double → String) : FrontCondition → String
  | limitNotNumber => "`limit` must be a single non-negative number, or NULL for no limit"
  | notWhole arg x => s!"`{arg}` must be a whole number, not {format x}"
  | limitTooLarge bound =>
    s!"`limit` is too large: at most {bound.format0} on this platform, or Inf for no limit"
  | notDbi =>
    "`db` must be an 'mdbx_dbi' object from mdbx_dbi_open(), or NULL for the main database"
  | damagedDbi =>
    "`db` is not a valid 'mdbx_dbi' object: its `name` and `path` must each be a single " ++
      "non-empty string. Use mdbx_dbi_open() to obtain one, or NULL for the main database"
  | otherEnvironment _ none => ""
  | otherEnvironment path (some current) =>
    s!"this database handle belongs to the environment at '{path}', not '{current}'"
  | expectedEnvOrTxn => "expected an 'mdbx_env' or 'mdbx_txn' object"
  | dotsNotEmpty => "mdbx_env_stat() on an environment does not take `db`"
  | tooManyRecords entries =>
    s!"this database holds {entries.format0} records, more than mdbx_scan_max " ++
      s!"({mdbxScanMax.format0}); reading them all at once is refused by default. Pass " ++
      "`limit = n` for the first n in key order, or `limit = Inf` to read them all anyway"
  | badIncrement =>
    s!"`increment` must be a single number between 0 and {maxExactInteger.format0} (2^53)"
  | readonlyEnv => "cannot begin a write transaction on a read-only environment"
  | notPositive arg nullHint =>
    s!"`{arg}` must be a single positive number, or NULL for {nullHint}"
  | sizeTooLarge arg bound => s!"`{arg}` is too large: at most {bound.format0} on this platform"
  | tooManyReaders => s!"`max_readers` must be at most {maxReadersLimit}, libmdbx's limit"
  | noEnvironment path readonly =>
    s!"mdbx environment '{path}' does not exist, and " ++
      if readonly then "readonly = TRUE cannot create one" else "create = FALSE"
  | notPageSize =>
    "`x` must be an 'mdbx_env', an 'mdbx_txn', a single page size, or NULL"
  | untranslatable => "translating strings with \"bytes\" encoding is not allowed"

/-- How an R function ends that does not return: the entry point did not, or it stopped by
itself. -/
inductive Signal where
  | native (x : Exit)
  | stop (c : FrontCondition)
  deriving DecidableEq

/-- An R function of the package. -/
abbrev Front (σ α : Type) := Prog (World σ) Signal α

namespace Front

variable {σ α : Type}

/-- Call an entry point. -/
def call (m : Pkg σ α) : Front σ α := m.mapExit .native

def stop (c : FrontCondition) : Front σ α := Prog.exit (.stop c)

/-- Stop when `refused` holds. -/
def refuse (refused : Prop) [Decidable refused] (c : FrontCondition) : Front σ Unit :=
  if refused then stop c else pure ()

theorem refuse_run {refused : Prop} [Decidable refused] {c : FrontCondition} {w : World σ}
    (h : refused) : (refuse refused c).run w = (.error (.stop c), w) := by
  rw [refuse, if_pos h]
  rfl

theorem refuse_pass {refused : Prop} [Decidable refused] {c : FrontCondition} {w : World σ}
    (h : ¬ refused) : (refuse refused c).run w = (.ok (), w) := by
  rw [refuse, if_neg h]
  rfl

theorem call_ok {m : Pkg σ α} {w w' : World σ} {a : α} (h : m.run w = (.ok a, w')) :
    (call m).run w = (.ok a, w') := Prog.mapExit_ok _ h

theorem call_error {m : Pkg σ α} {w w' : World σ} {x : Exit} (h : m.run w = (.error x, w')) :
    (call m).run w = (.error (.native x), w') := Prog.mapExit_error _ h

end Front

variable {σ : Type} (L : Platform σ)

/-! ### Arguments -/

def checkWhole (x : Double) (arg : String) : Front σ Unit :=
  Front.refuse (x.isWhole = false) (.notWhole arg x)

/-- What the entry point takes for no limit. -/
def noLimit : Double := .ofRat (-1)

def checkLimit : NumberArg → Front σ Double
  | .null => pure noLimit
  | .other => Front.stop .limitNotNumber
  | .number x => do
    Front.refuse (x = .nan ∨ x.lt (.ofNat 0) = true) .limitNotNumber
    if x = .inf false then pure noLimit else do
    checkWhole x "limit"
    Front.refuse ((maxNativeInteger L).lt x = true) (.limitTooLarge (maxNativeInteger L))
    pure x

/-- A count or a size; what the entry points take for the default is zero. -/
def checkSize (x : NumberArg) (arg : String) (bound : Double) (nullHint : String) :
    Front σ Double :=
  match x with
  | .null => pure (.ofNat 0)
  | .other => Front.stop (.notPositive arg nullHint)
  | .number x => do
    Front.refuse (x.isFinite = false ∨ x.le (.ofNat 0) = true) (.notPositive arg nullHint)
    checkWhole x arg
    Front.refuse (bound.lt x = true) (.sizeTooLarge arg bound)
    pure x

def libmdbxDefault : String := "the libmdbx default"

def checkReaders (x : NumberArg) : Front σ Double :=
  if x = .null then pure (.ofNat 0) else do
  let x ← checkSize x "max_readers" maxExactInteger libmdbxDefault
  Front.refuse ((Double.ofNat maxReadersLimit).lt x = true) .tooManyReaders
  pure x

/-- `mdbx_env_open`, with `path`, `mode` and `flags` as their checks return them; `found` is what
`env_exists` finds. -/
def mdbxEnvOpen (path key : String) (readonly create subdir found : Bool)
    (maxDbs mapSize maxReaders : NumberArg) (mode : ℤ) (flags : List String) : Front σ Sexp := do
  let maxDbs ← checkSize maxDbs "max_dbs" maxExactInteger libmdbxDefault
  let mapSize ← checkSize mapSize "map_size" (maxNativeInteger L) libmdbxDefault
  let maxReaders ← checkReaders maxReaders
  Front.refuse ((create = false ∨ readonly = true) ∧ found = false) (.noEnvironment path readonly)
  Front.call (mdbxEnvOpen_ L path key readonly subdir maxDbs mapSize maxReaders mode flags)

/-- The attribute `path` of an object of the package. -/
def World.pathAttr (w : World σ) : Sexp → Option String
  | .env x => (w.envSexps x).map EnvSexp.path
  | .txn x => (w.txnSexps x).map TxnSexp.path
  | .other => none

/-- The `db` argument as the entry points want it: no name for the main database, or the name. -/
def dbName (db : DbArg) (txn : Sexp) : Front σ (List Bytes) :=
  match db with
  | .null => pure []
  | .other => Front.stop .notDbi
  | .record ⟨some name, some path⟩ => do
    let w ← Prog.get
    Front.refuse (w.pathAttr txn ≠ some path) (.otherEnvironment path (w.pathAttr txn))
    pure [name]
  | .record _ => Front.stop .damagedDbi

/-! ### Statistics and scans -/

/-- `mdbx_env_stat`, dispatched on what `x` is, with a `db` argument. -/
def mdbxEnvStat (x : Sexp) (db : DbArg) : Front σ (List (String × Double)) :=
  match x with
  | .env _ => Front.stop .dotsNotEmpty
  | .other => Front.stop .expectedEnvOrTxn
  | .txn _ => do
    let names ← dbName db x
    Front.call (mdbxTxnStat_ L x names)

/-- `$entries` of a list of statistics. -/
def entriesOf (stat : List (String × Double)) : Double := (stat.lookup "entries").getD .nan

def guardUnbounded (txn : Sexp) (db : DbArg) : Front σ Unit := do
  let stat ← mdbxEnvStat L txn db
  Front.refuse (mdbxScanMax.lt (entriesOf stat) = true) (.tooManyRecords (entriesOf stat))

/-- `if (is.null(limit)) guard_unbounded(txn, db)` -/
def guardNull (limit : NumberArg) (txn : Sexp) (db : DbArg) : Front σ Unit :=
  if limit = .null then guardUnbounded L txn db else pure ()

def mdbxKeys (txn : Sexp) (limit : NumberArg) (db : DbArg) (start : Option Bytes)
    (reverse : Bool) : Front σ (List Bytes) := do
  guardNull L limit txn db
  let bound ← checkLimit L limit
  let names ← dbName db txn
  let found ← Front.call (mdbxScan_ L txn bound false names start reverse)
  pure found.1

def mdbxItems (txn : Sexp) (limit : NumberArg) (db : DbArg) (start : Option Bytes)
    (reverse : Bool) : Front σ (List Bytes × List Bytes) := do
  guardNull L limit txn db
  let bound ← checkLimit L limit
  let names ← dbName db txn
  Front.call (mdbxScan_ L txn bound true names start reverse)

/-! ### Records and databases -/

def mdbxGet (txn : Sexp) (key : Bytes) (db : DbArg) : Front σ (Option Bytes) := do
  let names ← dbName db txn
  Front.call (mdbxGet_ L txn key names)

def mdbxPut (txn : Sexp) (key value : Bytes) (overwrite : Bool) (db : DbArg) : Front σ Bool := do
  let names ← dbName db txn
  Front.call (mdbxPut_ L txn key value overwrite names)

def mdbxDel (txn : Sexp) (key : Bytes) (db : DbArg) : Front σ Bool := do
  let names ← dbName db txn
  Front.call (mdbxDel_ L txn key names)

/-- `name` is a non-empty string. -/
def mdbxDbiOpen (txn : Sexp) (name : Bytes) (create : Bool) : Front σ DbiRecord := do
  Front.call (mdbxDbiOpen_ L txn name create)
  let w ← Prog.get
  pure ⟨some name, w.pathAttr txn⟩

def mdbxDbiDrop (txn : Sexp) (db : DbArg) (delete : Bool) : Front σ Unit := do
  let names ← dbName db txn
  Front.call (mdbxDbiDrop_ L txn names delete)

def mdbxDbiSequence (txn : Sexp) (db : DbArg) (increment : NumberArg) : Front σ Double :=
  match increment with
  | .number x => do
    Front.refuse (x.isFinite = false ∨ x.lt (.ofNat 0) = true ∨ maxExactInteger.lt x = true)
      .badIncrement
    checkWhole x "increment"
    let names ← dbName db txn
    Front.call (mdbxDbiSequence_ L txn names x)
  | _ => Front.stop .badIncrement

/-! ### Limits of libmdbx -/

/-- What `mdbx_limits` is asked about. -/
inductive LimitsArg where
  | null
  | object (x : Sexp)
  | number (x : Double)
  | other
  deriving DecidableEq

/-- `mdbx_env_stat` without a `db` argument. -/
def mdbxEnvStatOf (x : Sexp) : Front σ (List (String × Double)) :=
  match x with
  | .env _ => Front.call (mdbxEnvStat_ L x)
  | .txn _ => Front.call (mdbxTxnStat_ L x [])
  | .other => Front.stop .expectedEnvOrTxn

/-- `$pagesize` of a list of statistics. -/
def pagesizeOf (stat : List (String × Double)) : Double := (stat.lookup "pagesize").getD .nan

def limitsPagesize (x : LimitsArg) : Front σ Double :=
  match x with
  | .null => pure (.ofNat 0)
  | .object x => do
    let stat ← mdbxEnvStatOf L x
    pure (pagesizeOf stat)
  | .number x => checkSize (.number x) "x" (maxNativeInteger L) "this system's page size"
  | .other => Front.stop .notPageSize

def mdbxLimits (x : LimitsArg) : Front σ (List (String × Double)) := do
  let pagesize ← limitsPagesize L x
  Front.call (mdbxLimits_ L pagesize)

end Mdbx
