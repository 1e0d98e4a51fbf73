import Mdbx.Lifecycle

/-! The entry points that work inside a transaction or ask about an environment: records, scans,
named databases, sequences, statistics, flags and limits. -/

namespace Mdbx

open ProofKit

variable {σ : Type} (L : Platform σ)

/-! ### Resolving a database -/

/-- The status of a `mdbx_dbi_open` and the number it gave. -/
def dbiCall (k : TxnHandle) (name : Option Bytes) (flags : ℕ) : Pkg σ (Status × Dbi) := do
  let txnPtr ← nonNull k.txn
  let reply ← native L (.dbiOpen txnPtr name flags)
  pure (reply.rc, reply.out)

/-- Refuse a named database that does not exist. -/
def stopMissingDbi {α : Type} (k : TxnHandle) (name : Bytes) : Pkg σ α := do
  let e ← nonNull k.owner
  let h ← derefEnv e
  stop (.missingDbi name h.path)

/-- The number that the transaction's name cache holds for a database. -/
def TxnHandle.cached (k : TxnHandle) : Option Bytes → Option Dbi
  | none => if k.mainReady then some k.mainDbi else none
  | some name => (k.named.find? fun entry => entry.1 == name).map Prod.snd

/-- Remember the number that `mdbx_dbi_open` gave for a database. -/
def TxnHandle.remember (k : TxnHandle) (name : Option Bytes) (dbi : Dbi) : TxnHandle :=
  match name with
  | none => { k with mainDbi := dbi, mainReady := true }
  | some name => { k with named := k.named ++ [(name, dbi)] }

/-- Point the handle's `dbi` at the database, opening it in this transaction if it has not been
resolved here yet. -/
def ensureDbiNamed (t : TxnRef) (name : Option Bytes) : Pkg σ Dbi := do
  let k ← derefTxn t
  match k.cached name with
  | some dbi => do
    updateTxn t fun k => { k with dbi := dbi }
    pure dbi
  | none => do
    let (rc, dbi) ← guard (dbiCall L k name 0) (poisonTxn t)
    ifSome name fun name => whenever (rc = Status.notFound) (stopMissingDbi k name)
    check rc
    updateTxn t fun k => { k.remember name dbi with dbi := dbi }
    pure dbi

/-- The database named by an R argument: `character(0)` means the main database. -/
def ensureDbi (t : TxnRef) (db : List Bytes) : Pkg σ Dbi := ensureDbiNamed L t db.head?

def writableTxn (txn : Sexp) : Pkg σ TxnRef := do
  let t ← txnFromSexp txn
  let k ← derefTxn t
  refuse (k.write = false) .readOnlyTxn
  pure t

/-- The native transaction and the current database of a handle, as the guarded calls use them. -/
def current (t : TxnRef) : Pkg σ (TxnPtr × Dbi) := do
  let k ← derefTxn t
  let txnPtr ← nonNull k.txn
  pure (txnPtr, k.dbi)

/-! ### Records -/

def getCall (t : TxnRef) (key : Bytes) : Pkg σ (Status × Bytes) := do
  let (txnPtr, dbi) ← current t
  let reply ← native L (.get txnPtr dbi key)
  pure (reply.rc, reply.out)

def mdbxGet_ (txn : Sexp) (key : Bytes) (db : List Bytes) : Pkg σ (Option Bytes) := do
  let t ← txnFromSexp txn
  let _ ← ensureDbi L t db
  let (rc, data) ← guard (getCall L t key) (poisonTxn t)
  if rc = Status.notFound then pure none else do
  check rc
  pure (some data)

def putCall (t : TxnRef) (key value : Bytes) (flags : ℕ) : Pkg σ Status := do
  let (txnPtr, dbi) ← current t
  let reply ← native L (.put txnPtr dbi key value flags)
  pure reply.rc

/-- False is a key that is present already, with `overwrite` false. -/
def mdbxPut_ (txn : Sexp) (key value : Bytes) (overwrite : Bool) (db : List Bytes) :
    Pkg σ Bool := do
  let t ← writableTxn txn
  let _ ← ensureDbi L t db
  let rc ← guard (putCall L t key value (if overwrite then flagUpsert else flagNooverwrite))
    (poisonTxn t)
  if rc = Status.keyExist then pure false else do
  check rc
  pure true

def delCall (t : TxnRef) (key : Bytes) : Pkg σ Status := do
  let (txnPtr, dbi) ← current t
  let reply ← native L (.del txnPtr dbi key)
  pure reply.rc

/-- Whether a record existed. -/
def mdbxDel_ (txn : Sexp) (key : Bytes) (db : List Bytes) : Pkg σ Bool := do
  let t ← writableTxn txn
  let _ ← ensureDbi L t db
  let rc ← guard (delCall L t key) (poisonTxn t)
  if rc = Status.notFound then pure false else do
  check rc
  pure true

/-! ### Scans -/

/-- What a scan has collected, as `scan_call` leaves it in its context. -/
structure Scanned where
  keys : List Bytes
  values : List Bytes
  outOfMemory : Bool
  rc : Status
  deriving DecidableEq

/-- A scan's status and the record it reached. -/
abbrev Reached := Status × Bytes × Bytes

def cursorGet (cursor : CursorPtr) (op : CursorOp) : Pkg σ Reached := do
  let reply ← native L (.cursorGet cursor op)
  pure (reply.rc, reply.out)

/-- The first move.  A backward walk from `start` steps back once if it overshot, and starts from
the end if `start` is past every key. -/
def position (cursor : CursorPtr) (dbi : Dbi) (reverse : Bool) (start : Option Bytes) :
    Pkg σ Reached :=
  match start with
  | none => cursorGet L cursor (if reverse then .last else .first)
  | some from_ => do
    let (rc, key, value) ← cursorGet L cursor (.setRange from_)
    if reverse = true ∧ rc = Status.notFound then cursorGet L cursor .last
    else if reverse = true ∧ rc = Status.success then do
      let order ← native L (.cmp cursor.txn dbi key from_)
      if 0 < order.out then cursorGet L cursor .prev else pure (rc, key, value)
    else pure (rc, key, value)

/-- Append what the cursor reached; false is a `std::bad_alloc`. -/
def collect (wantValues : Bool) (key value : Bytes) (found : Scanned) :
    Pkg σ (Bool × Scanned) := do
  let room ← grow L
  if room = false then pure (false, found) else do
  let found := { found with keys := found.keys ++ [key] }
  if wantValues = false then pure (true, found) else do
  let room ← grow L
  if room = false then pure (false, found) else
  pure (true, { found with values := found.values ++ [value] })

/-- The loop of `scan_call` with `remaining` records to go, of which `move` reaches the first. -/
def scanLoop (cursor : CursorPtr) (wantValues reverse : Bool) :
    ℕ → Pkg σ Reached → Scanned → Pkg σ Scanned
  | 0, _, found => pure found
  | remaining + 1, move, found => do
    let (rc, key, value) ← move
    if rc = Status.notFound then pure found else
    if rc ≠ Status.success then pure { found with rc := rc } else do
    let (room, found) ← collect L wantValues key value found
    if room = false then pure { found with outOfMemory := true } else
    scanLoop cursor wantValues reverse remaining
      (cursorGet L cursor (if reverse then .prev else .next)) found

def scanCall (t : TxnRef) (limit : ℕ) (wantValues reverse : Bool) (start : Option Bytes) :
    Pkg σ Scanned := do
  let (txnPtr, dbi) ← current t
  let opened ← native L (.cursorOpen txnPtr dbi)
  if opened.rc ≠ Status.success then pure ⟨[], [], false, opened.rc⟩ else do
  let cursor : CursorPtr := ⟨txnPtr, opened.out⟩
  let found ← scanLoop L cursor wantValues reverse limit (position L cursor dbi reverse start)
    ⟨[], [], false, opened.rc⟩
  let _ ← native L (.cursorClose cursor)
  pure found

/-- `limit < 0 ? static_cast<size_t>(-1) : static_cast<size_t>(limit)`. -/
def scanLimit (limit : Double) : Pkg σ ℕ :=
  if limit.lt (.ofNat 0) then pure (sizeBound L - 1) else narrow (sizeBound L) limit

/-- The keys and the values of up to `limit` records; a negative limit is none. -/
def mdbxScan_ (txn : Sexp) (limit : Double) (values : Bool) (db : List Bytes)
    (start : Option Bytes) (reverse : Bool) : Pkg σ (List Bytes × List Bytes) := do
  refuse (¬ limit.le (maxNativeInteger L)) .limitTooLarge
  let t ← txnFromSexp txn
  let _ ← ensureDbi L t db
  let bound ← scanLimit L limit
  let found ← guard (scanCall L t bound values reverse start) (poisonTxn t)
  refuse (found.outOfMemory = true) .scanOutOfMemory
  check found.rc
  pure (found.keys, if values then found.values else [])

/-! ### Named databases -/

/-- The walk of `mdbx_dbi_open_` over the name cache. -/
def assignNamed (name : Bytes) (dbi : Dbi) : List (Bytes × Dbi) → List (Bytes × Dbi)
  | [] => [(name, dbi)]
  | entry :: rest =>
    if entry.1 = name then (name, dbi) :: rest else entry :: assignNamed name dbi rest

def mdbxDbiOpen_ (txn : Sexp) (name : Bytes) (create : Bool) : Pkg σ Unit := do
  let t ← txnFromSexp txn
  let k ← derefTxn t
  refuse (create = true ∧ k.write = false) .createNeedsWrite
  let (rc, dbi) ← guard (dbiCall L k (some name) (if create then flagCreate else 0)) (poisonTxn t)
  whenever (rc = Status.notFound) (stopMissingDbi k name)
  check rc
  updateTxn t fun k => { k with named := assignNamed name dbi k.named }

/-- `count_visit` over the tables that the enumeration visits: it stops at the first. -/
def countVisit (rc : Status) : List Bytes → Status × ℕ
  | [] => (rc, 0)
  | _ :: _ => (Status.resultTrue, 1)

def countCall (t : TxnRef) : Pkg σ (Status × ℕ) := do
  let (txnPtr, _) ← current t
  let reply ← native L (.enumerateTables txnPtr .count)
  let (rc, count) := countVisit reply.rc reply.out
  pure (if rc = Status.resultTrue then Status.success else rc, count)

/-- Whether this transaction can see any named database. -/
def countNamedTables (t : TxnRef) : Pkg σ ℕ := do
  let (rc, count) ← guard (countCall L t) (poisonTxn t)
  check rc
  pure count

def dropCall (t : TxnRef) (del : Bool) : Pkg σ Status := do
  let (txnPtr, dbi) ← current t
  let reply ← native L (.drop txnPtr dbi del)
  pure reply.rc

/-- Emptying the main database would destroy every named database with it. -/
def refuseMainWithNamed (t : TxnRef) (db : List Bytes) (del : Bool) : Pkg σ Unit :=
  whenever (del = false ∧ db = []) do
    let count ← countNamedTables L t
    refuse (0 < count) .mainHoldsNamed

/-- Empty a database, or delete it outright. -/
def mdbxDbiDrop_ (txn : Sexp) (db : List Bytes) (del : Bool) : Pkg σ Unit := do
  let t ← writableTxn txn
  refuseMainWithNamed L t db del
  refuse (del = true ∧ db = []) .mainNotDeletable
  let _ ← ensureDbi L t db
  let rc ← guard (dropCall L t del) (poisonTxn t)
  check rc
  whenever (del = true) <| ifSome db.head? fun name =>
    updateTxn t fun k => { k with named := k.named.eraseP (·.1 == name) }

/-- `list_visit` over the tables that the enumeration visits. -/
def listVisit (rc : Status) : List Bytes → List Bytes → Pkg σ (Status × List Bytes × Bool)
  | names, [] => pure (rc, names, false)
  | names, name :: rest => do
    let room ← grow L
    if room then listVisit rc (names ++ [name]) rest else pure (Status.enomem, names, true)

def listCall (t : TxnRef) : Pkg σ (Status × List Bytes × Bool) := do
  let (txnPtr, _) ← current t
  let reply ← native L (.enumerateTables txnPtr .list)
  listVisit L reply.rc [] reply.out

def mdbxDbiList_ (txn : Sexp) : Pkg σ (List Bytes) := do
  let t ← txnFromSexp txn
  let (rc, names, outOfMemory) ← guard (listCall L t) (poisonTxn t)
  refuse (outOfMemory = true) .listOutOfMemory
  check rc
  pure names

/-! ### Sequences -/

def sequenceCall (t : TxnRef) (increment : ℕ) : Pkg σ (Status × ℕ) := do
  let (txnPtr, dbi) ← current t
  let reply ← native L (.dbiSequence txnPtr dbi increment)
  pure (reply.rc, reply.out)

/-- Advance the sequence, which stands at `current`, unless that would pass the numbers that a
double holds exactly. -/
def advanceSequence (t : TxnRef) (current increment : Double) : Pkg σ Double := do
  refuse (¬ increment.le maxExactInteger ∨ (maxExactInteger.sub increment).lt current)
    (.sequenceExhausted current increment)
  let amount ← narrow (2 ^ 64) increment
  let (rc, result) ← guard (sequenceCall L t amount) (poisonTxn t)
  refuse (rc = Status.resultTrue) (.sequenceOverflow increment)
  check rc
  pure (.ofNat result)

/-- Reading the sequence is a read; only advancing it needs a write transaction. -/
def sequenceTxn (txn : Sexp) (increment : Double) : Pkg σ TxnRef :=
  if (Double.ofNat 0).lt increment then writableTxn txn else txnFromSexp txn

/-- Read, and with an `increment` above zero advance, a database's sequence. -/
def mdbxDbiSequence_ (txn : Sexp) (db : List Bytes) (increment : Double) : Pkg σ Double := do
  let t ← sequenceTxn txn increment
  let _ ← ensureDbi L t db
  let (rc, result) ← guard (sequenceCall L t 0) (poisonTxn t)
  check rc
  if increment.le (.ofNat 0) then pure (.ofNat result)
  else advanceSequence L t (.ofNat result) increment

/-! ### Statistics and environment information -/

/-- The transaction that this thread already holds on the environment, if any. -/
def currentTxnAmong : List TxnRef → Pkg σ (Option TxnPtr)
  | [] => pure none
  | t :: rest => do
    let k ← derefTxn t
    match k.txn with
    | some txnPtr => pure (some txnPtr)
    | none => currentTxnAmong rest

def currentTxn (e : EnvRef) : Pkg σ (Option TxnPtr) := do
  let h ← derefEnv e
  currentTxnAmong h.liveTxns

/-- The counts of a `MDBX_stat`, as R receives them. -/
def statList (stat : Stat) : List (String × Double) :=
  [("pagesize", .ofNat stat.psize), ("depth", .ofNat stat.depth),
   ("branch_pages", .ofNat stat.branchPages), ("leaf_pages", .ofNat stat.leafPages),
   ("overflow_pages", .ofNat stat.overflowPages), ("entries", .ofNat stat.entries),
   ("mod_txnid", .ofNat stat.modTxnid)]

def infoList (info : EnvInfo) : List (String × Double) :=
  [("geo_lower", .ofNat info.geoLower), ("geo_upper", .ofNat info.geoUpper),
   ("geo_current", .ofNat info.geoCurrent), ("geo_shrink", .ofNat info.geoShrink),
   ("geo_grow", .ofNat info.geoGrow), ("mapsize", .ofNat info.mapsize),
   ("file_size", .ofNat info.dxbFsize), ("last_pgno", .ofNat info.lastPgno),
   ("recent_txnid", .ofNat info.recentTxnid),
   ("latter_reader_txnid", .ofNat info.latterReaderTxnid),
   ("maxreaders", .ofNat info.maxreaders), ("numreaders", .ofNat info.numreaders),
   ("pagesize", .ofNat info.dxbPagesize), ("sys_pagesize", .ofNat info.sysPagesize)]

def statCall (env : EnvPtr) (txn : Option TxnPtr) : Pkg σ (Status × Stat) := do
  let reply ← native L (.envStatEx env txn)
  pure (reply.rc, reply.out)

def runStat (owner : EnvRef) (txn : Option TxnPtr) : Pkg σ (List (String × Double)) := do
  let h ← derefEnv owner
  let env ← nonNull h.env
  let (rc, stat) ← guard (statCall L env txn) (poisonEnv owner)
  check rc
  pure (statList stat)

def infoCall (env : EnvPtr) (txn : Option TxnPtr) : Pkg σ (Status × EnvInfo) := do
  let reply ← native L (.envInfoEx env txn)
  pure (reply.rc, reply.out)

def runInfo (owner : EnvRef) (txn : Option TxnPtr) : Pkg σ (List (String × Double)) := do
  let h ← derefEnv owner
  let env ← nonNull h.env
  let (rc, info) ← guard (infoCall L env txn) (poisonEnv owner)
  check rc
  pure (infoList info)

def mdbxEnvStat_ (env : Sexp) : Pkg σ (List (String × Double)) := do
  let e ← envFromSexp env
  let txn ← currentTxn e
  runStat L e txn

def dbiStatCall (t : TxnRef) : Pkg σ (Status × Stat) := do
  let (txnPtr, dbi) ← current t
  let reply ← native L (.dbiStat txnPtr dbi)
  pure (reply.rc, reply.out)

def mdbxTxnStat_ (txn : Sexp) (db : List Bytes) : Pkg σ (List (String × Double)) := do
  let t ← txnFromSexp txn
  let k ← derefTxn t
  if db = [] then do
    let owner ← nonNull k.owner
    runStat L owner k.txn
  else do
    let _ ← ensureDbi L t db
    let (rc, stat) ← guard (dbiStatCall L t) (poisonTxn t)
    check rc
    pure (statList stat)

def mdbxEnvInfo_ (env : Sexp) : Pkg σ (List (String × Double)) := do
  let e ← envFromSexp env
  let txn ← currentTxn e
  runInfo L e txn

def mdbxTxnInfo_ (txn : Sexp) : Pkg σ (List (String × Double)) := do
  let t ← txnFromSexp txn
  let k ← derefTxn t
  let owner ← nonNull k.owner
  runInfo L owner k.txn

/-! ### Environment calls without a transaction -/

/-- A guarded call on the open environment `e`. -/
def envCall (e : EnvRef) (c : EnvPtr → NativeCall) : Pkg σ (Σ env, Reply (c env)) :=
  guard (do
    let h ← derefEnv e
    let env ← nonNull h.env
    let reply ← native L (c env)
    pure ⟨env, reply⟩) (poisonEnv e)

/-- How many stale readers were removed; `MDBX_RESULT_TRUE` reports that some were. -/
def mdbxEnvReaderCheck_ (env : Sexp) : Pkg σ ℤ := do
  let e ← envFromSexp env
  let ⟨_, reply⟩ ← envCall L e .readerCheck
  whenever (reply.rc ≠ Status.resultTrue) (check reply.rc)
  pure reply.out

def mdbxEnvPath_ (env : Sexp) : Pkg σ String := do
  let e ← envFromSexp env
  let ⟨_, reply⟩ ← envCall L e .envGetPath
  check reply.rc
  pure (reply.out.getD "")

def mdbxEnvGetFlags_ (env : Sexp) : Pkg σ (List String) := do
  let e ← envFromSexp env
  let ⟨_, reply⟩ ← envCall L e .envGetFlags
  check reply.rc
  pure (namesFrom reply.out)

def mdbxEnvSetFlags_ (env : Sexp) (flags : List String) (on : Bool) : Pkg σ Unit := do
  let e ← envFromSexp env
  let h ← derefEnv e
  refuse (h.liveTxns ≠ []) .flagsInTxn
  let bits ← envFlagsFromNames flags
  let ⟨_, reply⟩ ← envCall L e (.envSetFlags · bits on)
  check reply.rc

/-- False when nothing was pending, which `MDBX_RESULT_TRUE` reports. -/
def mdbxEnvSync_ (env : Sexp) (force nonblock : Bool) : Pkg σ Bool := do
  let e ← envFromSexp env
  let ⟨_, reply⟩ ← envCall L e (.envSyncEx · force nonblock)
  if reply.rc = Status.resultTrue then pure false else do
  check reply.rc
  pure true

/-! ### Limits -/

/-- A `uint64_t` made of a signed result. -/
def asUnsigned (n : ℤ) : Double := .ofNat (n % 2 ^ 64).toNat

def mdbxLimits_ (pagesize : Double) : Pkg σ (List (String × Double)) := do
  refuse (¬ pagesize.le (maxNativeInteger L)) .pageSizeTooLarge
  let ps ← narrow (intptrBound L) (orZero pagesize)
  let reply ← native L (.limits ps)
  let out := reply.out
  refuse (out.keysizeMax < 0 ∨ out.valsizeMax < 0 ∨ out.dbsizeMin < 0 ∨ out.dbsizeMax < 0 ∨
    out.txnsizeMax < 0) (.pageSizeUnusable pagesize)
  pure [("pagesize", .ofNat (if 0 < ps then ps else out.defaultPagesize)),
    ("keysize_min", asUnsigned out.keysizeMin), ("keysize_max", asUnsigned out.keysizeMax),
    ("valsize_min", asUnsigned out.valsizeMin), ("valsize_max", asUnsigned out.valsizeMax),
    ("dbsize_min", asUnsigned out.dbsizeMin), ("dbsize_max", asUnsigned out.dbsizeMax),
    ("txnsize_max", asUnsigned out.txnsizeMax)]

end Mdbx
