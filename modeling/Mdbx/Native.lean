import Mdbx.Status

/-! The libmdbx calls that the package makes, with what they answer.  A platform decides each
answer; nothing is assumed of it here except that the calls made outside the panic guard do not
panic. -/

namespace Mdbx

/-- An `MDBX_env *`. -/
abbrev EnvPtr := ℕ

/-- An `MDBX_txn *`, with the environment that it was begun on. -/
structure TxnPtr where
  env : EnvPtr
  id : ℕ
  deriving DecidableEq

abbrev Dbi := ℕ

/-- An `MDBX_cursor *`, with its transaction. -/
structure CursorPtr where
  txn : TxnPtr
  id : ℕ
  deriving DecidableEq

/-- The `MDBX_option_t` values that the package sets. -/
inductive EnvOption where
  | maxDb
  | maxReaders
  deriving DecidableEq

/-- An `MDBX_cursor_op`; `setRange` carries the key that it looks for. -/
inductive CursorOp where
  | first
  | last
  | next
  | prev
  | setRange (key : Bytes)
  deriving DecidableEq

/-- The visitors that the package enumerates tables with: `count_visit` stops at the first. -/
inductive Visitor where
  | count
  | list
  deriving DecidableEq

/-- Who asks for an abort: `finish_txn`, or the code that tears handles down. -/
inductive Caller where
  | finishTxn
  | teardown
  deriving DecidableEq

inductive NativeCall where
  | envCreate (env : EnvPtr)
  | envSetOption (env : EnvPtr) (option : EnvOption) (value : ℕ)
  | envSetGeometry (env : EnvPtr) (upper : ℕ)
  | envOpen (env : EnvPtr) (path : String) (flags : ℕ) (mode : ℤ)
  | envGetFlags (env : EnvPtr)
  | envSetFlags (env : EnvPtr) (bits : ℕ) (on : Bool)
  | envSyncEx (env : EnvPtr) (force nonblock : Bool)
  | envClose (env : EnvPtr)
  | envHeapRoots (env : EnvPtr)
  | envGetPath (env : EnvPtr)
  | readerCheck (env : EnvPtr)
  | envStatEx (env : EnvPtr) (txn : Option TxnPtr)
  | envInfoEx (env : EnvPtr) (txn : Option TxnPtr)
  | txnBegin (txn : TxnPtr) (flags : ℕ)
  | txnCommit (txn : TxnPtr)
  | txnAbort (txn : TxnPtr) (caller : Caller)
  | txnFlags (txn : TxnPtr)
  | txnId (txn : TxnPtr)
  | dbiOpen (txn : TxnPtr) (name : Option Bytes) (flags : ℕ)
  | get (txn : TxnPtr) (dbi : Dbi) (key : Bytes)
  | put (txn : TxnPtr) (dbi : Dbi) (key value : Bytes) (flags : ℕ)
  | del (txn : TxnPtr) (dbi : Dbi) (key : Bytes)
  | cursorOpen (txn : TxnPtr) (dbi : Dbi)
  | cursorGet (cursor : CursorPtr) (op : CursorOp)
  | cursorClose (cursor : CursorPtr)
  | cmp (txn : TxnPtr) (dbi : Dbi) (a b : Bytes)
  | dbiStat (txn : TxnPtr) (dbi : Dbi)
  | dbiSequence (txn : TxnPtr) (dbi : Dbi) (increment : ℕ)
  | enumerateTables (txn : TxnPtr) (visitor : Visitor)
  | drop (txn : TxnPtr) (dbi : Dbi) (del : Bool)
  | limits (pagesize : ℕ)
  deriving DecidableEq

/-- The `MDBX_*` flag bits that the entry points combine. -/
def flagRdonly : ℕ := 0x20000
def flagNosubdir : ℕ := 0x4000
def flagCreate : ℕ := 0x40000
def flagUpsert : ℕ := 0
def flagNooverwrite : ℕ := 0x10
def flagTxnError : ℕ := 0x02

/-- `MDBX_stat`. -/
structure Stat where
  psize : ℕ
  depth : ℕ
  branchPages : ℕ
  leafPages : ℕ
  overflowPages : ℕ
  entries : ℕ
  modTxnid : ℕ
  deriving DecidableEq

/-- The fields of `MDBX_envinfo` that the package reports. -/
structure EnvInfo where
  geoLower : ℕ
  geoUpper : ℕ
  geoCurrent : ℕ
  geoShrink : ℕ
  geoGrow : ℕ
  mapsize : ℕ
  dxbFsize : ℕ
  lastPgno : ℕ
  recentTxnid : ℕ
  latterReaderTxnid : ℕ
  maxreaders : ℕ
  numreaders : ℕ
  dxbPagesize : ℕ
  sysPagesize : ℕ
  deriving DecidableEq

/-- What the `mdbx_limits_*` functions answer for one page size. -/
structure Limits where
  defaultPagesize : ℕ
  keysizeMin : ℤ
  keysizeMax : ℤ
  valsizeMin : ℤ
  valsizeMax : ℤ
  dbsizeMin : ℤ
  dbsizeMax : ℤ
  txnsizeMax : ℤ
  deriving DecidableEq

/-- Where libmdbx keeps an environment's page-number lists. -/
abbrev HeapRoots := Option ℕ × Option ℕ

namespace NativeCall

/-- What a call hands back beside its status. -/
@[reducible] def Payload : NativeCall → Type
  | envGetFlags _ => ℕ
  | envHeapRoots _ => HeapRoots
  | envGetPath _ => Option String
  | readerCheck _ => ℤ
  | envStatEx _ _ => Stat
  | envInfoEx _ _ => EnvInfo
  | txnFlags _ => ℕ
  | txnId _ => ℕ
  | dbiOpen _ _ _ => Dbi
  | get _ _ _ => Bytes
  | cursorOpen _ _ => ℕ
  | cursorGet _ _ => Bytes × Bytes
  | cmp _ _ _ _ => ℤ
  | dbiStat _ _ => Stat
  | dbiSequence _ _ _ => ℕ
  | enumerateTables _ _ => List Bytes
  | limits _ => Limits
  | _ => Unit

/-- The environment that a call on an environment works in. -/
def env? : NativeCall → Option EnvPtr
  | envSetOption env _ _ | envSetGeometry env _ | envOpen env _ _ _ | envGetFlags env
  | envSetFlags env _ _ | envSyncEx env _ _ | envClose env | envHeapRoots env | envGetPath env
  | readerCheck env | envStatEx env _ | envInfoEx env _ => some env
  | txnBegin txn _ => some txn.env
  | _ => none

/-- The transaction that a call works in. -/
def txn? : NativeCall → Option TxnPtr
  | envStatEx _ txn | envInfoEx _ txn => txn
  | txnCommit txn | txnAbort txn _ | txnFlags txn | txnId txn | dbiOpen txn _ _ | get txn _ _
  | put txn _ _ _ _ | del txn _ _ | cursorOpen txn _ | cmp txn _ _ _ | dbiStat txn _
  | dbiSequence txn _ _ | enumerateTables txn _ | drop txn _ _ => some txn
  | cursorGet cursor _ | cursorClose cursor => some cursor.txn
  | _ => none

/-- The calls made outside the panic guard. -/
def unguarded : NativeCall → Bool
  | txnFlags _ | txnId _ | envHeapRoots _ | limits _ => true
  | _ => false

end NativeCall

/-- The status of a call and what it hands back; a call without a status reports success. -/
structure Reply (c : NativeCall) where
  rc : Status
  out : c.Payload

/-- An object of the package: the external pointer of an environment or of a transaction. -/
inductive Object where
  | env (ref : ℕ)
  | txn (ref : ℕ)
  deriving DecidableEq

/-- What an allocation of R does besides allocating: the finalizers that its collection runs, and
whether it fails. -/
structure Allocation where
  finalized : List Object
  fails : Bool

/-- Everything outside the package: libmdbx, the C++ and R allocators, and the collector. -/
structure Platform (σ : Type) where
  call : (c : NativeCall) → σ → Except PanicInfo (Reply c) × σ
  quiet : ∀ c s, c.unguarded = true → ∃ r, (call c s).1 = .ok r
  /-- `std::bad_alloc` at the next growth of a vector below the guard. -/
  badAlloc : σ → Bool × σ
  allocate : σ → Allocation × σ
  strerror : Status → String
  /-- `sizeof(void *) >= 8`. -/
  wide : Bool

/-- How a call ended. -/
inductive Outcome where
  | returned (rc : Status)
  | panicked
  deriving DecidableEq

/-- A call that was made, and by which process. -/
structure Call where
  pid : Pid
  call : NativeCall
  outcome : Outcome
  deriving DecidableEq

end Mdbx
