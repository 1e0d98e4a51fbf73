import Mdbx.Data
import Mathlib.Logic.Relation

/-! Runs of one process: entry points called with any arguments, finalizers, and forks, each
starting where the one before it ended. -/

namespace Mdbx

/-- A call of a native entry point. -/
inductive Command where
  | envOpen (path key : String) (readonly subdir : Bool)
      (maxDbs mapSize maxReaders : ProofKit.Double) (mode : ℤ) (extraFlags : List String)
  | envClose (env : Sexp)
  | envIsOpen (env : Sexp)
  | envReaderCheck (env : Sexp)
  | envPath (env : Sexp)
  | envGetFlags (env : Sexp)
  | envSetFlags (env : Sexp) (flags : List String) (on : Bool)
  | envSync (env : Sexp) (force nonblock : Bool)
  | envStat (env : Sexp)
  | envInfo (env : Sexp)
  | txnBegin (env : Sexp) (write : Bool) (extraFlags : List String)
  | txnCommit (txn : Sexp)
  | txnAbort (txn : Sexp)
  | txnState (txn : Sexp)
  | txnId (txn : Sexp)
  | txnStat (txn : Sexp) (db : List Bytes)
  | txnInfo (txn : Sexp)
  | get (txn : Sexp) (key : Bytes) (db : List Bytes)
  | put (txn : Sexp) (key value : Bytes) (overwrite : Bool) (db : List Bytes)
  | del (txn : Sexp) (key : Bytes) (db : List Bytes)
  | scan (txn : Sexp) (limit : ProofKit.Double) (values : Bool) (db : List Bytes)
      (start : Option Bytes) (reverse : Bool)
  | dbiOpen (txn : Sexp) (name : Bytes) (create : Bool)
  | dbiDrop (txn : Sexp) (db : List Bytes) (delete : Bool)
  | dbiList (txn : Sexp)
  | dbiSequence (txn : Sexp) (db : List Bytes) (increment : ProofKit.Double)
  | limits (pagesize : ProofKit.Double)
  deriving DecidableEq

/-- What an entry point returns to R. -/
inductive Answer where
  | null
  | object (x : Sexp)
  | logical (b : Bool)
  | integer (n : ℤ)
  | number (x : ProofKit.Double)
  | text (s : String)
  | texts (ss : List String)
  | state (reported : Reported)
  | bytes (b : Option Bytes)
  | records (keys values : List Bytes)
  | names (names : List Bytes)
  | fields (fields : List (String × ProofKit.Double))
  deriving DecidableEq

variable {σ : Type} (L : Platform σ)

def Command.run : Command → Pkg σ Answer
  | envOpen path key readonly subdir maxDbs mapSize maxReaders mode extraFlags =>
    .object <$> mdbxEnvOpen_ L path key readonly subdir maxDbs mapSize maxReaders mode extraFlags
  | envClose env => (fun _ => .null) <$> mdbxEnvClose_ L env
  | envIsOpen env => .logical <$> mdbxEnvIsOpen_ env
  | envReaderCheck env => .integer <$> mdbxEnvReaderCheck_ L env
  | envPath env => .text <$> mdbxEnvPath_ L env
  | envGetFlags env => .texts <$> mdbxEnvGetFlags_ L env
  | envSetFlags env flags on => (fun _ => .null) <$> mdbxEnvSetFlags_ L env flags on
  | envSync env force nonblock => .logical <$> mdbxEnvSync_ L env force nonblock
  | envStat env => .fields <$> mdbxEnvStat_ L env
  | envInfo env => .fields <$> mdbxEnvInfo_ L env
  | txnBegin env write extraFlags => .object <$> mdbxTxnBegin_ L env write extraFlags
  | txnCommit txn => (fun _ => .null) <$> mdbxTxnCommit_ L txn
  | txnAbort txn => (fun _ => .null) <$> mdbxTxnAbort_ L txn
  | txnState txn => .state <$> mdbxTxnState_ L txn
  | txnId txn => .number <$> mdbxTxnId_ L txn
  | txnStat txn db => .fields <$> mdbxTxnStat_ L txn db
  | txnInfo txn => .fields <$> mdbxTxnInfo_ L txn
  | get txn key db => .bytes <$> mdbxGet_ L txn key db
  | put txn key value overwrite db => .logical <$> mdbxPut_ L txn key value overwrite db
  | del txn key db => .logical <$> mdbxDel_ L txn key db
  | scan txn limit values db start reverse =>
    (fun found => .records found.1 found.2) <$> mdbxScan_ L txn limit values db start reverse
  | dbiOpen txn name create => (fun _ => .null) <$> mdbxDbiOpen_ L txn name create
  | dbiDrop txn db delete => (fun _ => .null) <$> mdbxDbiDrop_ L txn db delete
  | dbiList txn => .names <$> mdbxDbiList_ L txn
  | dbiSequence txn db increment => .number <$> mdbxDbiSequence_ L txn db increment
  | limits pagesize => .fields <$> mdbxLimits_ L pagesize

/-- One step of a process: an entry point, the finalizer of an object that R has lost, or a fork,
after which the run continues in the child. -/
inductive Event where
  | entry (command : Command)
  | finalize (object : Object)
  | fork (child : Pid)
  deriving DecidableEq

/-- The world as a child process `child` finds it. -/
def World.forked (w : World σ) (child : Pid) : World σ :=
  { w with pid := child, forebears := w.pid :: w.forebears }

/-- The world after an event. -/
def Event.next (w : World σ) : Event → World σ
  | entry command => ((command.run L).run w).2
  | finalize object => ((Mdbx.finalize L object).run w).2
  | fork child => w.forked child

/-- A fork gives the child a process id that no process it descends from has. -/
def Event.Allowed (w : World σ) : Event → Prop
  | fork child => child ∉ w.pid :: w.forebears
  | _ => True

instance (w : World σ) : (event : Event) → Decidable (event.Allowed w)
  | .fork child => inferInstanceAs (Decidable (child ∉ w.pid :: w.forebears))
  | .entry _ | .finalize _ => .isTrue trivial

/-- One event takes `w` to `w'`. -/
def Step (w w' : World σ) : Prop := ∃ event : Event, event.Allowed w ∧ w' = event.next L w

/-- A run takes `w` to `w'`. -/
abbrev Steps : World σ → World σ → Prop := Relation.ReflTransGen (Step L)

/-- Some run from a fresh process reaches `w`. -/
def Reachable (w : World σ) : Prop := ∃ lib pid, Steps L (World.start lib pid) w

/-- R never fails to allocate. -/
def Platform.Allocates (L : Platform σ) : Prop := ∀ s, (L.allocate s).1.fails = false

end Mdbx
