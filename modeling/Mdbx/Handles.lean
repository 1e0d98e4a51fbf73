import Mdbx.Native
import Mdbx.ProofKit.Program
import Mathlib.Logic.Function.Basic
import Mathlib.Data.Prod.Basic
import Mathlib.Tactic.Simps.Basic

/-! The state that the package keeps: its C++ handles, the external pointers that R holds on them,
and the process-wide registries.  A native object and the handle made for it bear one number, drawn
from `next`. -/

namespace Mdbx

open ProofKit

/-- The address of an `env_handle`. -/
abbrev EnvRef := ℕ

/-- The address of a `txn_handle`. -/
abbrev TxnRef := ℕ

structure EnvHandle where
  env : Option EnvPtr
  poisoned : Bool
  pid : Pid
  key : String
  path : String
  liveTxns : List TxnRef
  heapRoots : HeapRoots
  deriving DecidableEq

structure TxnHandle where
  txn : Option TxnPtr
  owner : Option EnvRef
  state : TxnState
  write : Bool
  poisoned : Bool
  pid : Pid
  dbi : Dbi
  mainDbi : Dbi
  mainReady : Bool
  named : List (Bytes × Dbi)
  deriving DecidableEq

/-- The external pointer of an environment; `addr` is null once its finalizer has run. -/
structure EnvSexp where
  addr : Option EnvRef
  path : String
  readonly : Bool
  subdir : Bool
  deriving DecidableEq

/-- The external pointer of a transaction; `prot` is the environment object that it protects. -/
structure TxnSexp where
  addr : Option TxnRef
  prot : Option ℕ
  write : Bool
  path : String
  deriving DecidableEq

/-- An entry of the `abandoned` registry. -/
inductive Abandoned where
  | env (env : EnvPtr)
  | txn (txn : TxnPtr)
  | root (address : ℕ)
  deriving DecidableEq

/-- One process: libmdbx below, the calls made to it so far (the latest first), the processes that
it descends from, and what the package keeps. -/
structure World (σ : Type) where
  lib : σ
  log : List Call
  pid : Pid
  forebears : List Pid
  next : ℕ
  envs : EnvRef → Option EnvHandle
  txns : TxnRef → Option TxnHandle
  envSexps : ℕ → Option EnvSexp
  txnSexps : ℕ → Option TxnSexp
  openEnvs : List EnvRef
  abandoned : List Abandoned
  liveEnvHandles : ℤ
  liveTxnHandles : ℤ

/-- A fresh process `pid` over the library state `lib`. -/
def World.start {σ : Type} (lib : σ) (pid : Pid) : World σ where
  lib := lib
  log := []
  pid := pid
  forebears := []
  next := 0
  envs := fun _ => none
  txns := fun _ => none
  envSexps := fun _ => none
  txnSexps := fun _ => none
  openEnvs := []
  abandoned := []
  liveEnvHandles := 0
  liveTxnHandles := 0

/-- What R passes where the package expects one of its objects. -/
inductive Sexp where
  | env (object : ℕ)
  | txn (object : ℕ)
  | other
  deriving DecidableEq

/-- Code of the package. -/
abbrev Pkg (σ α : Type) := Prog (World σ) Exit α

namespace World

variable {σ : Type}

@[simps] def setEnv (w : World σ) (e : EnvRef) (h : Option EnvHandle) : World σ :=
  { w with envs := Function.update w.envs e h }

@[simps] def setTxn (w : World σ) (t : TxnRef) (k : Option TxnHandle) : World σ :=
  { w with txns := Function.update w.txns t k }

@[simps] def setEnvSexp (w : World σ) (x : ℕ) (s : EnvSexp) : World σ :=
  { w with envSexps := Function.update w.envSexps x (some s) }

@[simps] def setTxnSexp (w : World σ) (x : ℕ) (s : TxnSexp) : World σ :=
  { w with txnSexps := Function.update w.txnSexps x (some s) }

attribute [grind =] setEnv_lib setEnv_log setEnv_pid setEnv_forebears setEnv_next setEnv_envs
  setEnv_txns setEnv_envSexps setEnv_txnSexps setEnv_openEnvs setEnv_abandoned
  setEnv_liveEnvHandles setEnv_liveTxnHandles
attribute [grind =] setTxn_lib setTxn_log setTxn_pid setTxn_forebears setTxn_next setTxn_envs
  setTxn_txns setTxn_envSexps setTxn_txnSexps setTxn_openEnvs setTxn_abandoned
  setTxn_liveEnvHandles setTxn_liveTxnHandles
attribute [grind =] setEnvSexp_lib setEnvSexp_log setEnvSexp_pid setEnvSexp_forebears
  setEnvSexp_next setEnvSexp_envs setEnvSexp_txns setEnvSexp_envSexps setEnvSexp_txnSexps
  setEnvSexp_openEnvs setEnvSexp_abandoned setEnvSexp_liveEnvHandles setEnvSexp_liveTxnHandles
attribute [grind =] setTxnSexp_lib setTxnSexp_log setTxnSexp_pid setTxnSexp_forebears
  setTxnSexp_next setTxnSexp_envs setTxnSexp_txns setTxnSexp_envSexps setTxnSexp_txnSexps
  setTxnSexp_openEnvs setTxnSexp_abandoned setTxnSexp_liveEnvHandles setTxnSexp_liveTxnHandles
attribute [grind =] Function.update_apply

/-- The world after the call `c` ended in `outcome`, leaving libmdbx at `lib`. -/
@[simps] def called (w : World σ) (c : NativeCall) (lib : σ) (outcome : Outcome) : World σ :=
  { w with lib := lib, log := ⟨w.pid, c, outcome⟩ :: w.log }

end World

section Primitives

variable {σ α : Type}

def stop (condition : Condition) : Pkg σ α := Prog.exit (.stop condition)

/-- Raise `condition` when `refused` holds. -/
def refuse (refused : Prop) [Decidable refused] (condition : Condition) : Pkg σ Unit :=
  if refused then stop condition else pure ()

/-- Run `m` when `c` holds. -/
def whenever (c : Prop) [Decidable c] (m : Pkg σ Unit) : Pkg σ Unit := if c then m else pure ()

/-- Run `f` on a pointer that is not null. -/
def ifSome (p : Option α) (f : α → Pkg σ Unit) : Pkg σ Unit :=
  match p with
  | none => pure ()
  | some a => f a

/-- `handle->…` on a pointer to an `env_handle`. -/
def derefEnv (e : EnvRef) : Pkg σ EnvHandle := do
  let w ← Prog.get
  match w.envs e with
  | some h => pure h
  | none => Prog.exit (.undefined .danglingPointer)

/-- `handle->…` on a pointer to a `txn_handle`. -/
def derefTxn (t : TxnRef) : Pkg σ TxnHandle := do
  let w ← Prog.get
  match w.txns t with
  | some k => pure k
  | none => Prog.exit (.undefined .danglingPointer)

/-- Assign to fields of an `env_handle`. -/
def updateEnv (e : EnvRef) (f : EnvHandle → EnvHandle) : Pkg σ Unit := do
  let h ← derefEnv e
  Prog.modify fun w => w.setEnv e (some (f h))

/-- Assign to fields of a `txn_handle`. -/
def updateTxn (t : TxnRef) (f : TxnHandle → TxnHandle) : Pkg σ Unit := do
  let k ← derefTxn t
  Prog.modify fun w => w.setTxn t (some (f k))

def currentPid : Pkg σ Pid := do
  let w ← Prog.get
  pure w.pid

/-- The next unused number. -/
def fresh : Pkg σ ℕ := do
  let w ← Prog.get
  Prog.modify fun w => { w with next := w.next + 1 }
  pure w.next

/-- `*p` where the source never tests the native pointer `p` for null. -/
def nonNull (p : Option α) : Pkg σ α :=
  match p with
  | some a => pure a
  | none => Prog.exit (.undefined .danglingPointer)

/-- Convert a double to an unsigned type of `bound` values, which is undefined out of range. -/
def narrow (bound : ℕ) (x : Double) : Pkg σ ℕ :=
  match x.toUnsigned bound with
  | some n => pure n
  | none => Prog.exit (.undefined .narrowing)

variable (L : Platform σ)

/-- Call libmdbx.  A panic inside jumps to the guard around the call. -/
def native (c : NativeCall) : Pkg σ (Reply c) := do
  let w ← Prog.get
  match L.call c w.lib with
  | (.ok reply, lib) =>
    Prog.modify fun w => w.called c lib (.returned reply.rc)
    pure reply
  | (.error info, lib) =>
    Prog.modify fun w => w.called c lib .panicked
    Prog.exit (.panic info)

/-- Grow a vector below the guard; false is a caught `std::bad_alloc`. -/
def grow : Pkg σ Bool := do
  let w ← Prog.get
  Prog.modify fun w => { w with lib := (L.badAlloc w.lib).2 }
  pure !(L.badAlloc w.lib).1

/-- `mdbx_r_run_guarded`: run `body`; a panic ends it, runs `poison` and is reported. -/
def runGuarded (body : Pkg σ α) (poison : Pkg σ Unit) : Pkg σ (Except PanicInfo α) := do
  match ← Prog.attempt body with
  | .ok a => pure (.ok a)
  | .error (.panic info) => do
    poison
    pure (.error info)
  | .error x => Prog.exit x

/-- Run `body` below the guard and raise its panic. -/
def guard (body : Pkg σ α) (poison : Pkg σ Unit) : Pkg σ α := do
  match ← runGuarded body poison with
  | .ok a => pure a
  | .error info => stop (.assertionFailed info)

/-- Raise a status other than success. -/
def check (rc : Status) : Pkg σ Unit := refuse (rc ≠ Status.success) (.status rc)

end Primitives

end Mdbx
