import Mdbx.Flags

/-! Opening and closing environments, beginning and ending transactions, and the finalizers of
both.  Every function follows the source's order of assignments, registry updates and libmdbx
calls. -/

namespace Mdbx

open ProofKit

variable {σ : Type}

/-! ### Registries -/

def registerEnv (e : EnvRef) : Pkg σ Unit :=
  Prog.modify fun w => { w with openEnvs := w.openEnvs ++ [e] }

def unregisterEnv (e : EnvRef) : Pkg σ Unit :=
  Prog.modify fun w => { w with openEnvs := w.openEnvs.filter (· ≠ e) }

/-- The first of `entries` that this process opened under `key`. -/
def findAmong (key : String) : List EnvRef → Pkg σ (Option EnvRef)
  | [] => pure none
  | e :: rest => do
    let h ← derefEnv e
    let pid ← currentPid
    if h.key = key ∧ h.pid = pid then pure (some e) else findAmong key rest

def findOpenEnv (key : String) : Pkg σ (Option EnvRef) := do
  let w ← Prog.get
  findAmong key w.openEnvs

/-- Keep a native pointer that is given up; a null one is not kept. -/
def abandon (pointer : Option Abandoned) : Pkg σ Unit :=
  Prog.modify fun w => { w with abandoned := w.abandoned ++ pointer.toList }

def abandonEnv (e : EnvRef) : Pkg σ Unit := do
  let h ← derefEnv e
  abandon (h.env.map .env)
  abandon (h.heapRoots.1.map .root)
  abandon (h.heapRoots.2.map .root)

/-! ### Poison callbacks -/

def poisonEnv (e : EnvRef) : Pkg σ Unit := updateEnv e fun h => { h with poisoned := true }

/-- Poisons the environment too. -/
def poisonTxn (t : TxnRef) : Pkg σ Unit := do
  updateTxn t fun k => { k with poisoned := true }
  let k ← derefTxn t
  ifSome k.owner poisonEnv

section Teardown

variable (L : Platform σ)

/-- Refresh `heap_roots`, for a healthy environment of this process only. -/
def recordHeapRoots (e : EnvRef) : Pkg σ Unit := do
  let h ← derefEnv e
  let pid ← currentPid
  ifSome h.env fun env => whenever (h.poisoned = false ∧ h.pid = pid) do
    let roots ← native L (.envHeapRoots env)
    updateEnv e fun h => { h with heapRoots := roots.out }

/-! ### Ending handles -/

def unregisterTxn (t : TxnRef) : Pkg σ Unit := do
  let k ← derefTxn t
  ifSome k.owner fun e => updateEnv e fun h => { h with liveTxns := h.liveTxns.filter (· ≠ t) }

/-- Record how a transaction ended, drop it from its environment's registry and drop its reference
to the environment. -/
def markFinished (t : TxnRef) (state : TxnState) : Pkg σ Unit := do
  let k ← derefTxn t
  ifSome k.owner fun e => whenever (k.write = true) (recordHeapRoots L e)
  updateTxn t fun k => { k with txn := none, state := state }
  unregisterTxn t
  updateTxn t fun k => { k with owner := none }

/-- Close the environment if it is open and detach it from the handle either way; `propagate`
raises what went wrong. -/
def closeHandle (e : EnvRef) (propagate : Bool) : Pkg σ Unit := do
  let h ← derefEnv e
  ifSome h.env fun env => do
    unregisterEnv e
    let pid ← currentPid
    if h.pid ≠ pid then do
      abandonEnv e
      updateEnv e fun h => { h with env := none }
      refuse (propagate = true) (.foreignEnvClose h.pid pid)
    else if h.poisoned then do
      abandonEnv e
      updateEnv e fun h => { h with env := none }
    else do
      let result ← runGuarded (native L (.envClose env)) (poisonEnv e)
      updateEnv e fun h => { h with env := none }
      whenever (propagate = true) <| match result with
        | .ok reply => check reply.rc
        | .error info => stop (.assertionFailed info)

/-- Abort `txn` of the handle `t` where no condition may be raised; false is a panic. -/
def tearDown (t : TxnRef) (txn : TxnPtr) : Pkg σ Bool := do
  match ← runGuarded (native L (.txnAbort txn .teardown)) (poisonTxn t) with
  | .ok _ => pure true
  | .error _ => pure false

/-- The abort that `detach_txns` makes of one transaction, when it may. -/
def detachAbort (usable : Bool) (t : TxnRef) (k : TxnHandle) : Pkg σ Bool :=
  match k.txn with
  | some txn => if usable = true ∧ k.poisoned = false then tearDown L t txn else pure false
  | none => pure false

/-- The loop of `detach_txns`. -/
def detachEach (usable : Bool) : List TxnRef → Pkg σ Unit
  | [] => pure ()
  | t :: rest => do
    let k ← derefTxn t
    let ended ← detachAbort L usable t k
    whenever (ended = false) (abandon (k.txn.map .txn))
    updateTxn t fun k => { k with txn := none, state := .aborted, owner := none }
    detachEach usable rest

/-- End every transaction still registered, before the environment goes away. -/
def detachTxns (e : EnvRef) : Pkg σ Unit := do
  let h ← derefEnv e
  let pid ← currentPid
  detachEach L (h.env.isSome && !h.poisoned && h.pid == pid) h.liveTxns
  updateEnv e fun h => { h with liveTxns := [] }

/-- `delete handle; --live_env_handles`. -/
def deleteEnv (e : EnvRef) : Pkg σ Unit := do
  let _ ← derefEnv e
  Prog.modify fun w => { w.setEnv e none with liveEnvHandles := w.liveEnvHandles - 1 }

def deleteTxn (t : TxnRef) : Pkg σ Unit := do
  let _ ← derefTxn t
  Prog.modify fun w => { w.setTxn t none with liveTxnHandles := w.liveTxnHandles - 1 }

def finalizeEnv (x : ℕ) : Pkg σ Unit := do
  let w ← Prog.get
  ifSome (w.envSexps x) fun s => ifSome s.addr fun e => do
    Prog.modify fun w => w.setEnvSexp x { s with addr := none }
    detachTxns L e
    closeHandle L e false
    deleteEnv e

/-- The abort that `finalize_txn` makes, when it may. -/
def finalizeAbort (t : TxnRef) (k : TxnHandle) (txn : TxnPtr) : Pkg σ Bool := do
  match k.poisoned, k.owner with
  | false, some e => do
    let h ← derefEnv e
    let pid ← currentPid
    if h.env.isSome = true ∧ h.poisoned = false ∧ k.pid = pid then tearDown L t txn
    else pure false
  | _, _ => pure false

/-- What `finalize_txn` does with the transaction of its handle before it deletes the handle. -/
def finalizeHandle (t : TxnRef) (k : TxnHandle) : Pkg σ Unit :=
  match k.txn with
  | some txn => do
    let ended ← finalizeAbort L t k txn
    whenever (ended = false) (abandon (some (.txn txn)))
    markFinished L t .aborted
  | none => unregisterTxn t

def finalizeTxn (x : ℕ) : Pkg σ Unit := do
  let w ← Prog.get
  ifSome (w.txnSexps x) fun s => ifSome s.addr fun t => do
    Prog.modify fun w => w.setTxnSexp x { s with addr := none }
    let k ← derefTxn t
    finalizeHandle L t k
    deleteTxn t

def finalize : Object → Pkg σ Unit
  | .env x => finalizeEnv L x
  | .txn x => finalizeTxn L x

/-! ### Building the R objects -/

def finalizeAll : List Object → Pkg σ Unit
  | [] => pure ()
  | object :: rest => do
    finalize L object
    finalizeAll rest

/-- An allocation of R while the objects in `keep` are protected.  Its collection may run the
finalizers of others; a failure jumps past the C++ frames. -/
def allocate (keep : List Object) : Pkg σ Unit := do
  let w ← Prog.get
  let allocation := (L.allocate w.lib).1
  Prog.modify fun w => { w with lib := (L.allocate w.lib).2 }
  finalizeAll L (allocation.finalized.filter (· ∉ keep))
  whenever (allocation.fails = true) (Prog.exit .longjmp)

/-- The object of the handle `e`.  R allocates for the pointer, for its finalizer and then, with
the finalizer registered, for the attributes. -/
def newEnvSexp (e : EnvRef) (path : String) (readonly subdir : Bool) : Pkg σ Sexp := do
  allocate L []
  allocate L []
  Prog.modify fun w =>
    { w.setEnvSexp e ⟨some e, path, readonly, subdir⟩ with
      liveEnvHandles := w.liveEnvHandles + 1 }
  allocate L [.env e]
  pure (.env e)

/-- The object of a new transaction handle `k`, which protects the environment object `x`.  Until
the finalizer is registered the handle belongs to the caller alone. -/
def newTxnSexp (t : TxnRef) (k : TxnHandle) (owner : EnvRef) (x : ℕ) (write : Bool) :
    Pkg σ Sexp := do
  allocate L [.env x]
  allocate L [.env x]
  let w ← Prog.get
  let path := ((w.envSexps x).map EnvSexp.path).getD ""
  Prog.modify fun w =>
    { (w.setTxn t (some k)).setTxnSexp t ⟨some t, some x, write, path⟩ with
      liveTxnHandles := w.liveTxnHandles + 1 }
  updateEnv owner fun h => { h with liveTxns := h.liveTxns ++ [t] }
  allocate L [.env x, .txn t]
  pure (.txn t)

end Teardown

/-! ### From R objects to handles -/

/-- The external pointer that `is_env_sexp` recognises. -/
def isEnvSexp (x : Sexp) : Pkg σ EnvSexp := do
  let w ← Prog.get
  match x with
  | .env n =>
    match w.envSexps n with
    | some s => pure s
    | none => stop .expectedEnv
  | _ => stop .expectedEnv

/-- The external pointer that `is_txn_sexp` recognises. -/
def isTxnSexp (x : Sexp) : Pkg σ TxnSexp := do
  let w ← Prog.get
  match x with
  | .txn n =>
    match w.txnSexps n with
    | some s => pure s
    | none => stop .expectedTxn
  | _ => stop .expectedTxn

def envFromSexp (x : Sexp) : Pkg σ EnvRef := do
  let s ← isEnvSexp x
  match s.addr with
  | none => stop .envClosed
  | some e => do
    let h ← derefEnv e
    let pid ← currentPid
    refuse (h.pid ≠ pid) (.foreignEnv h.pid pid)
    refuse (h.env = none) .envClosed
    refuse (h.poisoned = true) .envUnusable
    pure e

def txnFromSexp (x : Sexp) : Pkg σ TxnRef := do
  let s ← isTxnSexp x
  match s.addr with
  | none => stop .txnInvalid
  | some t => do
    let k ← derefTxn t
    let pid ← currentPid
    refuse (k.pid ≠ pid) (.foreignTxn k.pid pid)
    refuse (k.poisoned = true) .txnUnusable
    refuse (k.txn = none) (.txnFinished k.state)
    match k.owner with
    | none => stop .ownerClosed
    | some e => do
      let h ← derefEnv e
      refuse (h.env = none) .ownerClosed
      refuse (h.poisoned = true) .ownerUnusable
      pure t

/-! ### Environments -/

section EntryPoints

variable (L : Platform σ)

/-- Make the calls in order, up to the first that fails. -/
def callEach : List NativeCall → Pkg σ Status
  | [] => pure Status.success
  | c :: rest => do
    let reply ← native L c
    if reply.rc = Status.success then callEach rest else pure reply.rc

/-- The status of an open and the flags in effect after it. -/
def openCall (e : EnvRef) (path : String) (flags maxDbs maxReaders mapSize : ℕ) (mode : ℤ) :
    Pkg σ (Status × ℕ) := do
  let created ← native L (.envCreate e)
  if created.rc ≠ Status.success then pure (created.rc, 0) else do
  updateEnv e fun h => { h with env := some e }
  let rc ← callEach L
    ((if 0 < maxDbs then [.envSetOption e .maxDb maxDbs] else []) ++
      (if 0 < maxReaders then [.envSetOption e .maxReaders maxReaders] else []) ++
      (if 0 < mapSize then [.envSetGeometry e mapSize] else []) ++ [.envOpen e path flags mode])
  if rc ≠ Status.success then pure (rc, 0) else do
  let actual ← native L (.envGetFlags e)
  pure (actual.rc, actual.out)

def maxExactInteger : Double := .ofNat (2 ^ 53)

/-- The largest number that a pointer-sized integer is asked to hold. -/
def maxNativeInteger : Double := if L.wide then maxExactInteger else .ofNat (2 ^ 31 - 1)

/-- One more than the maximum of `intptr_t`. -/
def intptrBound : ℕ := if L.wide then 2 ^ 63 else 2 ^ 31

/-- One more than the maximum of `size_t`. -/
def sizeBound : ℕ := if L.wide then 2 ^ 64 else 2 ^ 32

/-- `x > 0 ? x : 0`. -/
def orZero (x : Double) : Double := if (Double.ofNat 0).lt x then x else .ofNat 0

/-- Refuse to open an environment that this process has open already. -/
def refuseOpen (path key : String) : Pkg σ Unit := do
  let incumbent ← findOpenEnv key
  ifSome incumbent fun e => do
    let h ← derefEnv e
    refuse (h.path = path) (.alreadyOpen path none)
    stop (.alreadyOpen path (some h.path))

/-- The new handle is owned here until its object takes it over, so that a failure deletes it. -/
def openHandle (path key : String) (readonly : Bool) (flags maxDbs maxReaders mapSize : ℕ)
    (mode : ℤ) : Pkg σ Sexp := do
  let pid ← currentPid
  let e ← fresh
  Prog.modify fun w => w.setEnv e (some ⟨none, false, pid, "", "", [], (none, none)⟩)
  let result ← runGuarded (openCall L e path flags maxDbs maxReaders mapSize mode) (poisonEnv e)
  match result with
  | .error info => do
    abandonEnv e
    Prog.modify fun w => w.setEnv e none
    stop (.assertionFailed info)
  | .ok (rc, actualFlags) =>
    if rc ≠ Status.success then do
      -- `close_handle` itself passes over a handle whose `env` is null.
      closeHandle L e false
      Prog.modify fun w => w.setEnv e none
      stop (.status rc)
    else do
      updateEnv e fun h => { h with key := key, path := path }
      recordHeapRoots L e
      let x ← newEnvSexp L e path readonly (actualFlags &&& flagNosubdir == 0)
      registerEnv e
      pure x

def mdbxEnvOpen_ (path key : String) (readonly subdir : Bool)
    (maxDbs mapSize maxReaders : Double) (mode : ℤ) (extraFlags : List String) : Pkg σ Sexp := do
  let extra ← envFlagsFromNames extraFlags
  let flags := extra ||| (if readonly then flagRdonly else 0) |||
    (if subdir then 0 else flagNosubdir)
  refuse (¬ maxDbs.le maxExactInteger) .maxDbsTooLarge
  refuse (¬ mapSize.le (maxNativeInteger L)) .mapSizeTooLarge
  refuse (¬ maxReaders.le maxExactInteger) .maxReadersTooLarge
  refuseOpen path key
  let dbs ← narrow (2 ^ 64) (orZero maxDbs)
  let readers ← narrow (2 ^ 64) (orZero maxReaders)
  let map ← narrow (intptrBound L) (orZero mapSize)
  openHandle L path key readonly flags dbs readers map mode

def mdbxEnvClose_ (env : Sexp) : Pkg σ Unit := do
  let s ← isEnvSexp env
  ifSome s.addr fun e => do
    let h ← derefEnv e
    whenever (h.poisoned = true) (detachTxns L e)
    let h ← derefEnv e
    refuse (h.liveTxns ≠ []) (.txnsStillOpen h.liveTxns.length)
    closeHandle L e true

def mdbxEnvIsOpen_ (env : Sexp) : Pkg σ Bool := do
  let s ← isEnvSexp env
  match s.addr with
  | none => pure false
  | some e => do
    let h ← derefEnv e
    let pid ← currentPid
    pure (h.env.isSome && !h.poisoned && h.pid == pid)

/-! ### Transactions -/

/-- The call that `begin_call` makes. -/
def beginCall (txn : TxnPtr) (flags : ℕ) : Pkg σ Status := do
  let reply ← native L (.txnBegin txn flags)
  pure reply.rc

/-- The number of the R object `x`. -/
def Sexp.object : Sexp → ℕ
  | .env x | .txn x => x
  | .other => 0

def mdbxTxnBegin_ (env : Sexp) (write : Bool) (extraFlags : List String) : Pkg σ Sexp := do
  let owner ← envFromSexp env
  let h ← derefEnv owner
  refuse (h.liveTxns ≠ []) .txnAlreadyOpen
  let pid ← currentPid
  let t ← fresh
  let extra ← txnFlagsFromNames extraFlags
  let ownerEnv ← nonNull h.env
  let rc ← guard (beginCall L ⟨ownerEnv, t⟩ ((if write then 0 else flagRdonly) ||| extra))
    (poisonEnv owner)
  check rc
  newTxnSexp L t ⟨some ⟨ownerEnv, t⟩, some owner, .active, write, false, pid, 0, 0, false, []⟩
    owner env.object write

/-- The call that `finish_call` makes. -/
def finishCall (txn : TxnPtr) (commit : Bool) : Pkg σ Status :=
  if commit then do
    let reply ← native L (.txnCommit txn)
    pure reply.rc
  else do
    let reply ← native L (.txnAbort txn .finishTxn)
    pure reply.rc

/-- `R_SetExternalPtrProtected(txn, R_NilValue)`. -/
def releaseProtected (txn : Sexp) : Pkg σ Unit :=
  match txn with
  | .txn x => do
    let s ← isTxnSexp txn
    Prog.modify fun w => w.setTxnSexp x { s with prot := none }
  | _ => pure ()

def finishTxn (txn : Sexp) (commit : Bool) : Pkg σ Unit := do
  let t ← txnFromSexp txn
  let k ← derefTxn t
  let txnPtr ← nonNull k.txn
  let rc ← guard (finishCall L txnPtr commit) (poisonTxn t)
  refuse (rc = Status.threadMismatch) (.status rc)
  markFinished L t (if commit = true ∧ rc = Status.success then .committed else .aborted)
  releaseProtected txn
  refuse (rc = Status.resultTrue) .rolledBack
  check rc

def mdbxTxnCommit_ (txn : Sexp) : Pkg σ Unit := finishTxn L txn true

/-- Whether `mdbx_txn_abort_` ends the handle `k` without libmdbx. -/
def endedHere (k : TxnHandle) : Pkg σ Bool := do
  let pid ← currentPid
  if k.pid ≠ pid then pure false
  else if k.poisoned then pure true
  else
    match k.owner with
    | none => pure true
    | some e => do
      let h ← derefEnv e
      pure (h.env.isNone || h.poisoned)

def mdbxTxnAbort_ (txn : Sexp) : Pkg σ Unit := do
  let s ← isTxnSexp txn
  ifSome s.addr fun t => do
    let k ← derefTxn t
    ifSome k.txn fun txnPtr => do
      let here ← endedHere k
      if here then do
        abandon (some (.txn txnPtr))
        markFinished L t .aborted
        releaseProtected txn
      else finishTxn L txn false

/-- The answers of `mdbx_txn_state_`. -/
inductive Reported where
  | invalid
  | poisoned
  | failed
  | active
  | committed
  | aborted
  deriving DecidableEq

/-- Whether the handle or its environment is poisoned. -/
def eitherPoisoned (k : TxnHandle) : Pkg σ Bool :=
  if k.poisoned then pure true
  else
    match k.owner with
    | none => pure false
    | some e => do
      let h ← derefEnv e
      pure h.poisoned

/-- Whether libmdbx has flagged the transaction as one that can only be rolled back. -/
def txnFailed (k : TxnHandle) : Pkg σ Bool :=
  match k.txn with
  | none => pure false
  | some txnPtr => do
    let flags ← native L (.txnFlags txnPtr)
    pure (flags.out &&& flagTxnError != 0)

/-- The answer for an active transaction of this process. -/
def activeState (k : TxnHandle) : Pkg σ Reported := do
  let poisoned ← eitherPoisoned k
  if poisoned then pure .poisoned else do
  let failed ← txnFailed L k
  pure (if failed then .failed else .active)

def mdbxTxnState_ (txn : Sexp) : Pkg σ Reported := do
  let s ← isTxnSexp txn
  match s.addr with
  | none => pure .invalid
  | some t => do
    let k ← derefTxn t
    let pid ← currentPid
    if k.pid ≠ pid then pure .invalid else
    match k.state with
    | .active => activeState L k
    | .committed => pure .committed
    | .aborted => pure .aborted

def mdbxTxnId_ (txn : Sexp) : Pkg σ Double := do
  let t ← txnFromSexp txn
  let k ← derefTxn t
  let txnPtr ← nonNull k.txn
  let id ← native L (.txnId txnPtr)
  pure (.ofNat id.out)

end EntryPoints

end Mdbx
