import Mdbx.Resolving
import Mdbx.ProofKit.Within

/-! What every run of the package stays within: a preorder on worlds that holds across each native
call, each assignment to a handle that leaves its name cache alone, and the three functions that
use the cache, holds across every entry point, finalizer and step. -/

namespace Mdbx

open ProofKit

variable {σ α : Type} {L : Platform σ}

/-- The handle `j` has the name cache of `k`. -/
structure SameCache (k j : TxnHandle) : Prop where
  mainDbi : j.mainDbi = k.mainDbi
  mainReady : j.mainReady = k.mainReady
  named : j.named = k.named

/-- Whether a call leaves the names of each transaction's databases alone. -/
def NativeCall.keepsNames : NativeCall → Bool
  | dbiOpen _ _ _ | drop _ _ true => false
  | _ => true

/-- A preorder that native calls and assignments stay within. -/
structure Platform.Parts (L : Platform σ) (R : World σ → World σ → Prop) : Prop
    extends IsPreorder (World σ) R where
  native : ∀ {c}, c.keepsNames = true → Within R (native L c)
  grow : Within R (grow L)
  collect : ∀ w, R w { w with lib := (L.allocate w.lib).2 }
  aside : ∀ {w w'}, w'.lib = w.lib → w'.log = w.log → w'.txns = w.txns → R w w'
  txn : ∀ {w t k j}, w.txns t = some k → SameCache k j → (j.txn = k.txn ∨ j.txn = none) →
    R w (w.setTxn t (some j))
  newTxn : ∀ {k : TxnHandle} (w t), k.mainReady = false → k.named = [] →
    (∀ p, k.txn = some p → p.id = t) → R w (w.setTxn t (some k))
  deleteTxn : ∀ w t, R w (w.setTxn t none)

/-- The functions that use the name cache stay within it too. -/
structure Platform.Frame (L : Platform σ) (R : World σ → World σ → Prop) : Prop
    extends L.Parts R where
  ensureDbi : ∀ t name, Within R (ensureDbiNamed L t name)
  dbiOpen : ∀ x name create, Within R (mdbxDbiOpen_ L x name create)
  dbiDrop : ∀ x db del, Within R (mdbxDbiDrop_ L x db del)

/-- A preorder that everything stays within that is done with a handle between its beginning and
its end. -/
structure Platform.Works (L : Platform σ) (R : World σ → World σ → Prop) : Prop
    extends IsPreorder (World σ) R where
  native : ∀ {c}, c.keepsNames = true → Within R (native L c)
  grow : Within R (grow L)
  poisonEnv : ∀ e, Within R (poisonEnv e : Pkg σ Unit)
  poisonTxn : ∀ t, Within R (poisonTxn t : Pkg σ Unit)
  ensureDbi : ∀ t name, Within R (ensureDbiNamed L t name)
  dbiOpen : ∀ x name create, Within R (mdbxDbiOpen_ L x name create)
  dbiDrop : ∀ x db del, Within R (mdbxDbiDrop_ L x db del)

/-- Whether an entry point neither makes nor ends a handle. -/
def Command.works : Command → Bool
  | envOpen .. | envClose _ | txnBegin .. | txnCommit _ | txnAbort _ => false
  | _ => true

namespace ProofKit.Within

variable {R : World σ → World σ → Prop} [IsPreorder (World σ) R] {m : Pkg σ α}

/-! ### Programs that only look -/

theorem stop (c : Condition) : Within R (Mdbx.stop c : Pkg σ α) := exit _

theorem refuse (refused : Prop) [Decidable refused] (c : Condition) :
    Within R (Mdbx.refuse refused c : Pkg σ Unit) := ite (stop c) (pure ())

theorem check (rc : Status) : Within R (Mdbx.check rc : Pkg σ Unit) := refuse _ _

theorem whenever {c : Prop} [Decidable c] {m : Pkg σ Unit} (hm : Within R m) :
    Within R (Mdbx.whenever c m) := ite hm (pure ())

theorem ifSome (p : Option α) {f : α → Pkg σ Unit} (hf : ∀ a, Within R (f a)) :
    Within R (Mdbx.ifSome p f) := by
  cases p with
  | none => exact pure ()
  | some a => exact hf a

theorem nonNull (p : Option α) : Within R (Mdbx.nonNull p : Pkg σ α) := by
  cases p with
  | none => exact exit _
  | some a => exact pure a

theorem narrow (bound : ℕ) (x : Double) : Within R (Mdbx.narrow bound x : Pkg σ ℕ) := by
  rw [Mdbx.narrow]
  split
  · exact pure _
  · exact exit _

theorem currentPid : Within R (Mdbx.currentPid : Pkg σ Pid) := get.bind fun _ => pure _

theorem derefEnv (e : EnvRef) : Within R (Mdbx.derefEnv e : Pkg σ EnvHandle) := by
  refine get.bind fun w => ?_
  split
  · exact pure _
  · exact exit _

theorem derefTxn (t : TxnRef) : Within R (Mdbx.derefTxn t : Pkg σ TxnHandle) := by
  refine get.bind fun w => ?_
  split
  · exact pure _
  · exact exit _

/-- An assignment to a handle that is there; to another there is none. -/
theorem updateEnv (e : EnvRef) {f : EnvHandle → EnvHandle}
    (hf : ∀ w h, w.envs e = some h → R w (w.setEnv e (some (f h)))) :
    Within R (Mdbx.updateEnv e f : Pkg σ Unit) := by
  intro w
  cases he : w.envs e with
  | none =>
    have hrun : (Mdbx.updateEnv e f : Pkg σ Unit).run w
        = (.error (.undefined .danglingPointer), w) := by
      simp [Mdbx.updateEnv, Mdbx.derefEnv, he, Prog.run_bind]
    rw [hrun]
    exact refl_of R w
  | some h =>
    rw [updateEnv_run he]
    exact hf w h he

theorem updateTxn (t : TxnRef) {f : TxnHandle → TxnHandle}
    (hf : ∀ w k, w.txns t = some k → R w (w.setTxn t (some (f k)))) :
    Within R (Mdbx.updateTxn t f : Pkg σ Unit) := by
  intro w
  cases ht : w.txns t with
  | none =>
    have hrun : (Mdbx.updateTxn t f : Pkg σ Unit).run w
        = (.error (.undefined .danglingPointer), w) := by
      simp [Mdbx.updateTxn, Mdbx.derefTxn, ht, Prog.run_bind]
    rw [hrun]
    exact refl_of R w
  | some k =>
    rw [updateTxn_run ht]
    exact hf w k ht

theorem flagsFromNames (table : List FlagEntry) (names : List String) :
    Within R (Mdbx.flagsFromNames table names : Pkg σ ℕ) := by
  rw [Mdbx.flagsFromNames]
  split
  · exact pure _
  · exact stop _

theorem isEnvSexp (x : Sexp) : Within R (Mdbx.isEnvSexp x : Pkg σ EnvSexp) := by
  refine get.bind fun w => ?_
  cases x with
  | env n =>
    dsimp only
    split
    · exact pure _
    · exact stop _
  | txn _ => exact stop _
  | other => exact stop _

theorem isTxnSexp (x : Sexp) : Within R (Mdbx.isTxnSexp x : Pkg σ TxnSexp) := by
  refine get.bind fun w => ?_
  cases x with
  | txn n =>
    dsimp only
    split
    · exact pure _
    · exact stop _
  | env _ => exact stop _
  | other => exact stop _

theorem envFromSexp (x : Sexp) : Within R (Mdbx.envFromSexp x : Pkg σ EnvRef) := by
  refine (isEnvSexp x).bind fun s => ?_
  split
  · exact stop _
  · refine (derefEnv _).bind fun h => currentPid.bind fun pid => ?_
    exact (refuse _ _).bind fun _ => (refuse _ _).bind fun _ => (refuse _ _).bind fun _ => pure _

theorem txnFromSexp (x : Sexp) : Within R (Mdbx.txnFromSexp x : Pkg σ TxnRef) := by
  refine (isTxnSexp x).bind fun s => ?_
  split
  · exact stop _
  · refine (derefTxn _).bind fun k => currentPid.bind fun pid => ?_
    refine (refuse _ _).bind fun _ => (refuse _ _).bind fun _ => (refuse _ _).bind fun _ => ?_
    split
    · exact stop _
    · refine (derefEnv _).bind fun h => ?_
      exact (refuse _ _).bind fun _ => (refuse _ _).bind fun _ => pure _

theorem writableTxn (x : Sexp) : Within R (Mdbx.writableTxn x : Pkg σ TxnRef) :=
  (txnFromSexp x).bind fun _ => (derefTxn _).bind fun _ => (refuse _ _).bind fun _ => pure _

theorem current (t : TxnRef) : Within R (Mdbx.current t : Pkg σ (TxnPtr × Dbi)) :=
  (derefTxn t).bind fun _ => (nonNull _).bind fun _ => pure _

theorem stopMissingDbi (k : TxnHandle) (name : Bytes) :
    Within R (Mdbx.stopMissingDbi k name : Pkg σ α) :=
  (nonNull _).bind fun _ => (derefEnv _).bind fun _ => stop _

theorem sequenceTxn (x : Sexp) (increment : Double) :
    Within R (Mdbx.sequenceTxn x increment : Pkg σ TxnRef) := ite (writableTxn x) (txnFromSexp x)

theorem eitherPoisoned (k : TxnHandle) : Within R (Mdbx.eitherPoisoned k : Pkg σ Bool) := by
  refine ite (pure _) ?_
  split
  · exact pure _
  · exact (derefEnv _).bind fun _ => pure _

theorem endedHere (k : TxnHandle) : Within R (Mdbx.endedHere k : Pkg σ Bool) := by
  refine currentPid.bind fun pid => ite (pure _) (ite (pure _) ?_)
  split
  · exact pure _
  · exact (derefEnv _).bind fun _ => pure _

theorem currentTxnAmong (entries : List TxnRef) :
    Within R (Mdbx.currentTxnAmong entries : Pkg σ (Option TxnPtr)) := by
  induction entries with
  | nil => exact pure _
  | cons t rest ih =>
    refine (derefTxn t).bind fun k => ?_
    split
    · exact pure _
    · exact ih

theorem findAmong (key : String) (entries : List EnvRef) :
    Within R (Mdbx.findAmong key entries : Pkg σ (Option EnvRef)) := by
  induction entries with
  | nil => exact pure _
  | cons e rest ih => exact (derefEnv e).bind fun _ => currentPid.bind fun _ => ite (pure _) ih

theorem refuseOpen (path key : String) : Within R (Mdbx.refuseOpen path key : Pkg σ Unit) := by
  refine Within.bind (get.bind fun w => findAmong key _) fun incumbent => ?_
  exact ifSome _ fun e => (derefEnv e).bind fun h => (refuse _ _).bind fun _ => stop _

/-! ### Guards -/

theorem runGuarded {body : Pkg σ α} {poison : Pkg σ Unit} (hbody : Within R body)
    (hpoison : Within R poison) : Within R (Mdbx.runGuarded body poison) := by
  refine hbody.attempt.bind fun r => ?_
  split
  · exact pure _
  · exact hpoison.bind fun _ => pure _
  · exact exit _

theorem guard {body : Pkg σ α} {poison : Pkg σ Unit} (hbody : Within R body)
    (hpoison : Within R poison) : Within R (Mdbx.guard body poison) := by
  refine (runGuarded hbody hpoison).bind fun r => ?_
  split
  · exact pure _
  · exact stop _

end ProofKit.Within

namespace Platform.Works

variable {R : World σ → World σ → Prop} (F : L.Works R)
include F

/-! ### Environments -/

omit F in
theorem mdbxEnvIsOpen [IsPreorder (World σ) R] (x : Sexp) :
    Within R (mdbxEnvIsOpen_ x : Pkg σ Bool) := by
  refine (Within.isEnvSexp x).bind fun s => ?_
  split
  · exact .pure _
  · exact (Within.derefEnv _).bind fun _ => Within.currentPid.bind fun _ => .pure _

theorem envCall (e : EnvRef) {c : EnvPtr → NativeCall} (hc : ∀ env, (c env).keepsNames = true) :
    Within R (Mdbx.envCall L e c) := by
  have := F.toIsPreorder
  refine Within.guard ?_ (F.poisonEnv e)
  exact (Within.derefEnv e).bind fun h => (Within.nonNull _).bind fun env =>
    (F.native (hc env)).bind fun _ => .pure _

theorem mdbxEnvReaderCheck (x : Sexp) : Within R (mdbxEnvReaderCheck_ L x) := by
  have := F.toIsPreorder
  refine (Within.envFromSexp x).bind fun e => (F.envCall e fun _ => rfl).bind fun r => ?_
  exact Within.bind (.whenever (.check _)) fun _ => .pure _

theorem mdbxEnvPath (x : Sexp) : Within R (mdbxEnvPath_ L x) := by
  have := F.toIsPreorder
  refine (Within.envFromSexp x).bind fun e => (F.envCall e fun _ => rfl).bind fun r => ?_
  exact (Within.check _).bind fun _ => .pure _

theorem mdbxEnvGetFlags (x : Sexp) : Within R (mdbxEnvGetFlags_ L x) := by
  have := F.toIsPreorder
  refine (Within.envFromSexp x).bind fun e => (F.envCall e fun _ => rfl).bind fun r => ?_
  exact (Within.check _).bind fun _ => .pure _

theorem mdbxEnvSetFlags (x : Sexp) (flags : List String) (on : Bool) :
    Within R (mdbxEnvSetFlags_ L x flags on) := by
  have := F.toIsPreorder
  refine (Within.envFromSexp x).bind fun e => (Within.derefEnv e).bind fun h => ?_
  refine (Within.refuse _ _).bind fun _ => Within.bind (.flagsFromNames _ _) fun bits => ?_
  exact (F.envCall e fun _ => rfl).bind fun r => .check _

theorem mdbxEnvSync (x : Sexp) (force nonblock : Bool) :
    Within R (mdbxEnvSync_ L x force nonblock) := by
  have := F.toIsPreorder
  refine (Within.envFromSexp x).bind fun e => (F.envCall e fun _ => rfl).bind fun r => ?_
  exact .ite (.pure _) ((Within.check _).bind fun _ => .pure _)

/-! ### Transactions -/

theorem mdbxTxnState (x : Sexp) : Within R (mdbxTxnState_ L x) := by
  have := F.toIsPreorder
  have hactive : ∀ k, Within R (activeState L k) := by
    intro k
    refine (Within.eitherPoisoned k).bind fun poisoned =>
      .ite (.pure _) (Within.bind ?_ fun _ => .pure _)
    rw [txnFailed]
    split
    · exact .pure _
    · exact (F.native rfl).bind fun _ => .pure _
  refine (Within.isTxnSexp x).bind fun s => ?_
  split
  · exact .pure _
  · refine (Within.derefTxn _).bind fun k => Within.currentPid.bind fun pid => .ite (.pure _) ?_
    split
    · exact hactive k
    · exact .pure _
    · exact .pure _

theorem mdbxTxnId (x : Sexp) : Within R (mdbxTxnId_ L x) := by
  have := F.toIsPreorder
  exact (Within.txnFromSexp x).bind fun t => (Within.derefTxn t).bind fun k =>
    (Within.nonNull _).bind fun _ => (F.native rfl).bind fun _ => .pure _

/-! ### Records and databases -/

theorem mdbxGet (x : Sexp) (key : Bytes) (db : List Bytes) : Within R (mdbxGet_ L x key db) := by
  have := F.toIsPreorder
  have hcall : ∀ t, Within R (getCall L t key) := fun t =>
    (Within.current t).bind fun _ => (F.native rfl).bind fun _ => .pure _
  refine (Within.txnFromSexp x).bind fun t => (F.ensureDbi t _).bind fun _ => ?_
  refine (Within.guard (hcall t) (F.poisonTxn t)).bind fun _ => .ite (.pure _) ?_
  exact (Within.check _).bind fun _ => .pure _

theorem mdbxPut (x : Sexp) (key value : Bytes) (overwrite : Bool) (db : List Bytes) :
    Within R (mdbxPut_ L x key value overwrite db) := by
  have := F.toIsPreorder
  have hcall : ∀ t flags, Within R (putCall L t key value flags) := fun t flags =>
    (Within.current t).bind fun _ => (F.native rfl).bind fun _ => .pure _
  refine (Within.writableTxn x).bind fun t => (F.ensureDbi t _).bind fun _ => ?_
  refine (Within.guard (hcall t _) (F.poisonTxn t)).bind fun _ => .ite (.pure _) ?_
  exact (Within.check _).bind fun _ => .pure _

theorem mdbxDel (x : Sexp) (key : Bytes) (db : List Bytes) : Within R (mdbxDel_ L x key db) := by
  have := F.toIsPreorder
  have hcall : ∀ t, Within R (delCall L t key) := fun t =>
    (Within.current t).bind fun _ => (F.native rfl).bind fun _ => .pure _
  refine (Within.writableTxn x).bind fun t => (F.ensureDbi t _).bind fun _ => ?_
  refine (Within.guard (hcall t) (F.poisonTxn t)).bind fun _ => .ite (.pure _) ?_
  exact (Within.check _).bind fun _ => .pure _

theorem cursorGet (cursor : CursorPtr) (op : CursorOp) : Within R (Mdbx.cursorGet L cursor op) := by
  have := F.toIsPreorder
  exact (F.native rfl).bind fun _ => .pure _

theorem position (cursor : CursorPtr) (dbi : Dbi) (reverse : Bool) (start : Option Bytes) :
    Within R (Mdbx.position L cursor dbi reverse start) := by
  have := F.toIsPreorder
  cases start with
  | none => exact F.cursorGet _ _
  | some from_ =>
    refine (F.cursorGet _ _).bind fun _ => .ite (F.cursorGet _ _) (.ite ?_ (.pure _))
    exact (F.native rfl).bind fun order => .ite (F.cursorGet _ _) (.pure _)

theorem collects (wantValues : Bool) (key value : Bytes) (found : Scanned) :
    Within R (Mdbx.collect L wantValues key value found) := by
  have := F.toIsPreorder
  refine F.grow.bind fun room => .ite (.pure _) (.ite (.pure _) ?_)
  exact F.grow.bind fun room => .ite (.pure _) (.pure _)

theorem scanLoop (cursor : CursorPtr) (wantValues reverse : Bool) (remaining : ℕ)
    {move : Pkg σ Reached} (hmove : Within R move) (found : Scanned) :
    Within R (Mdbx.scanLoop L cursor wantValues reverse remaining move found) := by
  have := F.toIsPreorder
  induction remaining generalizing move found with
  | zero => exact .pure _
  | succ remaining ih =>
    refine hmove.bind fun _ => .ite (.pure _) (.ite (.pure _) ?_)
    exact (F.collects _ _ _ _).bind fun _ => .ite (.pure _) (ih (F.cursorGet _ _) _)

theorem mdbxScan (x : Sexp) (limit : Double) (values : Bool) (db : List Bytes)
    (start : Option Bytes) (reverse : Bool) :
    Within R (mdbxScan_ L x limit values db start reverse) := by
  have := F.toIsPreorder
  refine (Within.refuse _ _).bind fun _ => (Within.txnFromSexp x).bind fun t => ?_
  refine (F.ensureDbi t _).bind fun _ => Within.bind (.ite (.pure _) (.narrow _ _)) fun bound => ?_
  refine (Within.guard ?_ (F.poisonTxn t)).bind fun found => ?_
  · refine (Within.current t).bind fun _ => (F.native rfl).bind fun opened => .ite (.pure _) ?_
    refine (F.scanLoop _ _ _ _ (F.position _ _ _ _) _).bind fun found => ?_
    exact (F.native rfl).bind fun _ => .pure _
  · exact (Within.refuse _ _).bind fun _ => (Within.check _).bind fun _ => .pure _

theorem listVisit (rc : Status) (names tables : List Bytes) :
    Within R (Mdbx.listVisit L rc names tables) := by
  have := F.toIsPreorder
  induction tables generalizing names with
  | nil => exact .pure _
  | cons name rest ih => exact F.grow.bind fun room => .ite (ih _) (.pure _)

theorem mdbxDbiList (x : Sexp) : Within R (mdbxDbiList_ L x) := by
  have := F.toIsPreorder
  refine (Within.txnFromSexp x).bind fun t => (Within.guard ?_ (F.poisonTxn t)).bind fun _ => ?_
  · exact (Within.current t).bind fun _ => (F.native rfl).bind fun _ => F.listVisit _ _ _
  · exact (Within.refuse _ _).bind fun _ => (Within.check _).bind fun _ => .pure _

theorem mdbxDbiSequence (x : Sexp) (db : List Bytes) (increment : Double) :
    Within R (mdbxDbiSequence_ L x db increment) := by
  have := F.toIsPreorder
  have hcall : ∀ t amount, Within R (Mdbx.guard (sequenceCall L t amount) (Mdbx.poisonTxn t)) := by
    refine fun t amount => Within.guard ?_ (F.poisonTxn t)
    exact (Within.current t).bind fun _ => (F.native rfl).bind fun _ => .pure _
  refine (Within.sequenceTxn x _).bind fun t => (F.ensureDbi t _).bind fun _ => ?_
  refine (hcall t 0).bind fun _ => (Within.check _).bind fun _ => .ite (.pure _) ?_
  refine (Within.refuse _ _).bind fun _ => (Within.narrow _ _).bind fun amount => ?_
  exact (hcall t amount).bind fun _ => (Within.refuse _ _).bind fun _ =>
    (Within.check _).bind fun _ => .pure _

/-! ### Statistics -/

theorem runStat (owner : EnvRef) (txn : Option TxnPtr) : Within R (Mdbx.runStat L owner txn) := by
  have := F.toIsPreorder
  refine (Within.derefEnv _).bind fun h => (Within.nonNull _).bind fun env => ?_
  refine (Within.guard ?_ (F.poisonEnv owner)).bind fun _ => (Within.check _).bind fun _ => .pure _
  exact (F.native rfl).bind fun _ => .pure _

theorem runInfo (owner : EnvRef) (txn : Option TxnPtr) : Within R (Mdbx.runInfo L owner txn) := by
  have := F.toIsPreorder
  refine (Within.derefEnv _).bind fun h => (Within.nonNull _).bind fun env => ?_
  refine (Within.guard ?_ (F.poisonEnv owner)).bind fun _ => (Within.check _).bind fun _ => .pure _
  exact (F.native rfl).bind fun _ => .pure _

theorem mdbxEnvStat (x : Sexp) : Within R (mdbxEnvStat_ L x) := by
  have := F.toIsPreorder
  refine (Within.envFromSexp x).bind fun e => Within.bind ?_ fun txn => F.runStat e txn
  exact (Within.derefEnv e).bind fun h => .currentTxnAmong _

theorem mdbxEnvInfo (x : Sexp) : Within R (mdbxEnvInfo_ L x) := by
  have := F.toIsPreorder
  refine (Within.envFromSexp x).bind fun e => Within.bind ?_ fun txn => F.runInfo e txn
  exact (Within.derefEnv e).bind fun h => .currentTxnAmong _

theorem mdbxTxnStat (x : Sexp) (db : List Bytes) : Within R (mdbxTxnStat_ L x db) := by
  have := F.toIsPreorder
  refine (Within.txnFromSexp x).bind fun t => (Within.derefTxn t).bind fun k => .ite ?_ ?_
  · exact (Within.nonNull _).bind fun owner => F.runStat owner _
  · have hcall : Within R (dbiStatCall L t) :=
      (Within.current t).bind fun _ => (F.native rfl).bind fun _ => .pure _
    refine (F.ensureDbi t _).bind fun _ => (Within.guard hcall (F.poisonTxn t)).bind fun _ => ?_
    exact (Within.check _).bind fun _ => .pure _

theorem mdbxTxnInfo (x : Sexp) : Within R (mdbxTxnInfo_ L x) := by
  have := F.toIsPreorder
  exact (Within.txnFromSexp x).bind fun t => (Within.derefTxn t).bind fun k =>
    (Within.nonNull _).bind fun owner => F.runInfo owner _

theorem mdbxLimits (pagesize : Double) : Within R (mdbxLimits_ L pagesize) := by
  have := F.toIsPreorder
  refine (Within.refuse _ _).bind fun _ => (Within.narrow _ _).bind fun ps => ?_
  exact (F.native rfl).bind fun _ => (Within.refuse _ _).bind fun _ => .pure _

/-- Every entry point but those that open, close, begin and end stays within the preorder. -/
theorem command {command : Command} (hcommand : command.works = true) :
    Within R (command.run L) := by
  have := F.toIsPreorder
  cases command with
  | envOpen | envClose | txnBegin | txnCommit | txnAbort => cases hcommand
  | envIsOpen => exact (mdbxEnvIsOpen _).map
  | envReaderCheck => exact (F.mdbxEnvReaderCheck _).map
  | envPath => exact (F.mdbxEnvPath _).map
  | envGetFlags => exact (F.mdbxEnvGetFlags _).map
  | envSetFlags => exact (F.mdbxEnvSetFlags _ _ _).map
  | envSync => exact (F.mdbxEnvSync _ _ _).map
  | envStat => exact (F.mdbxEnvStat _).map
  | envInfo => exact (F.mdbxEnvInfo _).map
  | txnState => exact (F.mdbxTxnState _).map
  | txnId => exact (F.mdbxTxnId _).map
  | txnStat => exact (F.mdbxTxnStat _ _).map
  | txnInfo => exact (F.mdbxTxnInfo _).map
  | get => exact (F.mdbxGet _ _ _).map
  | put => exact (F.mdbxPut _ _ _ _ _).map
  | del => exact (F.mdbxDel _ _ _).map
  | scan => exact (F.mdbxScan _ _ _ _ _ _).map
  | dbiOpen => exact (F.dbiOpen _ _ _).map
  | dbiDrop => exact (F.dbiDrop _ _ _).map
  | dbiList => exact (F.mdbxDbiList _).map
  | dbiSequence => exact (F.mdbxDbiSequence _ _ _).map
  | limits => exact (F.mdbxLimits _).map

end Platform.Works

namespace Platform.Parts

variable {R : World σ → World σ → Prop} (F : L.Parts R)
include F

/-! ### Assignments -/

theorem modify {f : World σ → World σ} (hlib : ∀ w, (f w).lib = w.lib)
    (hlog : ∀ w, (f w).log = w.log) (htxns : ∀ w, (f w).txns = w.txns) :
    Within R (Prog.modify f : Pkg σ Unit) := fun w => F.aside (hlib w) (hlog w) (htxns w)

theorem fresh : Within R (Mdbx.fresh : Pkg σ ℕ) := by
  have := F.toIsPreorder
  refine Within.get.bind fun w => ?_
  exact Within.bind (F.modify (fun _ => rfl) (fun _ => rfl) fun _ => rfl) fun _ => .pure _

theorem updateEnv (e : EnvRef) (f : EnvHandle → EnvHandle) :
    Within R (Mdbx.updateEnv e f : Pkg σ Unit) := by
  have := F.toIsPreorder
  exact (Within.derefEnv e).bind fun h => F.modify (fun _ => rfl) (fun _ => rfl) fun _ => rfl

theorem updateTxn (t : TxnRef) {f : TxnHandle → TxnHandle}
    (hf : ∀ k, SameCache k (f k) ∧ ((f k).txn = k.txn ∨ (f k).txn = none)) :
    Within R (Mdbx.updateTxn t f : Pkg σ Unit) := by
  have := F.toIsPreorder
  exact Within.updateTxn t fun w k ht => F.txn ht (hf k).1 (hf k).2

theorem abandon (pointer : Option Abandoned) : Within R (Mdbx.abandon pointer : Pkg σ Unit) :=
  F.modify (fun _ => rfl) (fun _ => rfl) fun _ => rfl

theorem abandonEnv (e : EnvRef) : Within R (Mdbx.abandonEnv e : Pkg σ Unit) := by
  have := F.toIsPreorder
  exact (Within.derefEnv e).bind fun h =>
    (F.abandon _).bind fun _ => (F.abandon _).bind fun _ => F.abandon _

theorem poisonEnv (e : EnvRef) : Within R (Mdbx.poisonEnv e : Pkg σ Unit) := F.updateEnv _ _

theorem poisonTxn (t : TxnRef) : Within R (Mdbx.poisonTxn t : Pkg σ Unit) := by
  have := F.toIsPreorder
  refine Within.bind (F.updateTxn t fun k => ⟨⟨rfl, rfl, rfl⟩, .inl rfl⟩) fun _ => ?_
  exact (Within.derefTxn t).bind fun k => .ifSome _ fun e => F.poisonEnv e

theorem registerEnv (e : EnvRef) : Within R (Mdbx.registerEnv e : Pkg σ Unit) :=
  F.modify (fun _ => rfl) (fun _ => rfl) fun _ => rfl

theorem unregisterEnv (e : EnvRef) : Within R (Mdbx.unregisterEnv e : Pkg σ Unit) :=
  F.modify (fun _ => rfl) (fun _ => rfl) fun _ => rfl

theorem releaseProtected (x : Sexp) : Within R (Mdbx.releaseProtected x : Pkg σ Unit) := by
  have := F.toIsPreorder
  cases x with
  | txn n =>
    refine Within.bind (Within.isTxnSexp _) fun s => ?_
    exact F.modify (fun _ => rfl) (fun _ => rfl) fun _ => rfl
  | env _ => exact .pure _
  | other => exact .pure _

/-! ### Ending handles -/

theorem recordHeapRoots (e : EnvRef) : Within R (Mdbx.recordHeapRoots L e) := by
  have := F.toIsPreorder
  refine (Within.derefEnv e).bind fun h => Within.currentPid.bind fun pid => ?_
  refine .ifSome _ fun env => .whenever ?_
  exact (F.native rfl).bind fun roots => F.updateEnv _ _

theorem unregisterTxn (t : TxnRef) : Within R (Mdbx.unregisterTxn t : Pkg σ Unit) := by
  have := F.toIsPreorder
  exact (Within.derefTxn t).bind fun k => .ifSome _ fun e => F.updateEnv _ _

theorem markFinished (t : TxnRef) (state : TxnState) :
    Within R (Mdbx.markFinished L t state) := by
  have := F.toIsPreorder
  refine (Within.derefTxn t).bind fun k => ?_
  refine (Within.ifSome _ fun e => .whenever (F.recordHeapRoots e)).bind fun _ => ?_
  refine Within.bind (F.updateTxn t fun k => ⟨⟨rfl, rfl, rfl⟩, .inr rfl⟩) fun _ => ?_
  refine (F.unregisterTxn t).bind fun _ => ?_
  exact F.updateTxn t fun k => ⟨⟨rfl, rfl, rfl⟩, .inl rfl⟩

theorem closeHandle (e : EnvRef) (propagate : Bool) :
    Within R (Mdbx.closeHandle L e propagate) := by
  have := F.toIsPreorder
  refine (Within.derefEnv e).bind fun h => .ifSome _ fun env => ?_
  refine (F.unregisterEnv e).bind fun _ => Within.currentPid.bind fun pid => ?_
  have hgive : ∀ {m : Pkg σ Unit}, Within R m → Within R (do
      Mdbx.abandonEnv e
      Mdbx.updateEnv e fun h => { h with env := none }
      m) := fun hm => (F.abandonEnv e).bind fun _ => (F.updateEnv _ _).bind fun _ => hm
  refine .ite (hgive (.refuse _ _)) (.ite ?_ ?_)
  · exact (F.abandonEnv e).bind fun _ => F.updateEnv _ _
  · refine (Within.runGuarded (F.native rfl) (F.poisonEnv e)).bind fun result => ?_
    refine (F.updateEnv _ _).bind fun _ => .whenever ?_
    split
    · exact .check _
    · exact .stop _

theorem tearDown (t : TxnRef) (txn : TxnPtr) : Within R (Mdbx.tearDown L t txn) := by
  have := F.toIsPreorder
  refine (Within.runGuarded (F.native rfl) (F.poisonTxn t)).bind fun r => ?_
  split
  · exact .pure _
  · exact .pure _

theorem detachEach (usable : Bool) (entries : List TxnRef) :
    Within R (Mdbx.detachEach L usable entries) := by
  have := F.toIsPreorder
  induction entries with
  | nil => exact .pure _
  | cons t rest ih =>
    have habort : ∀ k, Within R (Mdbx.detachAbort L usable t k) := by
      intro k
      rw [Mdbx.detachAbort]
      split
      · exact .ite (F.tearDown _ _) (.pure _)
      · exact .pure _
    refine (Within.derefTxn t).bind fun k => (habort k).bind fun ended => ?_
    refine Within.bind (.whenever (F.abandon _)) fun _ => ?_
    exact Within.bind (F.updateTxn t fun k => ⟨⟨rfl, rfl, rfl⟩, .inr rfl⟩) fun _ => ih

theorem detachTxns (e : EnvRef) : Within R (Mdbx.detachTxns L e) := by
  have := F.toIsPreorder
  refine (Within.derefEnv e).bind fun h => Within.currentPid.bind fun pid => ?_
  exact (F.detachEach _ _).bind fun _ => F.updateEnv _ _

theorem deleteEnv (e : EnvRef) : Within R (Mdbx.deleteEnv e : Pkg σ Unit) := by
  have := F.toIsPreorder
  exact (Within.derefEnv e).bind fun _ => F.modify (fun _ => rfl) (fun _ => rfl) fun _ => rfl

theorem dropTxn (t : TxnRef) : Within R (Mdbx.deleteTxn t : Pkg σ Unit) := by
  have := F.toIsPreorder
  refine (Within.derefTxn t).bind fun _ => .modify fun w => ?_
  have hcount : R (w.setTxn t none)
      { w.setTxn t none with liveTxnHandles := w.liveTxnHandles - 1 } := F.aside rfl rfl rfl
  exact trans_of R (F.deleteTxn w t) hcount

theorem finalizeEnv (x : ℕ) : Within R (Mdbx.finalizeEnv L x) := by
  have := F.toIsPreorder
  refine Within.get.bind fun w => .ifSome _ fun s => .ifSome _ fun e => ?_
  refine Within.bind (F.modify (fun _ => rfl) (fun _ => rfl) fun _ => rfl) fun _ => ?_
  exact (F.detachTxns e).bind fun _ => (F.closeHandle e _).bind fun _ => F.deleteEnv e

theorem finalizeTxn (x : ℕ) : Within R (Mdbx.finalizeTxn L x) := by
  have := F.toIsPreorder
  refine Within.get.bind fun w => .ifSome _ fun s => .ifSome _ fun t => ?_
  refine Within.bind (F.modify (fun _ => rfl) (fun _ => rfl) fun _ => rfl) fun _ => ?_
  refine (Within.derefTxn t).bind fun k => Within.bind ?_ fun _ => F.dropTxn t
  rw [Mdbx.finalizeHandle]
  split
  · have habort : ∀ txn, Within R (Mdbx.finalizeAbort L t k txn) := by
      intro txn
      rw [Mdbx.finalizeAbort]
      split
      · exact (Within.derefEnv _).bind fun _ => Within.currentPid.bind fun _ =>
          .ite (F.tearDown _ _) (.pure _)
      · exact .pure _
    refine (habort _).bind fun ended => Within.bind (.whenever (F.abandon _)) fun _ => ?_
    exact F.markFinished _ _
  · exact F.unregisterTxn _

/-- Finalizers. -/
theorem finalize (object : Object) : Within R (Mdbx.finalize L object) := by
  cases object with
  | env x => exact F.finalizeEnv x
  | txn x => exact F.finalizeTxn x

theorem finalizeAll (objects : List Object) : Within R (Mdbx.finalizeAll L objects) := by
  have := F.toIsPreorder
  induction objects with
  | nil => exact .pure _
  | cons object rest ih => exact (F.finalize object).bind fun _ => ih

theorem allocate (keep : List Object) : Within R (Mdbx.allocate L keep) := by
  have := F.toIsPreorder
  intro w
  show R w ((do
    Mdbx.finalizeAll L ((L.allocate w.lib).1.finalized.filter (· ∉ keep))
    Mdbx.whenever ((L.allocate w.lib).1.fails = true) (Prog.exit .longjmp)).run
      { w with lib := (L.allocate w.lib).2 }).2
  refine trans_of R (F.collect w) ?_
  exact ((F.finalizeAll _).bind fun _ => .whenever (.exit _)) _

end Platform.Parts

namespace Platform.Frame

variable {R : World σ → World σ → Prop} (F : L.Frame R)
include F

theorem works : L.Works R :=
  { F with
    poisonEnv := F.poisonEnv
    poisonTxn := F.poisonTxn }

/-! ### Environments -/

theorem newEnvSexp (e : EnvRef) (path : String) (readonly subdir : Bool) :
    Within R (Mdbx.newEnvSexp L e path readonly subdir) := by
  have := F.toIsPreorder
  refine (F.allocate _).bind fun _ => (F.allocate _).bind fun _ => ?_
  refine Within.bind (F.modify (fun _ => rfl) (fun _ => rfl) fun _ => rfl) fun _ => ?_
  exact (F.allocate _).bind fun _ => .pure _

theorem callEach (calls : List NativeCall) (hcalls : ∀ c ∈ calls, c.keepsNames = true) :
    Within R (Mdbx.callEach L calls) := by
  have := F.toIsPreorder
  induction calls with
  | nil => exact .pure _
  | cons c rest ih =>
    refine (F.native (hcalls c (by simp))).bind fun reply => .ite (ih fun c hc => ?_) (.pure _)
    exact hcalls c (by simp [hc])

theorem openCall (e : EnvRef) (path : String) (flags maxDbs maxReaders mapSize : ℕ) (mode : ℤ) :
    Within R (Mdbx.openCall L e path flags maxDbs maxReaders mapSize mode) := by
  have := F.toIsPreorder
  refine (F.native rfl).bind fun created => .ite (.pure _) ?_
  refine (F.updateEnv _ _).bind fun _ => (F.callEach _ fun c hc => ?_).bind fun rc => ?_
  · simp only [List.mem_append, List.mem_ite_nil_right, List.mem_singleton] at hc
    rcases hc with ((⟨-, rfl⟩ | ⟨-, rfl⟩) | ⟨-, rfl⟩) | rfl <;> rfl
  · exact .ite (.pure _) ((F.native rfl).bind fun _ => .pure _)

theorem openHandle (path key : String) (readonly : Bool) (flags maxDbs maxReaders mapSize : ℕ)
    (mode : ℤ) :
    Within R (Mdbx.openHandle L path key readonly flags maxDbs maxReaders mapSize mode) := by
  have := F.toIsPreorder
  have hdelete : ∀ (e : EnvRef) {α : Type} {m : Pkg σ α}, Within R m → Within R (do
      Prog.modify fun w => w.setEnv e none
      m) := fun e _ _ hm =>
    Within.bind (F.modify (fun _ => rfl) (fun _ => rfl) fun _ => rfl) fun _ => hm
  refine Within.currentPid.bind fun pid => F.fresh.bind fun e => ?_
  refine Within.bind (F.modify (fun _ => rfl) (fun _ => rfl) fun _ => rfl) fun _ => ?_
  refine (Within.runGuarded (F.openCall e path flags maxDbs maxReaders mapSize mode)
    (F.poisonEnv e)).bind fun result => ?_
  split
  · exact (F.abandonEnv e).bind fun _ => hdelete e (.stop _)
  · refine .ite ((F.closeHandle e false).bind fun _ => hdelete e (.stop _)) ?_
    refine (F.updateEnv _ _).bind fun _ => (F.recordHeapRoots e).bind fun _ => ?_
    exact (F.newEnvSexp _ _ _ _).bind fun x => (F.registerEnv e).bind fun _ => .pure _

theorem mdbxEnvOpen (path key : String) (readonly subdir : Bool)
    (maxDbs mapSize maxReaders : Double) (mode : ℤ) (extraFlags : List String) :
    Within R (mdbxEnvOpen_ L path key readonly subdir maxDbs mapSize maxReaders mode
      extraFlags) := by
  have := F.toIsPreorder
  refine Within.bind (.flagsFromNames _ _) fun extra => ?_
  refine (Within.refuse _ _).bind fun _ => (Within.refuse _ _).bind fun _ => ?_
  refine (Within.refuse _ _).bind fun _ => (Within.refuseOpen path key).bind fun _ => ?_
  refine (Within.narrow _ _).bind fun _ => (Within.narrow _ _).bind fun _ => ?_
  exact (Within.narrow _ _).bind fun _ => F.openHandle _ _ _ _ _ _ _ _

theorem mdbxEnvClose (x : Sexp) : Within R (mdbxEnvClose_ L x) := by
  have := F.toIsPreorder
  refine (Within.isEnvSexp x).bind fun s => .ifSome _ fun e => (Within.derefEnv e).bind fun h => ?_
  refine Within.bind (.whenever (F.detachTxns e)) fun _ => (Within.derefEnv e).bind fun h => ?_
  exact (Within.refuse _ _).bind fun _ => F.closeHandle e true

/-! ### Transactions -/

theorem newTxnSexp (t : TxnRef) {k : TxnHandle} (hready : k.mainReady = false)
    (hnamed : k.named = []) (htxn : ∀ p, k.txn = some p → p.id = t) (owner : EnvRef) (x : ℕ)
    (write : Bool) :
    Within R (Mdbx.newTxnSexp L t k owner x write) := by
  have := F.toIsPreorder
  refine (F.allocate _).bind fun _ => (F.allocate _).bind fun _ => Within.get.bind fun w => ?_
  refine Within.bind (.modify fun w' => ?_) fun _ => (F.updateEnv _ _).bind fun _ => ?_
  · refine trans_of R (F.newTxn w' t hready hnamed htxn) ?_
    exact F.aside rfl rfl rfl
  · exact (F.allocate _).bind fun _ => .pure _

theorem mdbxTxnBegin (x : Sexp) (write : Bool) (flags : List String) :
    Within R (mdbxTxnBegin_ L x write flags) := by
  have := F.toIsPreorder
  refine (Within.envFromSexp x).bind fun owner => (Within.derefEnv owner).bind fun h => ?_
  refine (Within.refuse _ _).bind fun _ => Within.currentPid.bind fun pid => ?_
  refine F.fresh.bind fun t => Within.bind (.flagsFromNames _ _) fun extra => ?_
  refine (Within.nonNull _).bind fun env => ?_
  refine (Within.guard ?_ (F.poisonEnv owner)).bind fun rc => (Within.check _).bind fun _ => ?_
  · exact (F.native rfl).bind fun reply => .pure _
  · exact F.newTxnSexp t rfl rfl (fun p hp => by rw [← Option.some.inj hp]) _ _ _

theorem finishTxn (x : Sexp) (commit : Bool) : Within R (Mdbx.finishTxn L x commit) := by
  have := F.toIsPreorder
  refine (Within.txnFromSexp x).bind fun t => (Within.derefTxn t).bind fun k => ?_
  refine (Within.nonNull _).bind fun txnPtr => (Within.guard ?_ (F.poisonTxn t)).bind fun rc => ?_
  · exact .ite ((F.native rfl).bind fun _ => .pure _) ((F.native rfl).bind fun _ => .pure _)
  · refine (Within.refuse _ _).bind fun _ => (F.markFinished _ _).bind fun _ => ?_
    exact (F.releaseProtected x).bind fun _ => (Within.refuse _ _).bind fun _ => .check _

theorem mdbxTxnAbort (x : Sexp) : Within R (mdbxTxnAbort_ L x) := by
  have := F.toIsPreorder
  refine (Within.isTxnSexp x).bind fun s => .ifSome _ fun t => (Within.derefTxn t).bind fun k => ?_
  refine .ifSome _ fun txnPtr => (Within.endedHere k).bind fun here => .ite ?_ (F.finishTxn x false)
  exact (F.abandon _).bind fun _ => (F.markFinished _ _).bind fun _ => F.releaseProtected x

/-! ### Steps -/

/-- Every entry point stays within the preorder. -/
theorem command (command : Command) : Within R (command.run L) := by
  have := F.toIsPreorder
  by_cases hworks : command.works = true
  · exact F.works.command hworks
  cases command with
  | envOpen => exact (F.mdbxEnvOpen _ _ _ _ _ _ _ _ _).map
  | envClose => exact (F.mdbxEnvClose _).map
  | txnBegin => exact (F.mdbxTxnBegin _ _ _).map
  | txnCommit => exact (F.finishTxn _ _).map
  | txnAbort => exact (F.mdbxTxnAbort _).map
  | _ => exact absurd rfl hworks

theorem step {w w' : World σ} (h : Step L w w') : R w w' := by
  obtain ⟨event, -, rfl⟩ := h
  cases event with
  | entry command => exact F.command command w
  | finalize object => exact F.finalize object w
  | fork child => exact F.aside rfl rfl rfl

theorem steps {w w' : World σ} (h : Steps L w w') : R w w' := by
  have := F.toIsPreorder
  induction h with
  | refl => exact refl_of R w
  | tail _ hstep ih => exact trans_of R ih (F.step hstep)

end Platform.Frame

/-! ### What is only resolved -/

/-- The handle `j` is `k` but for the databases that it has resolved. -/
def Recached (k j : TxnHandle) : Prop :=
  j = { k with dbi := j.dbi, mainDbi := j.mainDbi, mainReady := j.mainReady, named := j.named }

section Resolved

variable {R : World σ → World σ → Prop} [IsPreorder (World σ) R]

/-- A preorder that each call stays within, the poison callbacks and whatever resolves a
database. -/
theorem Platform.works_of (hnative : ∀ c, Within R (native L c)) (hgrow : Within R (grow L))
    (hpoisonEnv : ∀ e, Within R (poisonEnv e : Pkg σ Unit))
    (hpoisonTxn : ∀ t, Within R (poisonTxn t : Pkg σ Unit))
    (hupdate : ∀ t f, (∀ k, Recached k (f k)) → Within R (updateTxn t f : Pkg σ Unit)) :
    L.Works R := by
  have hcall : ∀ t k name flags, Within R (guard (dbiCall L k name flags) (poisonTxn t)) :=
    fun t k name flags =>
      .guard ((Within.nonNull _).bind fun _ => (hnative _).bind fun _ => .pure _)
      (hpoisonTxn t)
  have hensure : ∀ t name, Within R (ensureDbiNamed L t name) := by
    intro t name
    refine (Within.derefTxn t).bind fun k => ?_
    split
    · exact Within.bind (hupdate t _ fun _ => rfl) fun _ => .pure _
    · refine (hcall t k name 0).bind fun _ => Within.bind ?_ fun _ =>
        (Within.check _).bind fun _ => ?_
      · exact .ifSome _ fun name => .whenever (.stopMissingDbi k name)
      · refine Within.bind (hupdate t _ fun k => ?_) fun _ => .pure _
        cases name <;> rfl
  refine ⟨‹_›, fun _ => hnative _, hgrow, hpoisonEnv, hpoisonTxn, hensure, fun x name create => ?_,
    fun x db del => ?_⟩
  · refine (Within.txnFromSexp x).bind fun t => (Within.derefTxn t).bind fun k => ?_
    refine (Within.refuse _ _).bind fun _ => (hcall t k _ _).bind fun _ => ?_
    refine Within.bind (.whenever (.stopMissingDbi k name)) fun _ => ?_
    exact (Within.check _).bind fun _ => hupdate t _ fun _ => rfl
  · refine (Within.writableTxn x).bind fun t => Within.bind (.whenever ?_) fun _ => ?_
    · refine Within.bind ?_ fun count => .refuse _ _
      refine Within.bind (.guard ?_ (hpoisonTxn t)) fun _ => (Within.check _).bind fun _ => .pure _
      exact (Within.current t).bind fun _ => (hnative _).bind fun _ => .pure _
    · refine (Within.refuse _ _).bind fun _ => (hensure t _).bind fun _ => ?_
      refine Within.bind (.guard ?_ (hpoisonTxn t)) fun _ => (Within.check _).bind fun _ => ?_
      · exact (Within.current t).bind fun _ => (hnative _).bind fun _ => .pure _
      · exact .whenever (.ifSome _ fun _ => hupdate t _ fun _ => rfl)

end Resolved

/-! ### What is said of the trace and of libmdbx alone -/

section Traces

variable {R : World σ → World σ → Prop} [IsPreorder (World σ) R]

/-- A preorder on what libmdbx is and was asked, which each call stays within. -/
theorem Platform.frame_of_calls (hnative : ∀ c, Within R (native L c)) (hgrow : Within R (grow L))
    (hcollect : ∀ w, R w { w with lib := (L.allocate w.lib).2 })
    (haside : ∀ {w w'}, w'.lib = w.lib → w'.log = w.log → R w w') : L.Frame R := by
  have F : L.Parts R :=
    { native := fun _ => hnative _
      grow := hgrow
      collect := hcollect
      aside := fun hlib hlog _ => haside hlib hlog
      txn := fun _ _ _ => haside rfl rfl
      newTxn := fun _ _ _ _ _ => haside rfl rfl
      deleteTxn := fun _ _ => haside rfl rfl }
  have W : L.Works R := Platform.works_of hnative hgrow F.poisonEnv F.poisonTxn fun t f _ =>
    (Within.derefTxn t).bind fun _ => .modify fun _ => haside rfl rfl
  exact { F with ensureDbi := W.ensureDbi, dbiOpen := W.dbiOpen, dbiDrop := W.dbiDrop }

/-- A run only adds to the trace. -/
theorem Steps.log {w w' : World σ} (h : Steps L w w') : w.log <:+ w'.log := by
  have : IsPreorder (World σ) fun w w' => w.log <:+ w'.log :=
    { refl := fun _ => List.suffix_rfl, trans := fun _ _ _ => List.IsSuffix.trans }
  have F : L.Frame fun w w' => w.log <:+ w'.log := by
    refine Platform.frame_of_calls (fun c u => ?_) (fun _ => List.suffix_rfl)
      (fun _ => List.suffix_rfl) fun _ hlog => hlog ▸ List.suffix_rfl
    rcases native_run L c u with ⟨r, lib, hrun⟩ | ⟨info, lib, hrun⟩ <;>
      (rw [hrun]; exact List.suffix_cons _ _)
  exact F.steps h

end Traces

end Mdbx
