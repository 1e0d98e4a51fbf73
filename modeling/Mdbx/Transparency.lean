import Mdbx.Addressing
import Mdbx.Counting
import Mdbx.ProofKit.SideBySide

/-! The name cache of a transaction is transparent.  A run of commands in one transaction is
compared with the run that empties the cache before each of them, so that every command opens its
database afresh. -/

namespace Mdbx

open ProofKit

variable {σ α β : Type}

/-! ### Worlds that differ in one name cache -/

/-- A handle with an empty name cache. -/
def TxnHandle.forgetNames (k : TxnHandle) : TxnHandle :=
  { k with mainDbi := 0, mainReady := false, named := [] }

/-- The world with the name cache of the transaction `t` emptied. -/
def World.forgetNames (w : World σ) (t : TxnRef) : World σ :=
  { w with txns := Function.update w.txns t ((w.txns t).map TxnHandle.forgetNames) }

/-- The two worlds differ only in the name cache of `t`, and in the calls that were made. -/
def World.Alike (t : TxnRef) (w u : World σ) : Prop :=
  { w.forgetNames t with log := [] } = { u.forgetNames t with log := [] }

section Alike

variable {L : Platform σ} {w u : World σ} {t i : TxnRef} {k j : TxnHandle}

theorem World.Alike.refl (w : World σ) : w.Alike t w := rfl

theorem World.alike_forgetNames (w : World σ) (t : TxnRef) : w.Alike t (w.forgetNames t) := by
  have htxns : Function.update w.txns t ((w.txns t).map TxnHandle.forgetNames) =
      ((w.forgetNames t).forgetNames t).txns := by
    funext i
    simp only [World.forgetNames, Function.update_self, Function.update_idem, Option.map_map]
    rfl
  exact congrArg (fun txns => { w with log := [], txns := txns }) htxns

theorem World.Alike.trans {v : World σ} (h : w.Alike t u) (h' : u.Alike t v) : w.Alike t v :=
  Eq.trans h h'

variable (h : w.Alike t u)
include h

theorem World.Alike.lib : u.lib = w.lib := (congrArg World.lib h).symm

theorem World.Alike.pid : u.pid = w.pid := (congrArg World.pid h).symm

theorem World.Alike.envs : u.envs = w.envs := (congrArg World.envs h).symm

theorem World.Alike.txnSexps : u.txnSexps = w.txnSexps := (congrArg World.txnSexps h).symm

/-- The handles of `t` differ in their name caches, and no others differ. -/
theorem World.Alike.txn (i : TxnRef) : u.txns i = w.txns i ∨
    i = t ∧ (u.txns i).map TxnHandle.forgetNames = (w.txns i).map TxnHandle.forgetNames := by
  have hi := congrFun (congrArg World.txns h) i
  simp only [World.forgetNames, Function.update_apply] at hi
  split at hi
  · obtain rfl := ‹i = t›
    exact .inr ⟨rfl, hi.symm⟩
  · exact .inl hi.symm

/-- A handle that one of them has is in the other, up to its names. -/
theorem World.Alike.handle (hk : w.txns i = some k) :
    ∃ j, u.txns i = some j ∧ j.forgetNames = k.forgetNames ∧ (i ≠ t → j = k) := by
  rcases h.txn i with hi | ⟨rfl, hi⟩
  · exact ⟨k, hi.trans hk, rfl, fun _ => rfl⟩
  · rw [hk] at hi
    obtain ⟨j, hj, hnames⟩ := Option.map_eq_some_iff.mp hi
    exact ⟨j, hj, hnames, fun hne => absurd rfl hne⟩

/-- A handle that one of them lacks is not in the other. -/
theorem World.Alike.absent (hi : w.txns i = none) : u.txns i = none := by
  rcases h.txn i with hu | ⟨-, hu⟩
  · rw [hu, hi]
  · rw [hi] at hu
    exact Option.map_eq_none_iff.mp hu

/-- Calls leave them alike where libmdbx comes to one state. -/
theorem World.Alike.called (lib : σ) (log log' : List Call) :
    ({ w with lib := lib, log := log } : World σ).Alike t { u with lib := lib, log := log' } := by
  show ({ ({ w.forgetNames t with log := [] } : World σ) with lib := lib } : World σ) =
    { ({ u.forgetNames t with log := [] } : World σ) with lib := lib }
  rw [h]

theorem World.Alike.setEnv (e : EnvRef) (j : Option EnvHandle) :
    (w.setEnv e j).Alike t (u.setEnv e j) := by
  show ({ w.forgetNames t with log := [] } : World σ).setEnv e j =
    ({ u.forgetNames t with log := [] } : World σ).setEnv e j
  rw [h]

/-- The handle of `t` gets values that differ in the names at most. -/
theorem World.Alike.setTxn (hjk : j.forgetNames = k.forgetNames) :
    (w.setTxn t (some k)).Alike t (u.setTxn t (some j)) := by
  have hset : ∀ (v : World σ) (k : TxnHandle), ({ (v.setTxn t (some k)).forgetNames t with
      log := [] } : World σ) =
        ({ v.forgetNames t with log := [] } : World σ).setTxn t (some k.forgetNames) := by
    intro v k
    simp [World.forgetNames, World.setTxn]
  rw [World.Alike, hset, hset, h, hjk]

end Alike

/-! ### Programs that do not look at the names -/

/-- From worlds that differ in the name cache of `t`, the program ends alike. -/
abbrev Blind (t : TxnRef) (m : Pkg σ α) : Prop := Mirrors (World.Alike t) m m

namespace Blind

variable {t : TxnRef}

theorem stop (c : Condition) : Blind t (Mdbx.stop c : Pkg σ α) := .exit _

theorem refuse (refused : Prop) [Decidable refused] (c : Condition) :
    Blind t (Mdbx.refuse refused c : Pkg σ Unit) := .ite (fun _ => stop c) fun _ => .pure ()

theorem check (rc : Status) : Blind t (Mdbx.check rc : Pkg σ Unit) := refuse _ _

theorem whenever {c : Prop} [Decidable c] {m : Pkg σ Unit} (hm : Blind t m) :
    Blind t (Mdbx.whenever c m) := .ite (fun _ => hm) fun _ => .pure ()

theorem ifSome (p : Option α) {f : α → Pkg σ Unit} (hf : ∀ a, Blind t (f a)) :
    Blind t (Mdbx.ifSome p f) := by
  cases p with
  | none => exact .pure ()
  | some a => exact hf a

theorem nonNull (p : Option α) : Blind t (Mdbx.nonNull p : Pkg σ α) := by
  cases p with
  | none => exact .exit _
  | some a => exact .pure a

theorem narrow (bound : ℕ) (x : Double) : Blind t (Mdbx.narrow bound x : Pkg σ ℕ) := by
  rw [Mdbx.narrow]
  split
  · exact .pure _
  · exact .exit _

theorem currentPid : Blind t (Mdbx.currentPid : Pkg σ Pid) :=
  .read (fun _ _ h => by rw [h.pid]) fun _ => .pure _

theorem isTxnSexp (x : Sexp) : Blind t (Mdbx.isTxnSexp x : Pkg σ TxnSexp) := by
  refine .read (fun _ _ h => by rw [h.txnSexps]) fun w => ?_
  cases x with
  | txn n =>
    dsimp only
    split
    · exact .pure _
    · exact stop _
  | env _ => exact stop _
  | other => exact stop _

theorem derefEnv (e : EnvRef) : Blind t (Mdbx.derefEnv e : Pkg σ EnvHandle) := by
  refine .read (fun _ _ h => by rw [h.envs]) fun w => ?_
  split
  · exact .pure _
  · exact .exit _

/-- A look at a handle, past which its names do not matter. -/
theorem derefTxn {i : TxnRef} {f : TxnHandle → Pkg σ α} (hf : ∀ k, f k = f k.forgetNames)
    (hrest : ∀ k, Blind t (f k)) : Blind t (Mdbx.derefTxn i >>= f) := by
  intro w u h
  cases hk : w.txns i with
  | some k =>
    obtain ⟨j, hj, hnames, -⟩ := h.handle hk
    have hsame : f j = f k := by rw [hf j, hnames, ← hf k]
    exact .congr (Prog.bind_ok (derefTxn_run hk))
      ((Prog.bind_ok (derefTxn_run hj)).trans (by rw [hsame])) (hrest k w u h)
  | none =>
    exact .error (Prog.bind_error (derefTxn_none hk))
      (Prog.bind_error (derefTxn_none (h.absent hk))) h

theorem updateEnv (e : EnvRef) (f : EnvHandle → EnvHandle) :
    Blind t (Mdbx.updateEnv e f : Pkg σ Unit) :=
  (derefEnv e).bind fun j => .modify fun _ _ h => h.setEnv e (some (f j))

/-- An assignment to the handle that does not look at its names. -/
theorem updateTxn {f : TxnHandle → TxnHandle}
    (hf : ∀ k, (f k).forgetNames = (f k.forgetNames).forgetNames) :
    Blind t (Mdbx.updateTxn t f : Pkg σ Unit) := by
  intro w u h
  cases hk : w.txns t with
  | some k =>
    obtain ⟨j, hj, hnames, -⟩ := h.handle hk
    refine .ok (updateTxn_run hk f) (updateTxn_run hj f) (h.setTxn ?_)
    rw [hf j, hnames, ← hf k]
  | none =>
    exact .error (Prog.bind_error (derefTxn_none hk))
      (Prog.bind_error (derefTxn_none (h.absent hk))) h

theorem poisonEnv (e : EnvRef) : Blind t (Mdbx.poisonEnv e : Pkg σ Unit) := updateEnv e _

theorem poisonTxn : Blind t (Mdbx.poisonTxn t : Pkg σ Unit) :=
  (updateTxn fun _ => rfl).bind fun _ => derefTxn (fun _ => rfl) fun _ =>
    ifSome _ fun e => poisonEnv e

theorem current {f : TxnPtr × Dbi → Pkg σ α} (hf : ∀ p, Blind t (f p)) :
    Blind t (Mdbx.current t >>= f) := by
  rw [Mdbx.current, bind_assoc]
  refine derefTxn (fun _ => rfl) fun k => ?_
  exact Mirrors.bind ((nonNull _).bind fun _ => .pure _) hf

theorem guard {body : Pkg σ α} {poison : Pkg σ Unit} (hbody : Blind t body)
    (hpoison : Blind t poison) : Blind t (Mdbx.guard body poison) := by
  refine Mirrors.bind (hbody.attempt.bind fun r => ?_) fun r => ?_
  · rcases r with (c | info | - | why) | a
    · exact .exit _
    · exact hpoison.bind fun _ => .pure _
    · exact .exit _
    · exact .exit _
    · exact .pure _
  · cases r with
    | ok a => exact .pure _
    | error info => exact stop _

theorem native (L : Platform σ) (c : NativeCall) : Blind t (Mdbx.native L c) := by
  intro w u h
  have hlib := h.lib
  rcases native_answered L c w with ⟨r, lib, -, hcall⟩ | ⟨info, lib, -, hcall⟩
  · have hr : (L.call c w.lib).1 = .ok r := by rw [hcall]
    refine .ok (native_ok L hr) (native_ok L (by rw [hlib, hr])) ?_
    rw [hlib]
    exact h.called _ _ _
  · have hr : (L.call c w.lib).1 = .error info := by rw [hcall]
    refine .error (native_panicked hr) (native_panicked (by rw [hlib, hr])) ?_
    rw [World.answered, World.answered, hlib]
    exact h.called _ _ _

/-! ### Looking a transaction up -/

theorem txnFromSexp (x : Sexp) : Blind t (Mdbx.txnFromSexp x : Pkg σ TxnRef) := by
  refine (isTxnSexp x).bind fun s => ?_
  split
  · exact stop _
  · refine derefTxn (fun _ => rfl) fun k => currentPid.bind fun pid => ?_
    refine (refuse _ _).bind fun _ => (refuse _ _).bind fun _ => (refuse _ _).bind fun _ => ?_
    split
    · exact stop _
    · refine (derefEnv _).bind fun h => ?_
      exact (refuse _ _).bind fun _ => (refuse _ _).bind fun _ => .pure _

theorem writableTxn (x : Sexp) : Blind t (Mdbx.writableTxn x : Pkg σ TxnRef) :=
  (txnFromSexp x).bind fun _ => derefTxn (fun _ => rfl) fun _ =>
    (refuse _ _).bind fun _ => .pure _

theorem sequenceTxn (x : Sexp) (increment : Double) :
    Blind t (Mdbx.sequenceTxn x increment : Pkg σ TxnRef) :=
  .ite (fun _ => writableTxn x) fun _ => txnFromSexp x

theorem stopMissingDbi (k : TxnHandle) (name : Bytes) :
    Blind t (Mdbx.stopMissingDbi k name : Pkg σ α) :=
  (nonNull _).bind fun _ => (derefEnv _).bind fun _ => stop _

variable (L : Platform σ)

/-! ### Guarded bodies -/

theorem grow : Blind t (Mdbx.grow L) := by
  refine .read (fun w u h => by rw [h.lib]) fun w => Mirrors.bind (.modify fun w u h => ?_)
    fun _ => .pure _
  rw [h.lib]
  exact h.called _ _ _

theorem cursorGet (cursor : CursorPtr) (op : CursorOp) : Blind t (Mdbx.cursorGet L cursor op) :=
  (native L _).bind fun _ => .pure _

theorem position (cursor : CursorPtr) (dbi : Dbi) (reverse : Bool) (start : Option Bytes) :
    Blind t (Mdbx.position L cursor dbi reverse start) := by
  cases start with
  | none => exact cursorGet L _ _
  | some from_ =>
    refine (cursorGet L _ _).bind fun _ => .ite (fun _ => cursorGet L _ _) fun _ => ?_
    refine .ite (fun _ => (native L _).bind fun order => ?_) fun _ => .pure _
    exact .ite (fun _ => cursorGet L _ _) fun _ => .pure _

theorem collect (wantValues : Bool) (key value : Bytes) (found : Scanned) :
    Blind t (Mdbx.collect L wantValues key value found) := by
  refine (grow L).bind fun room => .ite (fun _ => .pure _) fun _ => ?_
  refine .ite (fun _ => .pure _) fun _ => (grow L).bind fun room => ?_
  exact .ite (fun _ => .pure _) fun _ => .pure _

theorem scanLoop (cursor : CursorPtr) (wantValues reverse : Bool) (remaining : ℕ)
    {move : Pkg σ Reached} (hmove : Blind t move) (found : Scanned) :
    Blind t (Mdbx.scanLoop L cursor wantValues reverse remaining move found) := by
  induction remaining generalizing move found with
  | zero => exact .pure _
  | succ remaining ih =>
    refine hmove.bind fun _ => .ite (fun _ => .pure _) fun _ => .ite (fun _ => .pure _) fun _ => ?_
    refine (collect L _ _ _ _).bind fun _ => .ite (fun _ => .pure _) fun _ => ?_
    exact ih (cursorGet L _ _) _

theorem listVisit (rc : Status) (names tables : List Bytes) :
    Blind t (Mdbx.listVisit L rc names tables) := by
  induction tables generalizing names with
  | nil => exact .pure _
  | cons name rest ih =>
    exact (grow L).bind fun room => .ite (fun _ => ih _) fun _ => .pure _

theorem runStat (owner : EnvRef) (txn : Option TxnPtr) :
    Blind t (Mdbx.runStat L owner txn) := by
  refine (derefEnv _).bind fun h => (nonNull _).bind fun env => ?_
  refine (guard ?_ (poisonEnv owner)).bind fun _ => (check _).bind fun _ => .pure _
  exact (native L _).bind fun _ => .pure _

theorem runInfo (owner : EnvRef) (txn : Option TxnPtr) :
    Blind t (Mdbx.runInfo L owner txn) := by
  refine (derefEnv _).bind fun h => (nonNull _).bind fun env => ?_
  refine (guard ?_ (poisonEnv owner)).bind fun _ => (check _).bind fun _ => .pure _
  exact (native L _).bind fun _ => .pure _

/-- A guarded call on the database that the handle points at. -/
theorem call {f : TxnPtr × Dbi → Pkg σ α} (hf : ∀ p, Blind t (f p)) :
    Blind t (Mdbx.guard (Mdbx.current t >>= f) (Mdbx.poisonTxn t)) := guard (current hf) poisonTxn

theorem scanCall (limit : ℕ) (wantValues reverse : Bool) (start : Option Bytes) :
    Blind t (Mdbx.guard (Mdbx.scanCall L t limit wantValues reverse start) (Mdbx.poisonTxn t)) := by
  refine call fun p => (native L _).bind fun opened => .ite (fun _ => .pure _) fun _ => ?_
  refine (scanLoop L _ _ _ _ (position L _ _ _ _) _).bind fun found => ?_
  exact (native L _).bind fun _ => .pure _

theorem sequenceCall (amount : ℕ) :
    Blind t (Mdbx.guard (Mdbx.sequenceCall L t amount) (Mdbx.poisonTxn t)) :=
  call fun _ => (native L _).bind fun _ => .pure _

theorem refuseMainWithNamed (db : List Bytes) (del : Bool) :
    Blind t (Mdbx.refuseMainWithNamed L t db del) := by
  refine whenever (Mirrors.bind ?_ fun count => refuse _ _)
  refine Mirrors.bind (call fun _ => (native L _).bind fun _ => .pure _) fun _ => ?_
  exact (check _).bind fun _ => .pure _

end Blind

/-! ### Opening again -/

section Contract

variable (L : Platform σ) (N : Names σ)

/-- Libmdbx has flagged the transaction as failed. -/
def Platform.FlagsError (s : σ) (p : TxnPtr) : Prop :=
  ∃ r, (L.call (.txnFlags p) s).1 = .ok r ∧ r.out &&& flagTxnError ≠ 0

/-- The promises that a name cache rests on, of transactions that are `fit`: opening an open
database again answers its number and does nothing, and a count of the tables that meets no error
leaves the transaction fit. -/
structure Platform.Reopens (fit : σ → TxnPtr → Prop) : Prop where
  again : ∀ {s p name dbi}, N.slot s p name = some dbi → fit s p →
    ∃ r, L.call (.dbiOpen p name 0) s = (.ok r, s) ∧ r.rc = Status.success ∧ r.out = dbi
  counts : ∀ {s p r}, fit s p → (L.call (.enumerateTables p .count) s).1 = .ok r →
    r.rc = Status.success ∨ r.rc = Status.resultTrue →
      fit (L.call (.enumerateTables p .count) s).2 p

/-- Opening an open database again never does anything. -/
abbrev Platform.Idempotent : Prop := L.Reopens N fun _ _ => True

end Contract

/-! ### Resolving a database with and without the cache -/

section Resolving

variable {L : Platform σ} {N : Names σ} {fit : σ → TxnPtr → Prop} {w u : World σ} {e : EnvRef}
  {t : TxnRef} {k j : TxnHandle} {names : List Bytes}

theorem TxnHandle.forgetNames_cached (k : TxnHandle) (name : Option Bytes) :
    k.forgetNames.cached name = none := by
  cases name <;> rfl

theorem TxnHandle.remember_forgetNames (k : TxnHandle) (name : Option Bytes) (dbi : Dbi) :
    (k.remember name dbi).forgetNames = k.forgetNames := by
  cases name <;> rfl

/-- What `ensure_dbi` does for a database that the cache of `k` lacks. -/
def resolveAfresh (L : Platform σ) (t : TxnRef) (k : TxnHandle) (name : Option Bytes) :
    Pkg σ Dbi := do
  let (rc, dbi) ← guard (dbiCall L k name 0) (poisonTxn t)
  ifSome name fun name => whenever (rc = Status.notFound) (stopMissingDbi k name)
  check rc
  updateTxn t fun k => { k.remember name dbi with dbi := dbi }
  pure dbi

theorem ensureDbiNamed_afresh {name : Option Bytes} (hk : w.txns t = some k)
    (hnone : k.cached name = none) :
    (ensureDbiNamed L t name).run w = (resolveAfresh L t k name).run w := by
  rw [ensureDbiNamed, Prog.bind_ok (derefTxn_run hk), hnone]
  rfl

theorem resolveAfresh_blind (k : TxnHandle) (name : Option Bytes) :
    Blind t (resolveAfresh L t k name) := by
  have hcall : Blind t (guard (dbiCall L k name 0) (poisonTxn t)) :=
    Blind.guard ((Blind.nonNull _).bind fun _ => (Blind.native L _).bind fun _ => .pure _)
      Blind.poisonTxn
  refine hcall.bind fun _ => Mirrors.bind (Blind.ifSome _ fun name =>
    Blind.whenever (Blind.stopMissingDbi k name)) fun _ => (Blind.check _).bind fun _ => ?_
  refine Mirrors.bind (Blind.updateTxn fun k => ?_) fun _ => .pure _
  cases name <;> rfl

/-- The handle of `t` has an empty cache. -/
def Bare (t : TxnRef) (u : World σ) : Prop :=
  ∀ j, u.txns t = some j → ∀ name, j.cached name = none

theorem World.forgetNames_bare (w : World σ) (t : TxnRef) : Bare t (w.forgetNames t) := by
  intro j hj name
  simp only [World.forgetNames, Function.update_self] at hj
  obtain ⟨k, -, rfl⟩ := Option.map_eq_some_iff.mp hj
  exact k.forgetNames_cached name

/-- `ensure_dbi` finds in a cache that is right what it would find without one. -/
theorem ensureDbi_paired (hR : L.Reopens N fit) (h : w.Alike t u) (A : Attached N e t w)
    (hbare : Bare t u) (hfit : fit w.lib ⟨e, t⟩) :
    Paired (ensureDbi L t names) (ensureDbi L t names) w u (fun _ => World.Alike t)
      (fun _ => World.Alike t) := by
  obtain ⟨k, hk, howner, htxn, hcache⟩ := A.txn
  obtain ⟨h', he, henv⟩ := A.env
  obtain ⟨j, hj, hnames, -⟩ := h.handle hk
  have hfresh := hbare j hj names.head?
  cases hcached : k.cached names.head? with
  | none =>
    have hsame : resolveAfresh L t j names.head? = resolveAfresh L t k names.head? := by
      show resolveAfresh L t j.forgetNames names.head? = resolveAfresh L t k.forgetNames names.head?
      rw [hnames]
    refine .congr (ensureDbiNamed_afresh hk hcached) ?_ (resolveAfresh_blind k names.head? w u h)
    rw [← hsame]
    exact ensureDbiNamed_afresh hj hfresh
  | some dbi =>
    obtain ⟨r, hopen, hrc, hout⟩ := hR.again (hcache hcached) hfit
    have hends := ensureDbiNamed_run (L := L) (w := u) (by rw [h.envs, he]) hj
      ((congrArg TxnHandle.owner hnames).trans howner) ((congrArg TxnHandle.txn hnames).trans htxn)
      names.head?
    rw [← h.lib] at hopen
    have hleft := ensureDbiNamed_cached (L := L) hk hcached
    rcases hrun : (ensureDbiNamed L t names.head?).run u with ⟨x | dbi', u'⟩
    · rw [hrun] at hends
      cases hends with
      | failed r' _ hopen' hrc' => rw [hopen] at hopen'; cases hopen'; exact absurd hrc hrc'
      | panicked info _ hopen' => rw [hopen] at hopen'; cases hopen'
    · rw [hrun] at hends
      cases hends with
      | cached _ hcached' => rw [hfresh] at hcached'; cases hcached'
      | opened r' _ hopen' _ hw =>
        rw [hopen] at hopen'
        cases hopen'
        subst hout
        refine .ok hleft hrun ?_
        subst hw
        refine World.Alike.setTxn ?_ ?_
        · have hlib : (L.call (.dbiOpen ⟨e, t⟩ names.head? 0) u.lib).2 = w.lib := by
            rw [hopen, h.lib]
          rw [World.answered, hlib]
          exact h.called _ _ _
        · show { (j.remember names.head? r.out).forgetNames with dbi := r.out } =
            { k.forgetNames with dbi := r.out }
          rw [TxnHandle.remember_forgetNames, hnames]

/-- A command that finds its transaction leaves everything as it was until then. -/
theorem Accesses.paired (h : w.Alike t u) {acc : Pkg σ TxnRef} (hacc : Accesses acc t w)
    (hblind : Blind t acc) (hstill : Within (· = ·) acc) :
    Paired acc acc w u (fun i w' u' => i = t ∧ w' = w ∧ u' = u ∧ ∃ e k, LiveTxn w e t k)
      (fun _ => World.Alike t) := by
  rcases hblind w u h with ⟨i, w', u', hw, hu, -⟩ | ⟨x, w', u', hw, hu, hA⟩
  · rcases hacc with ⟨c, hstop⟩ | ⟨e, k, hrun, hk⟩
    · rw [hstop] at hw
      cases hw
    · rw [hrun] at hw
      cases hw
      refine .ok hrun hu ⟨rfl, rfl, ?_, e, k, hk⟩
      exact (hstill u).trans (by rw [hu]) |>.symm
  · exact .error hw hu hA

/-- A command that resolves its database, and from there on does not look at the names. -/
theorem resolved_paired (hN : L.OpensNames N) (hR : L.Reopens N fit) (hr : Reachable L w)
    (h : w.Alike t u) (hbare : Bare t u) (hfit : ∀ e k, LiveTxn w e t k → fit w.lib ⟨e, t⟩)
    {acc : Pkg σ TxnRef} (hacc : Accesses acc t w) (hblind : Blind t acc)
    (hstill : Within (· = ·) acc) {f : TxnRef → Pkg σ α} (hf : Blind t (f t)) :
    Paired (acc >>= fun t => ensureDbi L t names >>= fun _ => f t)
      (acc >>= fun t => ensureDbi L t names >>= fun _ => f t) w u (fun _ => World.Alike t)
      (fun _ => World.Alike t) := by
  refine (hacc.paired h hblind hstill).bind ?_
  rintro i w' u' ⟨rfl, rfl, rfl, e, k, hk⟩
  exact (ensureDbi_paired hR h (hr.attached hN hk) hbare (hfit e k hk)).bind
    fun _ w' u' h' => hf w' u' h'

end Resolving

/-! ### The commands inside a transaction -/

/-- The commands that work in the transaction `t` and do not end it. -/
inductive Command.Inside (t : TxnRef) : Command → Prop where
  | txnState : Inside t (.txnState (.txn t))
  | txnId : Inside t (.txnId (.txn t))
  | txnStat (db : List Bytes) : Inside t (.txnStat (.txn t) db)
  | txnInfo : Inside t (.txnInfo (.txn t))
  | get (key : Bytes) (db : List Bytes) : Inside t (.get (.txn t) key db)
  | put (key value : Bytes) (overwrite : Bool) (db : List Bytes) :
    Inside t (.put (.txn t) key value overwrite db)
  | del (key : Bytes) (db : List Bytes) : Inside t (.del (.txn t) key db)
  | scan (limit : Double) (values : Bool) (db : List Bytes) (start : Option Bytes)
      (reverse : Bool) : Inside t (.scan (.txn t) limit values db start reverse)
  | dbiOpen (name : Bytes) (create : Bool) : Inside t (.dbiOpen (.txn t) name create)
  | dbiDrop (db : List Bytes) (delete : Bool) : Inside t (.dbiDrop (.txn t) db delete)
  | dbiList : Inside t (.dbiList (.txn t))
  | dbiSequence (db : List Bytes) (increment : Double) :
    Inside t (.dbiSequence (.txn t) db increment)

section Commands

variable {L : Platform σ} {N : Names σ} {fit : σ → TxnPtr → Prop} {w u : World σ} {e : EnvRef}
  {t : TxnRef} {k : TxnHandle} (hN : L.OpensNames N) (hR : L.Reopens N fit) (hr : Reachable L w)
  (h : w.Alike t u) (hbare : Bare t u) (hfit : ∀ e k, LiveTxn w e t k → fit w.lib ⟨e, t⟩)

theorem mdbxTxnState_blind : Blind t (mdbxTxnState_ L (.txn t)) := by
  have hactive : ∀ k, Blind t (activeState L k) := by
    intro k
    refine Mirrors.bind (.ite (fun _ => .pure _) fun _ => ?_) fun poisoned =>
      .ite (fun _ => .pure _) fun _ => Mirrors.bind ?_ fun _ => .pure _
    · split
      · exact .pure _
      · exact (Blind.derefEnv _).bind fun _ => .pure _
    · rw [txnFailed]
      split
      · exact .pure _
      · exact (Blind.native L _).bind fun _ => .pure _
  refine (Blind.isTxnSexp _).bind fun s => ?_
  split
  · exact .pure _
  · refine Blind.derefTxn (fun _ => rfl) fun k => Blind.currentPid.bind fun pid => ?_
    refine .ite (fun _ => .pure _) fun _ => ?_
    split
    · exact hactive k
    · exact .pure _
    · exact .pure _

/-- A command that does not resolve a database. -/
theorem unresolved_paired (hr : Reachable L w) (h : w.Alike t u) {f : TxnRef → Pkg σ α}
    (hf : Blind t (f t)) : Paired (txnFromSexp (.txn t) >>= f) (txnFromSexp (.txn t) >>= f) w u
      (fun _ => World.Alike t) (fun _ => World.Alike t) := by
  have hacc := txnFromSexp_accesses hr t
  refine (hacc.paired h (Blind.txnFromSexp _) (Within.txnFromSexp _)).bind ?_
  rintro i w' u' ⟨rfl, rfl, rfl, -⟩
  exact hf w' u' h

/-- Counting the named databases leaves the handles alone. -/
theorem refuseMainWithNamed_bare (hbare : Bare t u) (db : List Bytes) (del : Bool) :
    Triple (refuseMainWithNamed L t db del) u (fun _ u' => Bare t u') fun _ _ => True := by
  have hcount : Triple (countCall L t) u (fun _ u' => Bare t u') fun _ _ => True := by
    rw [countCall, current, bind_assoc]
    cases hk : u.txns t with
    | none => exact Triple.stopped (derefTxn_none hk) trivial
    | some j =>
      refine Triple.step (derefTxn_run hk) ?_
      cases hp : j.txn with
      | none => trivial
      | some p =>
        rw [nonNull_some, pure_bind, pure_bind]
        rcases native_answered L (.enumerateTables p .count) u with
          ⟨r, lib, hrun, -⟩ | ⟨info, lib, hrun, -⟩
        · exact Triple.step hrun (Triple.pure hbare)
        · exact Triple.stopped hrun trivial
  by_cases hmain : del = false ∧ db = []
  swap
  · rw [refuseMainWithNamed, whenever_neg hmain]
    exact Triple.pure hbare
  rw [refuseMainWithNamed, whenever_pos hmain, countNamedTables, bind_assoc]
  refine Triple.bind (guard_triple (fun _ _ _ => id) (poisonTxn_aside t) hcount) fun r u' hu => ?_
  rw [bind_assoc]
  refine Triple.bind (Q := fun _ => Bare t) ?_ fun _ u' hu => ?_
  · by_cases hrc : r.1 = Status.success
    · rw [hrc]
      exact Triple.ok check_success hu
    · exact Triple.error (check_failure hrc) trivial
  · by_cases hsome : 0 < r.2
    · exact Triple.error (refuse_run hsome) trivial
    · exact Triple.ok (refuse_pass hsome) hu

include hR in
/-- Counting the named databases leaves the transaction fit. -/
theorem refuseMainWithNamed_fit (hk : w.txns t = some k) (htxn : k.txn = some ⟨e, t⟩)
    (hfit : fit w.lib ⟨e, t⟩) (db : List Bytes) (del : Bool) :
    Triple (refuseMainWithNamed L t db del) w (fun _ u => fit u.lib ⟨e, t⟩) fun _ _ => True := by
  by_cases hmain : del = false ∧ db = []
  swap
  · rw [refuseMainWithNamed, whenever_neg hmain]
    exact Triple.pure hfit
  rw [refuseMainWithNamed, whenever_pos hmain]
  have hcount : Triple (countCall L t) w
      (fun x u => x.1 = Status.success → ¬ 0 < x.2 → fit u.lib ⟨e, t⟩) fun _ _ => True := by
    rw [countCall, current, bind_assoc]
    refine Triple.step (derefTxn_run hk) ?_
    rw [htxn, nonNull_some, pure_bind, pure_bind]
    rcases native_answered L (.enumerateTables ⟨e, t⟩ .count) w with
      ⟨r, -, -, hcall⟩ | ⟨info, lib, hrun, -⟩
    swap
    · exact Triple.stopped hrun trivial
    refine Triple.step (native_ok L hcall) (Triple.pure fun hrc hnone => ?_)
    -- A visited table would have been counted, and a count of none means that no error was met.
    cases hout : r.out with
    | nil =>
      simp only [hout] at hrc
      split at hrc
      · exact hR.counts hfit hcall (.inr ‹_›)
      · exact hR.counts hfit hcall (.inl hrc)
    | cons name rest =>
      simp [hout] at hnone
  rw [countNamedTables, bind_assoc]
  refine Triple.bind (guard_triple (fun _ _ _ => id) (poisonTxn_aside t) hcount) ?_
  rintro ⟨rc, count⟩ u hu
  by_cases hrc : rc = Status.success
  swap
  · exact Triple.error (by rw [bind_assoc, Prog.bind_error (check_failure hrc)]) trivial
  subst hrc
  rw [bind_assoc]
  refine Triple.step check_success ?_
  by_cases hsome : 0 < count
  · exact Triple.error (refuse_run hsome) trivial
  · exact Triple.ok (refuse_pass hsome) (hu rfl hsome)

include hN hR hr h hbare hfit

theorem mdbxTxnStat_paired (db : List Bytes) :
    Paired (mdbxTxnStat_ L (.txn t) db) (mdbxTxnStat_ L (.txn t) db) w u
      (fun _ => World.Alike t) (fun _ => World.Alike t) := by
  have hacc := txnFromSexp_accesses hr t
  refine (hacc.paired h (Blind.txnFromSexp _) (Within.txnFromSexp _)).bind ?_
  rintro i w' u' ⟨rfl, rfl, rfl, e, k, hk⟩
  obtain ⟨j, hj, hnames, -⟩ := h.handle hk.at_
  have howner : j.forgetNames.owner = k.forgetNames.owner := by rw [hnames]
  have htxn : j.forgetNames.txn = k.forgetNames.txn := by rw [hnames]
  refine .congr (Prog.bind_ok (derefTxn_run hk.at_)) (Prog.bind_ok (derefTxn_run hj)) ?_
  rw [show j.owner = k.owner from howner, show j.txn = k.txn from htxn]
  split
  · exact Mirrors.bind (Blind.nonNull _) (fun _ => Blind.runStat L _ _) w' u' h
  · refine (ensureDbi_paired hR h (hr.attached hN hk) hbare (hfit e k hk)).bind fun _ w' u' h' => ?_
    refine Mirrors.bind (Blind.call fun _ => (Blind.native L _).bind fun _ => .pure _)
      (fun _ => (Blind.check _).bind fun _ => .pure _) w' u' h'

theorem mdbxDbiDrop_paired (db : List Bytes) (del : Bool) :
    Paired (mdbxDbiDrop_ L (.txn t) db del) (mdbxDbiDrop_ L (.txn t) db del) w u
      (fun _ => World.Alike t) (fun _ => World.Alike t) := by
  have hacc := writableTxn_accesses hr t
  refine (hacc.paired h (Blind.writableTxn _) (Within.writableTxn _)).bind ?_
  rintro i w' u' ⟨rfl, rfl, rfl, e, k, hk⟩
  have I : Inv { lossy := true } w' := hr.invariant (by simp)
  have hfits := refuseMainWithNamed_fit hR hk.at_ (I.graph.txnPtr hk) (hfit e k hk) db del
  have hcounted := (Blind.refuseMainWithNamed L db del w' u' h).along
    (((refuseMainWithNamed_served hN hr db hk del).and hfits).mono
      (fun _ _ hu => And.intro hu.1.2 hu.2) fun _ _ _ => trivial)
    (refuseMainWithNamed_bare hbare db del)
  refine hcounted.bind ?_
  rintro - w₁ u₁ ⟨h₁, ⟨A, hfit₁⟩, hbare₁⟩
  by_cases hmain : del = true ∧ db = []
  · exact .error (Prog.bind_error (refuse_run hmain)) (Prog.bind_error (refuse_run hmain)) h₁
  refine .congr (Prog.bind_ok (refuse_pass hmain)) (Prog.bind_ok (refuse_pass hmain)) ?_
  refine (ensureDbi_paired hR h₁ A hbare₁ hfit₁).bind fun _ w₂ u₂ h₂ => ?_
  refine Mirrors.bind (Blind.call fun _ => (Blind.native L _).bind fun _ => .pure _) (fun rc => ?_)
    w₂ u₂ h₂
  refine (Blind.check rc).bind fun _ => Blind.whenever (Blind.ifSome _ fun name => ?_)
  exact Blind.updateTxn fun _ => rfl

theorem mdbxScan_paired (limit : Double) (values : Bool) (db : List Bytes) (start : Option Bytes)
    (reverse : Bool) :
    Paired (mdbxScan_ L (.txn t) limit values db start reverse)
      (mdbxScan_ L (.txn t) limit values db start reverse) w u (fun _ => World.Alike t)
      (fun _ => World.Alike t) := by
  by_cases hlarge : ¬ limit.le (maxNativeInteger L) = true
  · exact .error (Prog.bind_error (refuse_run hlarge)) (Prog.bind_error (refuse_run hlarge)) h
  refine .congr (Prog.bind_ok (refuse_pass hlarge)) (Prog.bind_ok (refuse_pass hlarge)) ?_
  refine resolved_paired hN hR hr h hbare hfit (txnFromSexp_accesses hr t) (Blind.txnFromSexp _)
    (Within.txnFromSexp _) ?_
  refine Mirrors.bind (.ite (fun _ => .pure _) fun _ => Blind.narrow _ _) fun bound => ?_
  refine (Blind.scanCall L _ _ _ _).bind fun found => (Blind.refuse _ _).bind fun _ => ?_
  exact (Blind.check _).bind fun _ => .pure _

/-- Each command does with the cache what it does without it. -/
theorem Command.Inside.paired {command : Command} (hc : command.Inside t) :
    Paired (command.run L) (command.run L) w u (fun _ => World.Alike t)
      (fun _ => World.Alike t) := by
  have hread := txnFromSexp_accesses hr t
  have hwrite := writableTxn_accesses hr t
  cases hc with
  | txnState => exact (mdbxTxnState_blind.map) w u h
  | txnId =>
    refine Paired.map (unresolved_paired hr h (Blind.derefTxn (fun _ => rfl) fun k => ?_))
    exact (Blind.nonNull _).bind fun _ => (Blind.native L _).bind fun _ => .pure _
  | txnStat db => exact Paired.map (mdbxTxnStat_paired hN hR hr h hbare hfit db)
  | txnInfo =>
    refine Paired.map (unresolved_paired hr h (Blind.derefTxn (fun _ => rfl) fun k => ?_))
    exact (Blind.nonNull _).bind fun _ => Blind.runInfo L _ _
  | get key db =>
    refine Paired.map (resolved_paired hN hR hr h hbare hfit hread (Blind.txnFromSexp _)
      (Within.txnFromSexp _) ?_)
    refine Mirrors.bind (Blind.call fun _ => (Blind.native L _).bind fun _ => .pure _) fun _ => ?_
    exact .ite (fun _ => .pure _) fun _ => (Blind.check _).bind fun _ => .pure _
  | put key value overwrite db =>
    refine Paired.map (resolved_paired hN hR hr h hbare hfit hwrite (Blind.writableTxn _)
      (Within.writableTxn _) ?_)
    refine Mirrors.bind (Blind.call fun _ => (Blind.native L _).bind fun _ => .pure _) fun _ => ?_
    exact .ite (fun _ => .pure _) fun _ => (Blind.check _).bind fun _ => .pure _
  | del key db =>
    refine Paired.map (resolved_paired hN hR hr h hbare hfit hwrite (Blind.writableTxn _)
      (Within.writableTxn _) ?_)
    refine Mirrors.bind (Blind.call fun _ => (Blind.native L _).bind fun _ => .pure _) fun _ => ?_
    exact .ite (fun _ => .pure _) fun _ => (Blind.check _).bind fun _ => .pure _
  | scan limit values db start reverse =>
    exact Paired.map (mdbxScan_paired hN hR hr h hbare hfit limit values db start reverse)
  | dbiOpen name create =>
    refine Paired.map (unresolved_paired hr h ?_)
    refine Blind.derefTxn (fun _ => rfl) fun k => (Blind.refuse _ _).bind fun _ => ?_
    refine Mirrors.bind (Blind.guard ?_ Blind.poisonTxn) fun _ => ?_
    · exact (Blind.nonNull _).bind fun _ => (Blind.native L _).bind fun _ => .pure _
    refine Mirrors.bind (Blind.whenever (Blind.stopMissingDbi k name)) fun _ => ?_
    exact (Blind.check _).bind fun _ => Blind.updateTxn fun _ => rfl
  | dbiDrop db delete => exact Paired.map (mdbxDbiDrop_paired hN hR hr h hbare hfit db delete)
  | dbiList =>
    refine Paired.map (unresolved_paired hr h ?_)
    refine Mirrors.bind (Blind.call fun _ => (Blind.native L _).bind fun _ =>
      Blind.listVisit L _ _ _) fun _ => ?_
    exact (Blind.refuse _ _).bind fun _ => (Blind.check _).bind fun _ => .pure _
  | dbiSequence db increment =>
    refine Paired.map (resolved_paired hN hR hr h hbare hfit (sequenceTxn_accesses hr t increment)
      (Blind.sequenceTxn _ _) (Within.sequenceTxn _ _) ?_)
    refine (Blind.sequenceCall L _).bind fun _ => (Blind.check _).bind fun _ => ?_
    refine .ite (fun _ => .pure _) fun _ => (Blind.refuse _ _).bind fun _ => ?_
    refine (Blind.narrow _ _).bind fun amount => (Blind.sequenceCall L _).bind fun _ => ?_
    exact (Blind.refuse _ _).bind fun _ => (Blind.check _).bind fun _ => .pure _

end Commands

/-! ### Runs -/

/-- The answers of commands made one after the other. -/
def World.answers (L : Platform σ) : World σ → List Command → List (Except Exit Answer)
  | _, [] => []
  | w, command :: rest =>
    ((command.run L).run w).1 :: ((command.run L).run w).2.answers L rest

/-- The answers when each command starts with an empty name cache. -/
def World.answersAfresh (L : Platform σ) (t : TxnRef) :
    World σ → List Command → List (Except Exit Answer)
  | _, [] => []
  | w, command :: rest =>
    ((command.run L).run (w.forgetNames t)).1 ::
      ((command.run L).run (w.forgetNames t)).2.answersAfresh L t rest

/-- The world after them. -/
def World.afterAfresh (L : Platform σ) (t : TxnRef) : World σ → List Command → World σ
  | w, [] => w
  | w, command :: rest => ((command.run L).run (w.forgetNames t)).2.afterAfresh L t rest

section Runs

variable {L : Platform σ} {N : Names σ} {fit : σ → TxnPtr → Prop} {w u : World σ} {e : EnvRef}
  {t : TxnRef} {k : TxnHandle} (hN : L.OpensNames N)
include hN

/-- A run with the cache and one without it go side by side until the transaction is no longer fit,
if that happens. -/
theorem Reachable.side_by_side (hR : L.Reopens N fit) (hr : Reachable L w) (h : w.Alike t u)
    (commands : List Command) (hcommands : ∀ command ∈ commands, command.Inside t) :
    ∃ before rest, commands = before ++ rest ∧
      u.answersAfresh L t before = w.answers L before ∧
      (w.after L (before.map .entry)).Alike t (u.afterAfresh L t before) ∧
      (rest = [] ∨ ∃ e k, LiveTxn (w.after L (before.map .entry)) e t k ∧
        ¬ fit (w.after L (before.map .entry)).lib ⟨e, t⟩) := by
  induction commands generalizing w u with
  | nil => exact ⟨[], [], rfl, rfl, h, .inl rfl⟩
  | cons command rest ih =>
    by_cases hfit : ∀ e k, LiveTxn w e t k → fit w.lib ⟨e, t⟩
    swap
    · push Not at hfit
      exact ⟨[], command :: rest, rfl, rfl, h, .inr hfit⟩
    have hinside : command.Inside t := hcommands command List.mem_cons_self
    obtain ⟨hanswer, hnext⟩ := (hinside.paired hN hR hr (h.trans (u.alike_forgetNames t))
      (u.forgetNames_bare t) hfit).ends
    obtain ⟨before, later, rfl, hanswers, hlast, hends⟩ := ih (hr.entry command) hnext
      fun c hc => hcommands c (List.mem_cons_of_mem _ hc)
    refine ⟨command :: before, later, rfl, ?_, hlast, hends⟩
    rw [World.answersAfresh, World.answers, hanswer, hanswers]

/-- A database that was deleted is neither open nor remembered. -/
theorem mdbxDbiDrop_forgotten (hr : Reachable L w) (ht : LiveTxn w e t k) {name : Bytes}
    {rest : List Bytes} (h : (mdbxDbiDrop_ L (.txn t) (name :: rest) true).run w = (.ok (), u)) :
    N.slot u.lib ⟨e, t⟩ (some name) = none ∧
      ∀ j, u.txns t = some j → j.cached (some name) = none := by
  have I : Inv { lossy := true } w := hr.invariant (by simp)
  obtain ⟨i, w', hacc, h⟩ := Prog.of_bind_ok h
  rcases writableTxn_accesses hr t with ⟨c, hstop⟩ | ⟨_, _, hrun, -⟩
  · rw [hstop] at hacc
    cases hacc
  rw [hrun] at hacc
  cases hacc
  have hfound : (txnFromSexp (.txn t)).run w = (.ok t, w) := by
    rcases txnFromSexp_accesses hr t with ⟨c, hstop⟩ | ⟨_, _, hfound, -⟩
    · rw [writableTxn, Prog.bind_error hstop] at hrun
      cases hrun
    · exact hfound
  rw [refuseMainWithNamed, whenever_neg (by simp), pure_bind,
    Prog.bind_ok (refuse_pass (by simp))] at h
  obtain ⟨dbi, w₁, hdb, h⟩ := Prog.of_bind_ok h
  have hnames := ensureDbiNamed_names hN (hr.caches hN) t (some name)
  have hbears := ensureDbi_bears hN (I := fun _ => True) (fun _ _ _ => id) (name :: rest)
    (fun _ => id) trivial (hr.attached hN ht)
  obtain ⟨e', h', k₁, he₁, ht₁, htxn, -, I₁⟩ := I.resolved hfound hdb
  rw [Triple, show (ensureDbiNamed L t (some name)).run w = (.ok dbi, w₁) from hdb] at hnames
  rw [Triple, hdb] at hbears
  obtain ⟨C, -⟩ := hnames
  obtain ⟨-, ⟨k₂, hk₂, hp, hdbi⟩, hslot⟩ := hbears
  obtain rfl : k₁ = k₂ := Option.some.inj (ht₁.at_ ▸ hk₂)
  obtain rfl : e' = e := congrArg TxnPtr.env (Option.some.inj (htxn.symm.trans hp))
  have hnodup := (C.sound ht₁.at_ htxn (I₁.working ht₁)).nodup
  have hbody : (dropCall L t true).run w₁ =
      (native L (.drop ⟨e', t⟩ dbi true) >>= fun r => pure r.rc).run w₁ := by
    rw [dropCall, current, bind_assoc, Prog.bind_ok (derefTxn_run hk₂), hp, hdbi]
    rfl
  rcases guard_call (poisonTxn t) (fun r : Reply (.drop ⟨e', t⟩ dbi true) => r.rc) hbody with
    ⟨r, hcall, hdrop⟩ | ⟨info, x, hcall, hdrop⟩
  swap
  · rw [Prog.bind_error hdrop] at h
    cases h
  rw [Prog.bind_ok hdrop] at h
  obtain ⟨_, w₂, hcheck, h⟩ := Prog.of_bind_ok h
  obtain ⟨hrc, rfl⟩ := of_check hcheck
  rw [whenever_pos rfl, List.head?_cons, ifSome_some, updateTxn_run (by exact hk₂)] at h
  cases h
  refine ⟨?_, fun j hj => ?_⟩
  · show N.slot (L.call (.drop ⟨e', t⟩ dbi true) w₁.lib).2 ⟨e', t⟩ (some name) = none
    rw [hN.deletes hcall hrc]
    exact if_pos hslot
  · rw [World.setTxn_txns, Function.update_self] at hj
    cases hj
    show numberOf name (k₁.named.eraseP (·.1 == name)) = none
    rw [numberOf_erase hnodup, if_pos rfl]

/-- The name cache is transparent where opening a database again does nothing.  In every reachable
state a run of commands in one transaction, with failures and panics anywhere, answers what the run
answers that empties the cache before each command and so opens every database afresh, and leaves
the same world but for that cache.  What the cache of a live transaction says is what an open would
answer, changing nothing, no name is in it twice, and a database that was deleted is neither
remembered nor open. -/
theorem Reachable.cache_transparent (hI : L.Idempotent N) (hr : Reachable L w) (t : TxnRef) :
    (∀ commands : List Command, (∀ command ∈ commands, command.Inside t) →
      w.answersAfresh L t commands = w.answers L commands ∧
        (w.after L (commands.map .entry)).Alike t (w.afterAfresh L t commands)) ∧
      ∀ e k, LiveTxn w e t k →
        (∀ name dbi, k.cached name = some dbi → ∃ r, L.call (.dbiOpen ⟨e, t⟩ name 0) w.lib =
          (.ok r, w.lib) ∧ r.rc = Status.success ∧ r.out = dbi) ∧
        (k.named.map Prod.fst).Nodup ∧
        ∀ name rest u, (mdbxDbiDrop_ L (.txn t) (name :: rest) true).run w = (.ok (), u) →
          N.slot u.lib ⟨e, t⟩ (some name) = none ∧
            ∀ j, u.txns t = some j → j.cached (some name) = none := by
  refine ⟨fun commands hcommands => ?_, fun e k ht => ?_⟩
  · obtain ⟨before, rest, rfl, hanswers, hlast, rfl | ⟨_, _, -, hunfit⟩⟩ :=
      hr.side_by_side hN hI (.refl w) commands hcommands
    · rw [List.append_nil]
      exact ⟨hanswers, hlast⟩
    · exact absurd trivial hunfit
  have hcached := hr.cached hN ht
  refine ⟨fun name dbi h => hI.again (hcached.slot h) trivial, hcached.nodup,
    fun name rest u h => ?_⟩
  exact mdbxDbiDrop_forgotten hN hr ht h

/-- Libmdbx opens a database again in a transaction that it has not flagged as failed.  Until it
flags one, the run with the cache answers what the run without it answers. -/
theorem Reachable.cache_until_failed (hR : L.Reopens N fun s p => ¬ L.FlagsError s p)
    (hr : Reachable L w) (t : TxnRef) (commands : List Command)
    (hcommands : ∀ command ∈ commands, command.Inside t) :
    ∃ before rest, commands = before ++ rest ∧
      w.answersAfresh L t before = w.answers L before ∧
      (w.after L (before.map .entry)).Alike t (w.afterAfresh L t before) ∧
      (rest = [] ∨ ∃ e k, LiveTxn (w.after L (before.map .entry)) e t k ∧
        L.FlagsError (w.after L (before.map .entry)).lib ⟨e, t⟩) := by
  obtain ⟨before, rest, heq, hanswers, hlast, hends⟩ :=
    hr.side_by_side hN hR (.refl w) commands hcommands
  exact ⟨before, rest, heq, hanswers, hlast,
    hends.imp_right fun ⟨e, k, ht, hfailed⟩ => ⟨e, k, ht, not_not.mp hfailed⟩⟩

end Runs

/-! ### Runs with a library of two databases -/

/-- A named database is opened, written, looked at and asked for again, and main is read. -/
def mixedUse : List Command :=
  [.dbiOpen (.txn 1) sampleName false, .put (.txn 1) [] [] true [sampleName],
    .txnStat (.txn 1) [sampleName], .get (.txn 1) [] [], .dbiOpen (.txn 1) [] false,
    .dbiSequence (.txn 1) [sampleName] (.ofNat 1)]

theorem mixedUse_inside : ∀ command ∈ mixedUse, command.Inside 1 := by
  intro command hc
  simp only [mixedUse, List.mem_cons, List.not_mem_nil, or_false] at hc
  rcases hc with rfl | rfl | rfl | rfl | rfl | rfl
  · exact .dbiOpen _ _
  · exact .put _ _ _ _
  · exact .txnStat _
  · exact .get _ _
  · exact .dbiOpen _ _
  · exact .dbiSequence _ _

theorem stock_idempotent (main named : ℕ) : (stock main named).Idempotent stockNames where
  again := by
    intro s p name dbi h _
    rw [stockNames_slot_iff] at h
    rcases h with ⟨rfl, rfl, hmem⟩ | ⟨rfl, rfl, hmem⟩
    · refine ⟨⟨Status.success, (0 : ℕ)⟩, ?_, rfl, rfl⟩
      show (Except.ok _, s.open p false) = _
      rw [Stock.open, if_pos hmem]
      rfl
    · refine ⟨⟨Status.success, (1 : ℕ)⟩, ?_, rfl, rfl⟩
      show (Except.ok (stockCall main named s (.dbiOpen p (some sampleName) 0)).1,
        (stockCall main named s (.dbiOpen p (some sampleName) 0)).2) = _
      simp only [stockCall, if_pos, Stock.open, hmem]
  counts _ _ _ := trivial

theorem Reachable.cache_transparent_stock :
    (stockBegun 2 1).answersAfresh (stock 2 1) 1 mixedUse =
      (stockBegun 2 1).answers (stock 2 1) mixedUse :=
  ((Reachable.cache_transparent (stock_opensNames 2 1) (stock_idempotent 2 1)
    (stockBegun_reachable 2 1) 1).1 mixedUse mixedUse_inside).1

/-! ### A library that fails -/

/-- What a library answers that has no room for a record: the first write makes the transaction
fail, and opening a cursor is all that can be done in it then. -/
def crammedCall (failed : Bool) : (c : NativeCall) → Reply c × Bool
  | .txnFlags _ => (⟨Status.success, if failed then flagTxnError else 0⟩, failed)
  | .dbiOpen _ none _ => (⟨if failed then Status.badTxn else Status.success, (0 : ℕ)⟩, failed)
  -- `MDBX_DBS_FULL`: the environment was opened without room for named databases.
  | .dbiOpen _ (some _) _ => (⟨if failed then Status.badTxn else -30791, (0 : ℕ)⟩, failed)
  -- `MDBX_MAP_FULL`.
  | .put _ _ _ _ _ => (⟨if failed then Status.badTxn else -30792, ()⟩, true)
  | .drop _ _ true => (⟨if failed then Status.badTxn else Status.incompatible, ()⟩, failed)
  | .cursorOpen _ _ => (⟨Status.success, (0 : ℕ)⟩, failed)
  | c => (⟨if failed ∧ c.target ≠ none then Status.badTxn else Status.success, c.blank⟩, failed)

def crammed : Platform Bool where
  call c s := (.ok (crammedCall s c).1, (crammedCall s c).2)
  quiet _ _ _ := ⟨_, rfl⟩
  badAlloc s := (false, s)
  allocate s := (⟨[], false⟩, s)
  strerror _ := ""
  wide := true

theorem crammed_opensNames : crammed.OpensNames mainOnly :=
  mainOnly_opensNames (fun h _ => by cases h; rfl)
    (fun {s _ _ _ _} h hrc => by cases h; cases s <;> cases hrc)
    fun {s _ _ _} h hrc => by cases h; cases s <;> cases hrc

theorem crammed_flagsError (failed : Bool) (p : TxnPtr) :
    crammed.FlagsError failed p ↔ failed = true := by
  constructor
  · rintro ⟨r, hcall, hflags⟩
    cases hcall
    cases failed with
    | true => rfl
    | false => exact absurd (Nat.zero_and flagTxnError) hflags
  · rintro rfl
    refine ⟨_, rfl, ?_⟩
    show flagTxnError &&& flagTxnError ≠ 0
    decide

theorem crammed_reopens : crammed.Reopens mainOnly fun s p => ¬ crammed.FlagsError s p where
  again {s p name dbi} h hfit := by
    rw [crammed_flagsError, Bool.not_eq_true] at hfit
    subst hfit
    cases name with
    | none =>
      cases h
      exact ⟨_, rfl, rfl, rfl⟩
    | some name => cases h
  counts hfit _ _ := by
    rw [crammed_flagsError] at hfit ⊢
    exact hfit

/-- A write transaction is open. -/
def crammedBegun : World Bool := (World.start false 1).after crammed openAndBegin

/-- A record is written, and then no record is asked for. -/
def overfill : List Command :=
  [.put (.txn 1) [] [] true [], .scan (.txn 1) (.ofNat 0) false [] none false]

theorem Reachable.cache_until_failed_overfill : ∃ before rest, overfill = before ++ rest ∧
    crammedBegun.answersAfresh crammed 1 before = crammedBegun.answers crammed before ∧
    (crammedBegun.after crammed (before.map .entry)).Alike 1
      (crammedBegun.afterAfresh crammed 1 before) ∧
    (rest = [] ∨ ∃ e k, LiveTxn (crammedBegun.after crammed (before.map .entry)) e 1 k ∧
      crammed.FlagsError (crammedBegun.after crammed (before.map .entry)).lib ⟨e, 1⟩) := by
  have hr : Reachable crammed crammedBegun := ⟨_, 1, World.after_steps ⟨trivial, trivial, trivial⟩⟩
  refine Reachable.cache_until_failed crammed_opensNames crammed_reopens hr 1 overfill ?_
  intro command hc
  simp only [overfill, List.mem_cons, List.not_mem_nil, or_false] at hc
  rcases hc with rfl | rfl
  · exact .put _ _ _ _
  · exact .scan _ _ _ _ _

/-- In the failed transaction the cache shows: with it an empty listing is given. -/
example : (crammedBegun.answers crammed overfill, crammedBegun.answersAfresh crammed 1 overfill) =
    ([.error (.stop (.status (-30792))), .ok (.records [] [])],
      [.error (.stop (.status (-30792))), .error (.stop (.status Status.badTxn))]) := by
  decide +kernel

end Mdbx
