import Mdbx.Cache
import Mdbx.Registry

/-! Requests that fail: whatever raises a condition, short of ending a transaction or closing an
environment, leaves the registries, the handles and the objects as they were, and nothing of its
own open. -/

namespace Mdbx

open ProofKit

variable {σ α β : Type} {L : Platform σ} {w w' : World σ}

/-! ### What raises no condition -/

/-- The program raises no condition. -/
abbrev Unstopped (m : Pkg σ α) : Prop :=
  Keeps (fun _ : World σ => True) (fun x _ => ¬ IsStop x) (fun _ => True) m

namespace Unstopped

variable {m : Pkg σ α} {f : α → Pkg σ β}

theorem exit {x : Exit} (hx : ¬ IsStop x) : Unstopped (Prog.exit x : Pkg σ α) :=
  Keeps.exit fun _ => hx

theorem get : Unstopped (Prog.get : Pkg σ (World σ)) := fun _ _ _ => ⟨trivial, trivial⟩

theorem modify (g : World σ → World σ) : Unstopped (Prog.modify g : Pkg σ Unit) :=
  fun _ _ _ => ⟨trivial, trivial⟩

theorem whenever {c : Prop} [Decidable c] {m : Pkg σ Unit} (hm : c → Unstopped m) :
    Unstopped (Mdbx.whenever c m) := Keeps.ite hm fun _ => Keeps.pure ()

theorem ifSome (p : Option α) {f : α → Pkg σ Unit} (hf : ∀ a, Unstopped (f a)) :
    Unstopped (Mdbx.ifSome p f) := by
  cases p with
  | none => exact Keeps.pure ()
  | some a => exact hf a

theorem currentPid : Unstopped (Mdbx.currentPid : Pkg σ Pid) := Keeps.bind get fun _ => Keeps.pure _

theorem derefEnv (e : EnvRef) : Unstopped (Mdbx.derefEnv e : Pkg σ EnvHandle) := by
  refine Keeps.bind get fun w => ?_
  split
  · exact Keeps.pure _
  · exact exit (by simp [IsStop])

theorem derefTxn (t : TxnRef) : Unstopped (Mdbx.derefTxn t : Pkg σ TxnHandle) := by
  refine Keeps.bind get fun w => ?_
  split
  · exact Keeps.pure _
  · exact exit (by simp [IsStop])

theorem updateEnv (e : EnvRef) (f : EnvHandle → EnvHandle) :
    Unstopped (Mdbx.updateEnv e f : Pkg σ Unit) := Keeps.bind (derefEnv e) fun _ => modify _

theorem updateTxn (t : TxnRef) (f : TxnHandle → TxnHandle) :
    Unstopped (Mdbx.updateTxn t f : Pkg σ Unit) := Keeps.bind (derefTxn t) fun _ => modify _

theorem native (c : NativeCall) : Unstopped (Mdbx.native L c) := by
  refine Keeps.bind get fun w => ?_
  split
  · exact Keeps.bind (modify _) fun _ => Keeps.pure _
  · exact Keeps.bind (modify _) fun _ => exit (by simp [IsStop])

theorem runGuarded {poison : Pkg σ Unit} (hm : Unstopped m) (hpoison : Unstopped poison) :
    Unstopped (Mdbx.runGuarded m poison) := by
  intro w _ _
  have hattempt : Triple (Prog.attempt m) w (fun r _ => ∀ x, r = .error x → ¬ IsStop x)
      (fun x _ => True ∧ ¬ IsStop x) :=
    Triple.attempt ((hm w trivial trivial).mono (fun _ _ _ _ h => by cases h)
      fun x _ h _ heq => by cases heq; exact h.2)
  refine Triple.bind hattempt fun r w₁ hr => ?_
  split
  · exact Keeps.pure _ w₁ trivial trivial
  · exact Keeps.bind hpoison (fun _ => Keeps.pure _) w₁ trivial trivial
  · exact exit (hr _ rfl) w₁ trivial trivial

theorem poisonEnv (e : EnvRef) : Unstopped (Mdbx.poisonEnv e : Pkg σ Unit) := updateEnv e _

theorem poisonTxn (t : TxnRef) : Unstopped (Mdbx.poisonTxn t : Pkg σ Unit) := by
  refine Keeps.bind (updateTxn t _) fun _ => Keeps.bind (derefTxn t) fun k => ?_
  exact ifSome _ fun e => poisonEnv e

theorem abandon (pointer : Option Abandoned) : Unstopped (Mdbx.abandon pointer : Pkg σ Unit) :=
  modify _

theorem abandonEnv (e : EnvRef) : Unstopped (Mdbx.abandonEnv e : Pkg σ Unit) :=
  Keeps.bind (derefEnv e) fun _ =>
    Keeps.bind (abandon _) fun _ => Keeps.bind (abandon _) fun _ => abandon _

theorem recordHeapRoots (e : EnvRef) : Unstopped (Mdbx.recordHeapRoots L e) := by
  refine Keeps.bind (derefEnv e) fun h => Keeps.bind currentPid fun pid => ifSome _ fun env => ?_
  exact whenever fun _ => Keeps.bind (native _) fun _ => updateEnv e _

theorem unregisterTxn (t : TxnRef) : Unstopped (Mdbx.unregisterTxn t : Pkg σ Unit) :=
  Keeps.bind (derefTxn t) fun _ => ifSome _ fun e => updateEnv e _

theorem markFinished (t : TxnRef) (state : TxnState) : Unstopped (Mdbx.markFinished L t state) := by
  refine Keeps.bind (derefTxn t) fun k => Keeps.bind ?_ fun _ => ?_
  · exact ifSome _ fun e => whenever fun _ => recordHeapRoots e
  · exact Keeps.bind (updateTxn t _) fun _ => Keeps.bind (unregisterTxn t) fun _ => updateTxn t _

/-- A close on the way of a finalizer keeps what goes wrong to itself. -/
theorem closeHandle (e : EnvRef) : Unstopped (Mdbx.closeHandle L e false) := by
  refine Keeps.bind (derefEnv e) fun h => ifSome _ fun env => ?_
  refine Keeps.bind (modify _) fun _ => Keeps.bind currentPid fun pid => ?_
  refine Keeps.ite (fun _ => ?_) fun _ => Keeps.ite (fun _ => ?_) fun _ => ?_
  · exact Keeps.bind (abandonEnv e) fun _ => Keeps.bind (updateEnv e _) fun _ => Keeps.pure ()
  · exact Keeps.bind (abandonEnv e) fun _ => updateEnv e _
  · refine Keeps.bind (runGuarded (native _) (poisonEnv e)) fun result => ?_
    exact Keeps.bind (updateEnv e _) fun _ => whenever fun h => absurd h (by simp)

theorem tearDown (t : TxnRef) (txn : TxnPtr) : Unstopped (Mdbx.tearDown L t txn) := by
  refine Keeps.bind (runGuarded (native _) (poisonTxn t)) fun r => ?_
  split
  · exact Keeps.pure _
  · exact Keeps.pure _

theorem detachEach (usable : Bool) (entries : List TxnRef) :
    Unstopped (Mdbx.detachEach L usable entries) := by
  induction entries with
  | nil => exact Keeps.pure ()
  | cons t rest ih =>
    refine Keeps.bind (derefTxn t) fun k => Keeps.bind ?_ fun ended => ?_
    · rw [detachAbort]
      split
      · exact Keeps.ite (fun _ => tearDown _ _) fun _ => Keeps.pure _
      · exact Keeps.pure _
    · exact Keeps.bind (whenever fun _ => abandon _) fun _ => Keeps.bind (updateTxn t _) fun _ => ih

theorem detachTxns (e : EnvRef) : Unstopped (Mdbx.detachTxns L e) :=
  Keeps.bind (derefEnv e) fun _ => Keeps.bind currentPid fun _ =>
    Keeps.bind (detachEach _ _) fun _ => updateEnv e _

theorem finalizeEnv (x : ℕ) : Unstopped (Mdbx.finalizeEnv L x) := by
  refine Keeps.bind get fun w => ifSome _ fun s => ifSome _ fun e => ?_
  refine Keeps.bind (modify _) fun _ => Keeps.bind (detachTxns e) fun _ => ?_
  exact Keeps.bind (closeHandle e) fun _ => Keeps.bind (derefEnv e) fun _ => modify _

theorem finalizeTxn (x : ℕ) : Unstopped (Mdbx.finalizeTxn L x) := by
  refine Keeps.bind get fun w => ifSome _ fun s => ifSome _ fun t => ?_
  refine Keeps.bind (modify _) fun _ => Keeps.bind (derefTxn t) fun k => Keeps.bind ?_ fun _ =>
    Keeps.bind (derefTxn t) fun _ => modify _
  rw [finalizeHandle]
  split
  · refine Keeps.bind ?_ fun ended => Keeps.bind (whenever fun _ => abandon _) fun _ =>
      markFinished _ _
    rw [finalizeAbort]
    split
    · exact Keeps.bind (derefEnv _) fun _ => Keeps.bind currentPid fun _ =>
        Keeps.ite (fun _ => tearDown _ _) fun _ => Keeps.pure _
    · exact Keeps.pure _
  · exact unregisterTxn _

theorem finalizeAll (objects : List Object) : Unstopped (Mdbx.finalizeAll L objects) := by
  induction objects with
  | nil => exact Keeps.pure ()
  | cons object rest ih =>
    refine Keeps.bind ?_ fun _ => ih
    cases object with
    | env x => exact finalizeEnv x
    | txn x => exact finalizeTxn x

/-- An allocation jumps if it fails. -/
theorem allocate (keep : List Object) : Unstopped (Mdbx.allocate L keep) := by
  refine Keeps.bind get fun w => Keeps.bind (modify _) fun _ => ?_
  exact Keeps.bind (finalizeAll _) fun _ => whenever fun _ => exit (by simp [IsStop])

theorem newEnvSexp (e : EnvRef) (path : String) (readonly subdir : Bool) :
    Unstopped (Mdbx.newEnvSexp L e path readonly subdir) := by
  refine Keeps.bind (allocate _) fun _ => Keeps.bind (allocate _) fun _ => ?_
  exact Keeps.bind (modify _) fun _ => Keeps.bind (allocate _) fun _ => Keeps.pure _

theorem newTxnSexp (t : TxnRef) (k : TxnHandle) (owner : EnvRef) (x : ℕ) (write : Bool) :
    Unstopped (Mdbx.newTxnSexp L t k owner x write) := by
  refine Keeps.bind (allocate _) fun _ => Keeps.bind (allocate _) fun _ => ?_
  refine Keeps.bind get fun w => ?_
  refine Keeps.bind (modify _) fun _ => Keeps.bind (updateEnv _ _) fun _ => ?_
  exact Keeps.bind (allocate _) fun _ => Keeps.pure _

end Unstopped

/-! ### What failures leave -/

/-- The handle but for its poison and for the heap roots that it remembers. -/
def EnvHandle.bare (h : EnvHandle) : EnvHandle :=
  { h with poisoned := false, heapRoots := (none, none) }

/-- The handle but for its poison and for the databases that it has resolved. -/
def TxnHandle.bare (k : TxnHandle) : TxnHandle :=
  { k with poisoned := false, dbi := 0, mainDbi := 0, mainReady := false, named := [] }

/-- The registries, the counters, the objects and the handles of `w` stand in `w'`. -/
structure Intact (w w' : World σ) : Prop where
  pid : w'.pid = w.pid
  envs : ∀ e, (w'.envs e).map EnvHandle.bare = (w.envs e).map EnvHandle.bare
  txns : ∀ t, (w'.txns t).map TxnHandle.bare = (w.txns t).map TxnHandle.bare
  envSexps : w'.envSexps = w.envSexps
  txnSexps : w'.txnSexps = w.txnSexps
  openEnvs : w'.openEnvs = w.openEnvs
  liveEnvHandles : w'.liveEnvHandles = w.liveEnvHandles
  liveTxnHandles : w'.liveTxnHandles = w.liveTxnHandles

/-- They do but for the handle `e`, which is new. -/
structure Beside (e : EnvRef) (w w' : World σ) : Prop where
  pid : w'.pid = w.pid
  envs : ∀ e' ≠ e, w'.envs e' = w.envs e'
  txns : w'.txns = w.txns
  envSexps : w'.envSexps = w.envSexps
  txnSexps : w'.txnSexps = w.txnSexps
  openEnvs : w'.openEnvs.filter (· ≠ e) = w.openEnvs.filter (· ≠ e)
  liveEnvHandles : w'.liveEnvHandles = w.liveEnvHandles
  liveTxnHandles : w'.liveTxnHandles = w.liveTxnHandles

/-- Where `m` raises a condition, the whole has stayed within `R`. -/
def Halts (R : World σ → World σ → Prop) (m : Pkg σ α) : Prop :=
  ∀ w₀ w, R w₀ w → Triple m w (fun _ _ => True) (fun x w' => IsStop x → R w₀ w')

namespace Halts

variable {R : World σ → World σ → Prop} {m : Pkg σ α} {f : α → Pkg σ β}

theorem of_unstopped (hm : Unstopped m) : Halts R m := fun _ w _ =>
  (hm w trivial trivial).mono (fun _ _ _ => trivial) fun _ _ h hstop => absurd hstop h.2

theorem of_within [IsPreorder (World σ) R] (hm : Within R m) : Halts R m := fun _ w h =>
  (Triple.of_final (trans_of R h (hm w))).mono (fun _ _ _ => trivial) fun _ _ h _ => h

/-- What stays within `R` may come first. -/
theorem after [IsPreorder (World σ) R] (hm : Within R m) (hf : ∀ a, Halts R (f a)) :
    Halts R (m >>= f) := fun w₀ w h =>
  Triple.bind ((Triple.of_final (trans_of R h (hm w))).mono (fun _ _ h => h) fun _ _ h _ => h)
    fun a w₁ h₁ => hf a w₀ w₁ h₁

theorem ite {c : Prop} [Decidable c] {m' : Pkg σ α} (hm : Halts R m) (hm' : Halts R m') :
    Halts R (if c then m else m') := by
  split
  · exact hm
  · exact hm'

theorem map {g : α → β} (hm : Halts R m) : Halts R (g <$> m) := fun w₀ w h =>
  Triple.map (hm w₀ w h)

end Halts

/-! ### Work inside a transaction -/

section Works

instance : IsPreorder (World σ) Intact where
  refl _ := ⟨rfl, fun _ => rfl, fun _ => rfl, rfl, rfl, rfl, rfl, rfl⟩
  trans _ _ _ h h' := ⟨h'.pid.trans h.pid, fun e => (h'.envs e).trans (h.envs e),
    fun t => (h'.txns t).trans (h.txns t), h'.envSexps.trans h.envSexps,
    h'.txnSexps.trans h.txnSexps, h'.openEnvs.trans h.openEnvs,
    h'.liveEnvHandles.trans h.liveEnvHandles, h'.liveTxnHandles.trans h.liveTxnHandles⟩

theorem intact_native (c : NativeCall) : Within Intact (native L c) := by
  intro w
  rw [native_final]
  exact ⟨rfl, fun _ => rfl, fun _ => rfl, rfl, rfl, rfl, rfl, rfl⟩

theorem intact_setEnv {e : EnvRef} {h g : EnvHandle} (he : w.envs e = some h)
    (hg : g.bare = h.bare) : Intact w (w.setEnv e (some g)) := by
  refine ⟨rfl, fun e' => ?_, fun _ => rfl, rfl, rfl, rfl, rfl, rfl⟩
  by_cases hee : e' = e
  · subst hee
    simp [he, hg]
  · simp [hee]

theorem intact_updateTxn (t : TxnRef) {f : TxnHandle → TxnHandle} (hf : ∀ k, (f k).bare = k.bare) :
    Within Intact (updateTxn t f : Pkg σ Unit) := by
  refine Within.updateTxn t fun w k ht => ⟨rfl, fun _ => rfl, fun t' => ?_, rfl, rfl, rfl, rfl, rfl⟩
  by_cases htt : t' = t
  · subst htt
    simp [ht, hf]
  · simp [htt]

theorem intact_poisonEnv (e : EnvRef) : Within Intact (poisonEnv e : Pkg σ Unit) :=
  .updateEnv e fun _ _ he => intact_setEnv he rfl

theorem intact_poisonTxn (t : TxnRef) : Within Intact (poisonTxn t : Pkg σ Unit) := by
  refine Within.bind (intact_updateTxn t fun _ => rfl) fun _ => ?_
  exact (Within.derefTxn t).bind fun k => .ifSome _ fun e => intact_poisonEnv e

/-- Whatever is done between the beginning of a handle and its end. -/
theorem intact_works : L.Works Intact := by
  refine Platform.works_of intact_native (fun _ => ?_) intact_poisonEnv intact_poisonTxn
    fun t f hf => intact_updateTxn t fun k => ?_
  · exact ⟨rfl, fun _ => rfl, fun _ => rfl, rfl, rfl, rfl, rfl, rfl⟩
  · rw [hf k]
    rfl

end Works

/-! ### A begin -/

/-- All stands as it was, and no transaction has been begun. -/
structure Barren (w w' : World σ) : Prop extends Intact w w' where
  begun : ∀ pid p, Begun w'.log pid p → Begun w.log pid p

instance : IsPreorder (World σ) Barren where
  refl w := ⟨refl_of Intact w, fun _ _ => id⟩
  trans _ _ _ h h' := ⟨trans_of Intact h.toIntact h'.toIntact,
    fun pid p hp => h.begun pid p (h'.begun pid p hp)⟩

theorem Barren.called (w : World σ) (c : NativeCall) (lib : σ) (o : Outcome)
    (hc : ∀ pid p, ¬ Call.Begins ⟨w.pid, c, o⟩ pid p) : Barren w (w.called c lib o) :=
  ⟨⟨rfl, fun _ => rfl, fun _ => rfl, rfl, rfl, rfl, rfl, rfl⟩,
    fun pid p h => ((begun_cons ..).mp h).resolve_left (hc pid p)⟩

/-- A begin that libmdbx refuses has begun nothing, and past one that it grants nothing raises a
condition. -/
theorem stops_begun {txn : TxnPtr} {owner : EnvRef} {bits : ℕ} {m : Pkg σ β} (hm : Unstopped m) :
    Halts Barren (do
      let rc ← guard (beginCall L txn bits) (poisonEnv owner)
      check rc
      m) := by
  intro w₀ w h
  have hbody : (beginCall L txn bits).run w =
      (native L (.txnBegin txn bits) >>= fun reply => pure reply.rc).run w := rfl
  rcases guard_call (poisonEnv owner) _ hbody with ⟨r, hcall, hguard⟩ | ⟨info, x, hcall, hguard⟩
  · refine Triple.step hguard ?_
    by_cases hrc : r.rc = Status.success
    · rw [hrc]
      exact Triple.step check_success ((hm _ trivial trivial).mono (fun _ _ _ => trivial)
        fun _ _ h hstop => absurd hstop h.2)
    · refine Triple.stopped (check_failure hrc) fun _ => trans_of Barren h (.called w _ _ _ ?_)
      rintro pid p ⟨-, -, hsuccess⟩
      exact hrc (Outcome.returned.inj hsuccess)
  · have hpanicked : Barren w (w.answered L (.txnBegin txn bits) .panicked) := by
      refine .called w _ _ _ ?_
      rintro pid p ⟨-, -, hsuccess⟩
      cases hsuccess
    have hpoison : Within Barren (poisonEnv owner : Pkg σ Unit) :=
      .updateEnv owner fun _ _ he => ⟨intact_setEnv he rfl, fun _ _ => id⟩
    exact Triple.stopped hguard fun _ => trans_of Barren h (trans_of Barren hpanicked (hpoison _))

theorem stops_mdbxTxnBegin (x : Sexp) (write : Bool) (flags : List String) :
    Halts Barren (mdbxTxnBegin_ L x write flags) := by
  refine .after (.envFromSexp x) fun owner => .after (.derefEnv owner) fun h => ?_
  refine .after (.refuse _ _) fun _ => .after .currentPid fun pid => .after ?_ fun t => ?_
  · refine Within.get.bind fun w => Within.bind (.modify fun w => ?_) fun _ => .pure _
    exact ⟨⟨rfl, fun _ => rfl, fun _ => rfl, rfl, rfl, rfl, rfl, rfl⟩, fun _ _ => id⟩
  refine .after (.flagsFromNames _ _) fun extra => .after (.nonNull _) fun env => ?_
  exact stops_begun (Unstopped.newTxnSexp _ _ _ _ _)

/-! ### An open -/

section Opens

variable {e : EnvRef}

instance : IsPreorder (World σ) (Beside e) where
  refl _ := ⟨rfl, fun _ _ => rfl, rfl, rfl, rfl, rfl, rfl, rfl⟩
  trans _ _ _ h h' := ⟨h'.pid.trans h.pid, fun e' hne => (h'.envs e' hne).trans (h.envs e' hne),
    h'.txns.trans h.txns, h'.envSexps.trans h.envSexps, h'.txnSexps.trans h.txnSexps,
    h'.openEnvs.trans h.openEnvs, h'.liveEnvHandles.trans h.liveEnvHandles,
    h'.liveTxnHandles.trans h.liveTxnHandles⟩

theorem beside_setEnv (w : World σ) (h : Option EnvHandle) : Beside e w (w.setEnv e h) :=
  ⟨rfl, fun e' hne => by simp [hne], rfl, rfl, rfl, rfl, rfl, rfl⟩

theorem beside_native (c : NativeCall) : Within (Beside e) (native L c) := by
  intro w
  rw [native_final]
  exact ⟨rfl, fun _ _ => rfl, rfl, rfl, rfl, rfl, rfl, rfl⟩

theorem beside_updateEnv (f : EnvHandle → EnvHandle) :
    Within (Beside e) (updateEnv e f : Pkg σ Unit) :=
  .updateEnv e fun w _ _ => beside_setEnv w _

theorem beside_abandonEnv : Within (Beside e) (abandonEnv e : Pkg σ Unit) := by
  have habandon : ∀ pointer, Within (Beside e) (abandon pointer : Pkg σ Unit) := fun _ =>
    .modify fun _ => ⟨rfl, fun _ _ => rfl, rfl, rfl, rfl, rfl, rfl, rfl⟩
  exact (Within.derefEnv e).bind fun h =>
    (habandon _).bind fun _ => (habandon _).bind fun _ => habandon _

theorem beside_closeHandle : Within (Beside e) (closeHandle L e false) := by
  refine (Within.derefEnv e).bind fun h => .ifSome _ fun env => ?_
  refine Within.bind (.modify fun w => ?_) fun _ => Within.currentPid.bind fun pid => ?_
  · exact ⟨rfl, fun _ _ => rfl, rfl, rfl, rfl, by simp, rfl, rfl⟩
  refine .ite ?_ (.ite ?_ ?_)
  · exact beside_abandonEnv.bind fun _ => (beside_updateEnv _).bind fun _ => .refuse _ _
  · exact beside_abandonEnv.bind fun _ => beside_updateEnv _
  · refine (Within.runGuarded (beside_native _) (beside_updateEnv _)).bind fun result => ?_
    refine (beside_updateEnv _).bind fun _ => .whenever ?_
    split
    · exact .check _
    · exact .stop _

theorem beside_openCall (path : String) (flags maxDbs maxReaders mapSize : ℕ) (mode : ℤ) :
    Within (Beside e) (openCall L e path flags maxDbs maxReaders mapSize mode) := by
  have heach : ∀ calls, Within (Beside e) (callEach L calls) := by
    intro calls
    induction calls with
    | nil => exact .pure _
    | cons c rest ih => exact (beside_native c).bind fun reply => .ite ih (.pure _)
  refine (beside_native _).bind fun created => .ite (.pure _) ?_
  refine (beside_updateEnv _).bind fun _ => (heach _).bind fun rc => .ite (.pure _) ?_
  exact (beside_native _).bind fun _ => .pure _

theorem openHandle_stops (path key : String) (readonly : Bool)
    (flags maxDbs maxReaders mapSize : ℕ) (mode : ℤ) (w : World σ) :
    Triple (openHandle L path key readonly flags maxDbs maxReaders mapSize mode) w
      (fun _ _ => True) (fun x w' => IsStop x → Beside w.next w w') := by
  refine Triple.step currentPid_run (Triple.step (fresh_run w) ?_)
  have hdrawn : Beside w.next w { w with next := w.next + 1 } :=
    ⟨rfl, fun _ _ => rfl, rfl, rfl, rfl, rfl, rfl, rfl⟩
  have hdelete : ∀ c : Condition, Halts (Beside w.next) (do
      Prog.modify fun w' => w'.setEnv w.next none
      stop c : Pkg σ Sexp) := fun c =>
    .of_within (Within.bind (.modify fun w' => beside_setEnv w' _) fun _ => .stop _)
  refine Halts.after (R := Beside w.next) (.modify fun w' => beside_setEnv w' _) (fun _ => ?_) w _
    hdrawn
  refine .after (.runGuarded (beside_openCall _ _ _ _ _ _) (beside_updateEnv _)) fun result => ?_
  split
  · exact .after beside_abandonEnv fun _ => hdelete _
  · refine .ite (.after beside_closeHandle fun _ => hdelete _) ?_
    refine .of_unstopped (Keeps.bind (Unstopped.updateEnv _ _) fun _ => ?_)
    refine Keeps.bind (Unstopped.recordHeapRoots _) fun _ => ?_
    refine Keeps.bind (Unstopped.newEnvSexp _ _ _ _) fun x => ?_
    exact Keeps.bind (Unstopped.modify _) fun _ => Keeps.pure _

/-- An open that raises a condition leaves all as it was, for its new handle is deleted. -/
theorem mdbxEnvOpen_stops (I : Inv { lossy := true } w) (path key : String)
    (readonly subdir : Bool) (maxDbs mapSize maxReaders : Double) (mode : ℤ)
    (extraFlags : List String) :
    Triple (mdbxEnvOpen_ L path key readonly subdir maxDbs mapSize maxReaders mode extraFlags) w
      (fun _ _ => True) (fun x w' => IsStop x → Intact w w') := by
  rcases mdbxEnvOpen_cases L I.graph path key readonly subdir maxDbs mapSize maxReaders mode
    extraFlags with
    ⟨-, c, -, hr⟩ | ⟨-, ⟨e, -, -, other, hr⟩ | ⟨hfree, flags, dbs, readers, map, hr⟩⟩
  · exact Triple.error hr fun _ => refl_of Intact w
  · exact Triple.error hr fun _ => refl_of Intact w
  have S₀ : Sound (fun _ => True) w { lossy := true } w := I.sound
  have hspec :=
    openHandle_spec L (by simp) S₀ trivial hfree path readonly flags dbs readers map mode
  refine Triple.congr hr (((openHandle_stops path key readonly flags dbs readers map mode w).and
    hspec).mono (fun _ _ _ => trivial) fun x w' h hstop => ?_)
  obtain ⟨hbeside, S, -, hunlisted, hdeleted, -⟩ := h
  have B := hbeside hstop
  have hnone := I.fresh.env_none le_rfl
  have hfilter : ∀ {u : World σ}, w.next ∉ u.openEnvs →
      u.openEnvs.filter (· ≠ w.next) = u.openEnvs :=
    fun hu => List.filter_eq_self.mpr fun e' hmem => decide_eq_true fun heq => hu (heq ▸ hmem)
  refine ⟨B.pid, fun e => ?_, fun t => by rw [B.txns], B.envSexps, B.txnSexps, ?_, B.liveEnvHandles,
    B.liveTxnHandles⟩
  · by_cases hee : e = w.next
    · rw [hee, hdeleted hstop, hnone]
    · rw [B.envs e hee]
  · rw [← hfilter hunlisted, B.openEnvs, hfilter (S₀.unlisted hnone)]

end Opens

/-! ### Every request -/

/-- Whether an entry point ends a transaction or closes an environment. -/
def Command.ends : Command → Bool
  | envClose _ | txnCommit _ | txnAbort _ => true
  | _ => false

theorem Command.stops (I : Inv { lossy := true } w) {command : Command}
    (hends : command.ends = false) :
    Triple (command.run L) w (fun _ _ => True) (fun x w' => IsStop x → Intact w w') := by
  by_cases hworks : command.works = true
  · exact Halts.of_within (intact_works.command hworks) w w (refl_of Intact w)
  cases command with
  | envOpen => exact Triple.map (mdbxEnvOpen_stops I _ _ _ _ _ _ _ _ _)
  | txnBegin => exact Triple.map ((stops_mdbxTxnBegin _ _ _ w w (refl_of Barren w)).mono
      (fun _ _ _ => trivial) fun _ _ h hstop => (h hstop).toIntact)
  | envClose | txnCommit | txnAbort => cases hends
  | _ => exact absurd rfl hworks

/-- An environment that libmdbx has still open after a failure was open before, is kept in
`abandoned`, or went with a close that panicked. -/
theorem Intact.leaves (h : Intact w w') (I : Inv { lossy := true } w)
    (I' : Inv { lossy := true } w') {pid : Pid} {e : EnvPtr} (hcreated : Created w'.log pid e)
    (hopen : ¬ Closed w'.log e) :
    (∃ pid', Created w.log pid' e) ∨ .env e ∈ w'.abandoned ∨ ClosePanicked w'.log e := by
  by_cases hpanicked : ClosePanicked w'.log e
  · exact .inr (.inr hpanicked)
  rcases I'.conserved.envKept hcreated hopen hpanicked with ⟨g, hg, henv⟩ | hmem
  · have hbare := h.envs e
    rw [hg] at hbare
    obtain ⟨h₀, he₀, hsame⟩ := Option.map_eq_some_iff.mp hbare.symm
    have henv₀ : h₀.env = some e := (congrArg EnvHandle.env hsame).trans henv
    exact .inl ⟨h₀.pid, I.traced.created he₀ henv₀⟩
  · exact .inr (.inl hmem)

/-- A request that raises a condition, short of ending a transaction or closing an environment,
leaves the registries, the counters, the objects and the handles as they were.  An environment that
it has left open natively was open before, is kept in `abandoned` or went with a close that
panicked, and a begin has left no transaction. -/
theorem Reachable.failures (hr : Reachable L w) {command : Command} (hends : command.ends = false)
    {c : Condition} (hrun : (command.run L).run w = (.error (.stop c), w')) :
    Intact w w' ∧
    (∀ pid e, Created w'.log pid e → ¬ Closed w'.log e →
      (∃ pid', Created w.log pid' e) ∨ .env e ∈ w'.abandoned ∨ ClosePanicked w'.log e) ∧
    ∀ env write flags, command = .txnBegin env write flags →
      ∀ pid p, Begun w'.log pid p → Begun w.log pid p := by
  have hr' := hr.entry command
  rw [hrun] at hr'
  have I : Inv { lossy := true } w := hr.invariant (by simp)
  have I' : Inv { lossy := true } w' := hr'.invariant (by simp)
  have hintact := Command.stops (L := L) I hends
  rw [Triple, hrun] at hintact
  have hintact := hintact ⟨c, rfl⟩
  refine ⟨hintact, fun pid e hcreated hopen => hintact.leaves I I' hcreated hopen, ?_⟩
  rintro env write flags rfl
  have hbarren := (stops_mdbxTxnBegin (L := L) env write flags).map (g := Answer.object) w w
    (refl_of Barren w)
  have hstopped : (Answer.object <$> mdbxTxnBegin_ L env write flags).run w =
      (.error (.stop c), w') := hrun
  rw [Triple, hstopped] at hbarren
  exact (hbarren ⟨c, rfl⟩).begun

/-- A library that opens one environment only. -/
abbrev opensOne : Platform Unit := .scripted fun
  | .envOpen e _ _ _ => some (if e = 0 then Status.success else Status.eaccess)
  | _ => some Status.success

/-- A second environment that cannot be opened next to one with a transaction. -/
def openOther : Command :=
  .envOpen "other" "other" false true (.ofNat 0) (.ofNat 0) (.ofNat 0) 0 []

def openedOne : World Unit := (World.start () 1).after opensOne openAndBegin

/-- A program that is found to raise a condition. -/
theorem exists_stop {m : Pkg σ α} (h : (match (m.run w).1 with
    | .error (.stop _) => true
    | _ => false) = true) : ∃ c, m.run w = (.error (.stop c), (m.run w).2) := by
  rcases hr : m.run w with ⟨x | a, w'⟩
  · rw [hr] at h
    cases x with
    | stop c => exact ⟨c, rfl⟩
    | _ => cases h
  · rw [hr] at h
    cases h

/-- It leaves the first and its transaction as they were, and its own is closed. -/
theorem Reachable.failures_openOther :
    ∃ c w', (openOther.run opensOne).run openedOne = (.error (.stop c), w') ∧ w'.openEnvs = [0] ∧
      (w'.envs 0).map EnvHandle.liveTxns = some [1] ∧ Closed w'.log 2 := by
  have hr : Reachable opensOne openedOne := ⟨_, 1, World.after_steps ⟨trivial, trivial, trivial⟩⟩
  obtain ⟨c, hrun⟩ := exists_stop (m := openOther.run opensOne) (w := openedOne)
    (by decide +kernel)
  obtain ⟨hintact, hleaves, -⟩ := Reachable.failures hr (by rfl) hrun
  refine ⟨c, _, hrun, hintact.openEnvs.trans (by decide +kernel), ?_, ?_⟩
  · have hbare := congrArg (Option.map EnvHandle.liveTxns) (hintact.envs 0)
    rw [Option.map_map, Option.map_map] at hbare
    exact hbare.trans (by decide +kernel)
  · by_contra hopen
    have hcreated : (⟨1, .envCreate 2, .returned Status.success⟩ : Call) ∈
        ((openOther.run opensOne).run openedOne).2.log := by decide +kernel
    have hfirst : ∀ c ∈ openedOne.log, c.call ≠ .envCreate 2 := by decide +kernel
    have habandoned : ((openOther.run opensOne).run openedOne).2.abandoned = [] := by
      decide +kernel
    have hcalm : ∀ c ∈ ((openOther.run opensOne).run openedOne).2.log, c.outcome ≠ .panicked := by
      decide +kernel
    rcases hleaves 1 2 ⟨_, hcreated, rfl, rfl, rfl⟩ hopen with
      ⟨pid, c', hc', -, hcall, -⟩ | hmem | ⟨c', hc', -, ho⟩
    · exact hfirst c' hc' hcall
    · rw [habandoned] at hmem
      cases hmem
    · exact hcalm c' hc' ho

end Mdbx
