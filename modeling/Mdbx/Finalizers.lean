import Mdbx.Conservation
import Mathlib.Data.List.Perm.Basic

/-! The finalizers of objects that die together: what a collection leaves depends on the set of its
objects and not on the order in which R runs their finalizers. -/

namespace Mdbx

open ProofKit

variable {σ : Type} {w w' : World σ} {panics : TxnPtr → Bool}

/-! ### What a world says about a collection -/

/-- How often a finalizer has asked for an abort of `p`. -/
def abortsOf (p : TxnPtr) (log : List Call) : ℕ := callsOf (.txnAbort p .teardown) log

def closesOf (e : EnvPtr) (log : List Call) : ℕ := callsOf (.envClose e) log

def Object.isEnv : Object → Bool
  | env _ => true
  | txn _ => false

namespace World

/-- The finalizer of the object has not run yet. -/
def addresses (w : World σ) : Object → Bool
  | .env x => ((w.envSexps x).bind EnvSexp.addr).isSome
  | .txn x => ((w.txnSexps x).bind TxnSexp.addr).isSome

/-- The finalizers of `objects` delete the handle of `object`. -/
def dies (w : World σ) (objects : List Object) (object : Object) : Bool :=
  w.addresses object && decide (object ∈ objects)

def live (w : World σ) (p : TxnPtr) : Bool := (w.txns p.id).bind TxnHandle.owner == some p.env

/-- The environment is open. -/
def isOpen (w : World σ) (e : EnvRef) : Bool := (w.envs e).any (·.env.isSome)

/-- This process may hand the environment to libmdbx. -/
def usable (w : World σ) (e : EnvRef) : Bool :=
  (w.envs e).any fun h => !h.poisoned && h.pid == w.pid

/-- The finalizers of `objects` end the transaction. -/
def ends (w : World σ) (objects : List Object) (p : TxnPtr) : Bool :=
  w.live p && (w.dies objects (.txn p.id) || w.dies objects (.env p.env))

/-- A finalizer that ends the transaction keeps it in `abandoned`. -/
def txnLost (w : World σ) (panics : TxnPtr → Bool) (p : TxnPtr) : Bool :=
  !w.usable p.env || panics p

/-- A finalizer that ends the environment keeps it in `abandoned`. -/
def envLost (w : World σ) (panics : TxnPtr → Bool) (e : EnvRef) : Bool :=
  !w.usable e || (w.envs e).any fun h => h.liveTxns.any fun t => panics ⟨e, t⟩

/-- The `heap_roots` that a finalizer of the object keeps in `abandoned`. -/
def rootsLost (w : World σ) (panics : TxnPtr → Bool) : Object → List Abandoned
  | .env e => if w.addresses (.env e) && w.isOpen e && w.envLost panics e
      then ((w.envs e).map EnvHandle.roots).getD [] else []
  | .txn _ => []

end World

theorem Graph.live_iff (G : Graph w) {e : EnvRef} {h : EnvHandle} (he : w.envs e = some h)
    (t : TxnRef) :
    w.live ⟨e, t⟩ = true ↔ t ∈ h.liveTxns := by
  rw [G.live he, World.live, beq_iff_eq, Option.bind_eq_some_iff]

theorem LiveTxn.live {e : EnvRef} {t : TxnRef} {k : TxnHandle} (ht : LiveTxn w e t k) :
    w.live ⟨e, t⟩ = true := by
  simp [World.live, ht.at_, ht.owner]

theorem World.live_iff {p : TxnPtr} : w.live p = true ↔ ∃ k, LiveTxn w p.env p.id k := by
  rw [live, beq_iff_eq, Option.bind_eq_some_iff]
  exact ⟨fun ⟨k, hk, ho⟩ => ⟨k, hk, ho⟩, fun ⟨k, hk⟩ => ⟨k, hk.at_, hk.owner⟩⟩

/-! ### One environment's transaction -/

/-- The live transaction of the environment `e`, if there is one, has been ended by a finalizer. -/
structure Cleared (panics : TxnPtr → Bool) (e : EnvRef) (h : EnvHandle) (w w' : World σ) :
    Prop where
  pid : w'.pid = w.pid
  envSexps : w'.envSexps = w.envSexps
  txnSexps : w'.txnSexps = w.txnSexps
  openEnvs : w'.openEnvs = w.openEnvs
  liveEnvHandles : w'.liveEnvHandles = w.liveEnvHandles
  liveTxnHandles : w'.liveTxnHandles = w.liveTxnHandles
  txns : ∀ t, w'.txns t = none ↔ w.txns t = none
  live : ∀ p, w'.live p = (w.live p && p.env != e)
  envs : ∀ e' ≠ e, w'.envs e' = w.envs e'
  env : ∃ h', w'.envs e = some h' ∧ h'.env = h.env ∧ h'.liveTxns = [] ∧
    (w'.usable e = !w.envLost panics e) ∧ (w'.usable e = false → h'.heapRoots = h.heapRoots)
  log : w.log <:+ w'.log
  aborts : ∀ p, abortsOf p w'.log
    = abortsOf p w.log + (w.live p && p.env == e && w.usable p.env).toNat
  closes : ∀ e', closesOf e' w'.log = closesOf e' w.log
  txnsKept : ∀ p, w'.abandoned.count (.txn p)
    = w.abandoned.count (.txn p) + (w.live p && p.env == e && w.txnLost panics p).toNat
  kept : ∀ a, (∀ p, a ≠ .txn p) → w'.abandoned.count a = w.abandoned.count a

theorem Graph.cleared_none (G : Graph w) {e : EnvRef} {h : EnvHandle} (he : w.envs e = some h)
    (hlive : h.liveTxns = []) : Cleared panics e h w w := by
  have hno : ∀ p : TxnPtr, p.env = e → w.live p = false := by
    rintro ⟨_, t⟩ rfl
    rw [Bool.eq_false_iff, ne_eq, G.live_iff he, hlive]
    exact List.not_mem_nil
  have hnone : ∀ p, (w.live p && p.env == e) = false := by
    intro p
    by_cases hp : p.env = e <;> simp [hp, hno p]
  refine
    { pid := rfl, envSexps := rfl, txnSexps := rfl, openEnvs := rfl, liveEnvHandles := rfl
      liveTxnHandles := rfl, txns := fun _ => Iff.rfl, live := ?_, envs := fun _ _ => rfl
      env := ⟨h, he, rfl, hlive, by simp [World.envLost, he, hlive], fun _ => rfl⟩
      log := List.suffix_rfl, aborts := by simp [hnone], closes := fun _ => rfl
      txnsKept := by simp [hnone], kept := fun _ _ => rfl }
  intro p
  by_cases hp : p.env = e <;> simp [hp, hno p]

section Calls

variable (past : List Call) (pid : Pid) (o : Outcome) (c : NativeCall) (p q : TxnPtr)
  (e e' : EnvPtr)

@[simp] theorem abortsOf_abort : abortsOf q (⟨pid, .txnAbort p .teardown, o⟩ :: past)
    = abortsOf q past + (p == q).toNat := by
  by_cases hpq : p = q <;> simp [abortsOf, callsOf, hpq]

@[simp] theorem closesOf_close : closesOf e' (⟨pid, .envClose e, o⟩ :: past)
    = closesOf e' past + (e == e').toNat := by
  by_cases he : e = e' <;> simp [closesOf, callsOf, he]

@[simp] theorem abortsOf_close :
    abortsOf p (⟨pid, .envClose e, o⟩ :: past) = abortsOf p past := by
  simp [abortsOf, callsOf]

@[simp] theorem closesOf_abort :
    closesOf e (⟨pid, .txnAbort p .teardown, o⟩ :: past) = closesOf e past := by
  simp [closesOf, callsOf]

@[simp] theorem abortsOf_heapRoots :
    abortsOf p (⟨pid, .envHeapRoots e, o⟩ :: past) = abortsOf p past := by
  simp [abortsOf, callsOf]

@[simp] theorem closesOf_heapRoots :
    closesOf e' (⟨pid, .envHeapRoots e, o⟩ :: past) = closesOf e' past := by
  simp [closesOf, callsOf]

theorem abortsOf_mono {past log : List Call} (h : past <:+ log) :
    abortsOf p past ≤ abortsOf p log :=
  h.sublist.countP_le

theorem closesOf_mono {past log : List Call} (h : past <:+ log) :
    closesOf e past ≤ closesOf e log :=
  h.sublist.countP_le

end Calls

/-- Whether an abort made by a finalizer panics is settled by the transaction. -/
def Platform.AbortsBy (L : Platform σ) (panics : TxnPtr → Bool) : Prop :=
  ∀ p s, (L.call (.txnAbort p .teardown) s).1.isOk = !panics p

section Parted

variable {L : Platform σ} {e : EnvRef} {h h₁ : EnvHandle} {t : TxnRef} {k k₁ : TxnHandle}
  {w₁ : World σ}

theorem World.usable_eq (he : w.envs e = some h) :
    w.usable e = (!h.poisoned && h.pid == w.pid) := by
  simp [usable, he]

theorem Parted.trace (hp : L.AbortsBy panics) (he : w.envs e = some h)
    (P : Parted L e h t k w w₁ h₁ k₁) :
    (∃ o, w₁.log = if w.usable e then ⟨w.pid, .txnAbort ⟨e, t⟩ .teardown, o⟩ :: w.log else w.log) ∧
      w₁.abandoned = w.abandoned ++ (if w.txnLost panics ⟨e, t⟩ then [.txn ⟨e, t⟩] else []) ∧
      (!h₁.poisoned && h₁.pid == w.pid) = !w.txnLost panics ⟨e, t⟩ := by
  have husable := World.usable_eq he
  cases P with
  | aborted lib rc hhealthy hk hpid hcall =>
    obtain ⟨r, hr⟩ := hcall
    have hreturns : panics ⟨e, t⟩ = false := by
      have := hp ⟨e, t⟩ w.lib
      simpa [hr, Except.isOk, Except.toBool] using this.symm
    have hu : w.usable e = true := by simp [husable, hhealthy, hpid]
    exact ⟨⟨.returned rc, by simp [hu]⟩, by simp [World.txnLost, hu, hreturns],
      by simp [World.txnLost, hu, hreturns, hhealthy, hpid]⟩
  | panicked lib hhealthy hk hpid w₂ hw₂ hcall =>
    obtain ⟨info, hinfo⟩ := hcall
    have hpanics : panics ⟨e, t⟩ = true := by
      have := hp ⟨e, t⟩ w.lib
      simpa [hinfo, Except.isOk, Except.toBool] using this.symm
    have hu : w.usable e = true := by simp [husable, hhealthy, hpid]
    subst hw₂
    exact ⟨⟨.panicked, by simp [hu]⟩, by simp [World.txnLost, hpanics],
      by simp [World.txnLost, hpanics]⟩
  | givenUp hunusable =>
    have hu : w.usable e = false := by
      rw [husable]
      rcases hunusable with h | h <;> simp [h]
    exact ⟨⟨.panicked, by simp [hu]⟩, by simp [World.txnLost, hu],
      by rw [← husable, hu]; simp [World.txnLost, hu]⟩

theorem Parted.frame (P : Parted L e h t k w w₁ h₁ k₁) :
    w₁.pid = w.pid ∧ w₁.openEnvs = w.openEnvs ∧ w₁.liveEnvHandles = w.liveEnvHandles ∧
      w₁.liveTxnHandles = w.liveTxnHandles ∧ h₁.env = h.env ∧ h₁.pid = h.pid ∧
      h₁.heapRoots = h.heapRoots ∧ ∀ t' ≠ t, w₁.txns t' = w.txns t' := by
  cases P with
  | aborted | givenUp => exact ⟨rfl, rfl, rfl, rfl, rfl, rfl, rfl, fun _ _ => rfl⟩
  | panicked lib hhealthy hk hpid w₂ hw₂ =>
    subst hw₂
    exact ⟨rfl, rfl, rfl, rfl, rfl, rfl, rfl, fun t' ht' => by simp [ht']⟩

theorem Refreshed.trace {w₂ : World σ} (R : Refreshed e h₁ w₁ w₂) (he₁ : w₁.envs e = some h₁) :
    (∀ p, abortsOf p w₂.log = abortsOf p w₁.log) ∧ (∀ e', closesOf e' w₂.log = closesOf e' w₁.log) ∧
      w₁.log <:+ w₂.log ∧ w₂.liveEnvHandles = w₁.liveEnvHandles ∧
      w₂.liveTxnHandles = w₁.liveTxnHandles ∧
      ∃ roots, w₂.envs e = some { h₁ with heapRoots := roots } ∧
        ((!h₁.poisoned && h₁.pid == w₁.pid) = false → roots = h₁.heapRoots) := by
  cases R with
  | same =>
    exact ⟨fun _ => rfl, fun _ => rfl, List.suffix_rfl, rfl, rfl, h₁.heapRoots, he₁, fun _ => rfl⟩
  | asked lib rc roots henv hhealthy hpid =>
    refine ⟨by simp, by simp, by simp, rfl, rfl, roots, by simp, fun hno => ?_⟩
    simp [hhealthy, hpid] at hno

/-- However a live transaction is parted with, its environment is cleared of it. -/
theorem Parted.cleared {w₂ : World σ} {h₂ : EnvHandle} (hp : L.AbortsBy panics) (G : Graph w)
    (he : w.envs e = some h) (ht : LiveTxn w e t k) (P : Parted L e h t k w w₁ h₁ k₁)
    (R : Refreshed e h₁ w₁ w₂) (he₂ : w₂.envs e = some h₂) :
    Cleared panics e h w (w₂.detached t k₁ e h₂ .aborted) := by
  obtain ⟨⟨o, hlog⟩, habandoned, hafter⟩ := P.trace hp he
  obtain ⟨hpid, hopen, hcount, hcount', henv₁, hpid₁, hroots, htxns⟩ := P.frame
  obtain ⟨haborts, hcloses, hsuffix, hcount₂, hcount₂', roots, he₂', hkeep⟩ := R.trace (P.env he)
  obtain rfl : h₂ = { h₁ with heapRoots := roots } := Option.some.inj (he₂ ▸ he₂')
  have honly : ∀ t', w.live ⟨e, t'⟩ = true → t' = t := by
    intro t' hlive
    rw [G.live_iff he, G.liveTxns_eq ht.at_ ht.owner he] at hlive
    exact List.mem_singleton.mp hlive
  have hlives : ∀ p : TxnPtr, (w.live p && p.env == e) = (⟨e, t⟩ == p) := by
    intro p
    rw [Bool.eq_iff_iff, Bool.and_eq_true, beq_iff_eq, beq_iff_eq]
    constructor
    · rintro ⟨hlive, rfl⟩
      rw [← honly _ hlive]
    · rintro rfl
      exact ⟨ht.live, rfl⟩
  have hlost : w.envLost panics e = w.txnLost panics ⟨e, t⟩ := by
    simp [World.envLost, World.txnLost, he, G.liveTxns_eq ht.at_ ht.owner he]
  have husable : (w₂.detached t k₁ e { h₁ with heapRoots := roots } .aborted).usable e
      = !w.envLost panics e := by
    rw [hlost, ← hafter]
    simp [World.detached, World.usable, R.pid, hpid]
  refine
    { pid := R.pid.trans hpid, envSexps := R.sexps.1.trans P.envSexps
      txnSexps := R.sexps.2.trans P.txnSexps, openEnvs := R.openEnvs.trans hopen
      liveEnvHandles := hcount₂.trans hcount, liveTxnHandles := hcount₂'.trans hcount'
      txns := ?_, live := ?_, envs := ?_, env := ?_, log := ?_, aborts := ?_, closes := ?_
      txnsKept := ?_, kept := ?_ }
  · intro t'
    by_cases ht' : t' = t
    · simp [World.detached, ht', ht.at_]
    · simp [World.detached, ht', R.txns, htxns t' ht']
  · intro p
    by_cases hid : p.id = t
    · have hended :
          (w₂.detached t k₁ e { h₁ with heapRoots := roots } .aborted).live p = false := by
        simp [World.detached, World.live, hid, TxnHandle.finished]
      rw [hended]
      by_cases henv : p.env = e
      · simp [henv]
      · have : w.live p = false := by
          simp [World.live, hid, ht.at_, ht.owner, Ne.symm henv]
        simp [this]
    · have hsame : (w₂.detached t k₁ e { h₁ with heapRoots := roots } .aborted).live p
          = w.live p := by
        simp [World.detached, World.live, hid, R.txns, htxns _ hid]
      rw [hsame]
      by_cases henv : p.env = e
      · subst henv
        have : w.live p = false := by
          rw [Bool.eq_false_iff]
          exact fun hlive => hid (honly p.id hlive)
        simp [this]
      · simp [henv]
  · intro e' hne
    simp [World.detached, hne, R.envs_ne hne, P.envs_ne hne]
  · refine ⟨{ h₁ with heapRoots := roots, liveTxns := [] }, by simp [World.detached], henv₁, rfl,
      husable, fun hno => ?_⟩
    rw [husable, hlost, ← hafter, ← hpid] at hno
    exact (hkeep hno).trans hroots
  · refine List.IsSuffix.trans ?_ hsuffix
    rw [hlog]
    split <;> simp
  · intro p
    simp only [World.detached, World.setEnv_log, World.setTxn_log]
    rw [haborts, hlog, hlives]
    by_cases hp : (⟨e, t⟩ : TxnPtr) = p
    · subst hp
      cases w.usable e <;> simp
    · cases w.usable e <;> simp [beq_eq_false_iff_ne.mpr hp]
  · intro e'
    simp only [World.detached, World.setEnv_log, World.setTxn_log]
    rw [hcloses, hlog]
    split <;> simp
  · intro p
    simp only [World.detached, World.setEnv_abandoned, World.setTxn_abandoned]
    rw [R.abandoned, habandoned, List.count_append, hlives]
    by_cases hp : (⟨e, t⟩ : TxnPtr) = p
    · subst hp
      cases w.txnLost panics ⟨e, t⟩ <;> simp
    · cases w.txnLost panics ⟨e, t⟩ <;> simp [hp, beq_eq_false_iff_ne.mpr hp]
  · intro a ha
    simp only [World.detached, World.setEnv_abandoned, World.setTxn_abandoned]
    rw [R.abandoned, habandoned, List.count_append]
    split <;> simp [Ne.symm (ha ⟨e, t⟩)]

end Parted

/-- The environment of a handle without transactions has been shut by its finalizer. -/
structure Dismissed (e : EnvRef) (h : EnvHandle) (w w' : World σ) : Prop where
  pid : w'.pid = w.pid
  envSexps : w'.envSexps = w.envSexps
  txnSexps : w'.txnSexps = w.txnSexps
  liveEnvHandles : w'.liveEnvHandles = w.liveEnvHandles
  liveTxnHandles : w'.liveTxnHandles = w.liveTxnHandles
  txns : w'.txns = w.txns
  envs : ∀ e' ≠ e, w'.envs e' = w.envs e'
  env : ∃ h', w'.envs e = some h'
  openEnvs : w'.openEnvs = w.openEnvs.filter (· ≠ e)
  log : ∃ o, w'.log
    = if h.env.isSome && w.usable e then ⟨w.pid, .envClose e, o⟩ :: w.log else w.log
  abandoned : w'.abandoned
    = w.abandoned ++ if h.env.isSome && !w.usable e then .env e :: h.roots else []

theorem closeHandle_dismissed (L : Platform σ) (G : Graph w) {e : EnvRef} {h : EnvHandle}
    (he : w.envs e = some h) :
    ∃ w', (closeHandle L e false).run w = (.ok (), w') ∧ Dismissed e h w w' := by
  cases henv : h.env with
  | none =>
    refine ⟨w, closeHandle_detached L he henv false,
      { pid := rfl, envSexps := rfl, txnSexps := rfl, liveEnvHandles := rfl, liveTxnHandles := rfl
        txns := rfl, envs := fun _ _ => rfl, env := ⟨h, he⟩, openEnvs := ?_
        log := ⟨.panicked, by simp [henv]⟩, abandoned := by simp [henv] }⟩
    refine (List.filter_eq_self.mpr fun e' hopen => ?_).symm
    rw [decide_eq_true_eq]
    rintro rfl
    obtain ⟨h', he', henv'⟩ := G.openHandle hopen
    rw [he] at he'
    cases he'
    simp [henv] at henv'
  | some p =>
    obtain rfl := G.env he henv
    obtain ⟨r, w', hrun, hshut, hr⟩ := closeHandle_run L he henv false
    obtain rfl : r = .ok () := by simpa using hr
    refine ⟨w', hrun, ?_⟩
    have husable := World.usable_eq he
    cases hshut with
    | givenUp hunusable =>
      have hu : w.usable p = false := by
        rw [husable]
        rcases hunusable with h | h <;> simp [h]
      exact
        { pid := rfl, envSexps := rfl, txnSexps := rfl, liveEnvHandles := rfl, liveTxnHandles := rfl
          txns := rfl, envs := fun e' hne => by simp [World.givenUpEnv, hne]
          env := ⟨{ h with env := none }, by simp [World.givenUpEnv]⟩, openEnvs := rfl
          log := ⟨.panicked, by simp [hu, World.givenUpEnv]⟩
          abandoned := by simp [hu, henv, World.givenUpEnv] }
    | closed lib o hhealthy hpid =>
      have hu : w.usable p = true := by simp [husable, hhealthy, hpid]
      exact
        { pid := rfl, envSexps := rfl, txnSexps := rfl, liveEnvHandles := rfl, liveTxnHandles := rfl
          txns := rfl, envs := fun e' hne => by simp [World.closedEnv, hne]
          env := ⟨{ h with env := none, poisoned := o = .panicked }, by simp [World.closedEnv]⟩
          openEnvs := rfl, log := ⟨o, by simp [hu, henv, World.closedEnv]⟩
          abandoned := by simp [hu, World.closedEnv] }

/-! ### One collection -/

/-- What the finalizers of `objects` make of the world `w`. -/
structure Collected (panics : TxnPtr → Bool) (w : World σ) (objects : List Object) (w' : World σ) :
    Prop where
  pid : w'.pid = w.pid
  addresses : ∀ o, w'.addresses o = (w.addresses o && decide (o ∉ objects))
  envs : ∀ e, w'.envs e = none ↔ w.envs e = none ∨ w.dies objects (.env e) = true
  txns : ∀ t, w'.txns t = none ↔ w.txns t = none ∨ w.dies objects (.txn t) = true
  live : ∀ p, w'.live p = (w.live p && !w.ends objects p)
  usable : ∀ e, w'.usable e = true ↔ w.usable e = true ∧ w.dies objects (.env e) = false ∧
    ∀ t, w.ends objects ⟨e, t⟩ = true → panics ⟨e, t⟩ = false
  isOpen : ∀ e, w'.isOpen e = (w.isOpen e && !w.dies objects (.env e))
  heapRoots : ∀ {e h'}, w'.envs e = some h' → w'.envLost panics e = true →
    ∃ h, w.envs e = some h ∧ h'.heapRoots = h.heapRoots
  openEnvs : w'.openEnvs = w.openEnvs.filter fun e => !w.dies objects (.env e)
  liveEnvHandles : w'.liveEnvHandles
    = w.liveEnvHandles - objects.countP fun o => o.isEnv && w.addresses o
  liveTxnHandles : w'.liveTxnHandles
    = w.liveTxnHandles - objects.countP fun o => !o.isEnv && w.addresses o
  log : w.log <:+ w'.log
  /-- Each live transaction of a usable environment is aborted once. -/
  aborts : ∀ p, abortsOf p w'.log
    = abortsOf p w.log + (w.ends objects p && w.usable p.env).toNat
  /-- Each environment that stays usable to its end is closed once. -/
  closes : ∀ e, closesOf e w'.log
    = closesOf e w.log + (w.dies objects (.env e) && w.isOpen e && !w.envLost panics e).toNat
  /-- The close of an environment finds its transaction aborted. -/
  ordered : ∀ {e t c past}, c.call = .envClose e → c :: past <:+ w'.log → w.log <:+ past →
    w.live ⟨e, t⟩ = true → w.usable e = true → abortsOf ⟨e, t⟩ past = abortsOf ⟨e, t⟩ w.log + 1
  /-- What may not be aborted or closed is kept, once. -/
  txnsKept : ∀ p, w'.abandoned.count (.txn p)
    = w.abandoned.count (.txn p) + (w.ends objects p && w.txnLost panics p).toNat
  envsKept : ∀ e, w'.abandoned.count (.env e) = w.abandoned.count (.env e)
    + (w.dies objects (.env e) && w.isOpen e && w.envLost panics e).toNat
  rootsKept : ∀ r, w'.abandoned.count (.root r)
    = w.abandoned.count (.root r) + (objects.flatMap (w.rootsLost panics)).count (.root r)

theorem not_suffix_cons {c : Call} {past log : List Call} (h : c :: past <:+ log) :
    ¬ log <:+ past := by
  intro hpast
  have := h.length_le
  have := hpast.length_le
  simp only [List.length_cons] at *
  omega

/-- Objects whose finalizers have run. -/
theorem Collected.idle {objects : List Object} (h : ∀ o ∈ objects, w.addresses o = false) :
    Collected panics w objects w := by
  have hdies : ∀ o, w.dies objects o = false := by
    intro o
    by_cases ho : o ∈ objects <;> simp [World.dies, ho, h]
  have hends : ∀ p, w.ends objects p = false := by simp [World.ends, hdies]
  refine
    { pid := rfl, addresses := ?_, envs := by simp [hdies], txns := by simp [hdies]
      live := by simp [hends], usable := by simp [hdies, hends], isOpen := by simp [hdies]
      heapRoots := fun he _ => ⟨_, he, rfl⟩, openEnvs := by simp [hdies]
      liveEnvHandles := ?_, liveTxnHandles := ?_, log := List.suffix_rfl, aborts := by simp [hends]
      closes := by simp [hdies]
      ordered := fun _ hc hpast => absurd hpast (not_suffix_cons hc)
      txnsKept := by simp [hends], envsKept := by simp [hdies], rootsKept := ?_ }
  · intro o
    by_cases ho : o ∈ objects <;> simp [ho, h]
  · rw [List.countP_eq_zero.mpr (by simp +contextual [h])]
    simp
  · rw [List.countP_eq_zero.mpr (by simp +contextual [h])]
    simp
  · intro r
    have hnone : objects.flatMap (w.rootsLost panics) = [] := by
      rw [List.flatMap_eq_nil_iff]
      rintro (x | x) hx
      · simp [World.rootsLost, h _ hx]
      · rfl
    simp [hnone]

section One

variable (L : Platform σ) {e : EnvRef} {h : EnvHandle} {t : TxnRef} {k : TxnHandle}

theorem dies_txn {s : TxnSexp} (hx : w.txnSexps t = some s) (haddr : s.addr = some t)
    (o : Object) : w.dies [.txn t] o = decide (o = .txn t) := by
  by_cases ho : o = .txn t <;> simp [World.dies, World.addresses, ho, hx, haddr]

theorem dies_env {s : EnvSexp} (hx : w.envSexps e = some s) (haddr : s.addr = some e)
    (o : Object) : w.dies [.env e] o = decide (o = .env e) := by
  by_cases ho : o = .env e <;> simp [World.dies, World.addresses, ho, hx, haddr]

/-- The finalizer of a transaction that has ended. -/
theorem collected_txnEnded {s : TxnSexp} (hx : w.txnSexps t = some s)
    (haddr : s.addr = some t) (ht : w.txns t = some k) (howner : k.owner = none) :
    Collected panics w [.txn t] ((w.setTxnSexp t { s with addr := none }).deletedTxn t) := by
  have hdies := dies_txn hx haddr
  have hends : ∀ p, w.ends [.txn t] p = false := by
    intro p
    by_cases hp : p.id = t
    · simp [World.ends, World.live, hp, ht, howner]
    · simp [World.ends, hdies, hp]
  refine
    { pid := rfl, addresses := ?_, envs := by simp [hdies, World.deletedTxn], txns := ?_
      live := ?_, usable := by simp [hdies, hends, World.deletedTxn, World.usable]
      isOpen := by simp [hdies, World.deletedTxn, World.isOpen]
      heapRoots := fun he _ => ⟨_, he, rfl⟩, openEnvs := by simp [hdies, World.deletedTxn]
      liveEnvHandles := by simp [World.deletedTxn, Object.isEnv]
      liveTxnHandles := by simp [World.deletedTxn, Object.isEnv, World.addresses, hx, haddr]
      log := List.suffix_rfl, aborts := by simp [hends, World.deletedTxn]
      closes := by simp [hdies, World.deletedTxn]
      ordered := fun _ hc hpast => absurd hpast (not_suffix_cons hc)
      txnsKept := by simp [hends, World.deletedTxn], envsKept := by simp [hdies, World.deletedTxn]
      rootsKept := by simp [World.rootsLost, World.deletedTxn] }
  · intro o
    cases o with
    | env x => simp [World.addresses, World.deletedTxn]
    | txn x => by_cases hxt : x = t <;> simp [World.addresses, World.deletedTxn, hxt]
  · intro x
    by_cases hxt : x = t <;> simp [hdies, World.deletedTxn, hxt]
  · intro p
    rw [hends]
    by_cases hp : p.id = t <;> simp [World.live, World.deletedTxn, hp, ht, howner]

/-- The finalizer of a live transaction. -/
theorem collected_txnLive (G : Graph w) {s : TxnSexp} (hx : w.txnSexps t = some s)
    (haddr : s.addr = some t) (ht : LiveTxn w e t k) (he : w.envs e = some h)
    (C : Cleared panics e h (w.setTxnSexp t { s with addr := none }) w') :
    Collected panics w [.txn t] (w'.deletedTxn t) := by
  have hdies := dies_txn hx haddr
  have hends : ∀ p, w.ends [.txn t] p = (w.live p && p.env == e) := by
    rintro ⟨e', t'⟩
    rw [World.ends, hdies, hdies]
    cases hlive : w.live ⟨e', t'⟩ with
    | false => rfl
    | true =>
      obtain ⟨j, hj⟩ := World.live_iff.mp hlive
      have honly : t' = t ↔ e' = e := by
        constructor
        · rintro rfl
          have := hj.at_
          rw [ht.at_] at this
          cases this
          exact (Option.some.inj (ht.owner.symm.trans hj.owner)).symm
        · rintro rfl
          rw [G.live_iff he, G.liveTxns_eq ht.at_ ht.owner he] at hlive
          exact List.mem_singleton.mp hlive
      by_cases henv : e' = e <;> simp [honly, henv]
  have henvs : ∀ e' ≠ e, w'.envs e' = w.envs e' := C.envs
  obtain ⟨h', he', henv', hnone, husable, hroots⟩ := C.env
  have hlost : w'.usable e = !w.envLost panics e := husable
  have hends_of : ∀ t', w.ends [.txn t] ⟨e, t'⟩ = true ↔ t' ∈ h.liveTxns := by
    intro t'
    rw [hends]
    simp [G.live_iff he]
  refine
    { pid := C.pid, addresses := ?_, envs := ?_, txns := ?_, live := ?_, usable := ?_, isOpen := ?_
      heapRoots := ?_, openEnvs := ?_, liveEnvHandles := ?_, liveTxnHandles := ?_, log := C.log
      aborts := ?_, closes := ?_, ordered := ?_, txnsKept := ?_, envsKept := ?_, rootsKept := ?_ }
  · intro o
    cases o with
    | env x => simp [World.addresses, World.deletedTxn, C.envSexps]
    | txn x =>
      by_cases hxt : x = t <;> simp [World.addresses, World.deletedTxn, C.txnSexps, hxt]
  · intro e'
    by_cases hee : e' = e
    · subst hee
      simp [World.deletedTxn, he, he', hdies]
    · simp [World.deletedTxn, henvs e' hee, hdies]
  · intro x
    by_cases hxt : x = t
    · simp [World.deletedTxn, hxt, hdies]
    · have := C.txns x
      simp only [World.setTxnSexp_txns] at this
      simp [World.deletedTxn, hxt, hdies, this]
  · intro p
    have hlive : w'.live p = (w.live p && p.env != e) := C.live p
    have : (w'.deletedTxn t).live p = (w'.live p && decide (p.id ≠ t)) := by
      by_cases hp : p.id = t <;> simp [World.live, World.deletedTxn, hp]
    rw [this, hends, hlive]
    cases hl : w.live p with
    | false => rfl
    | true =>
      by_cases henv : p.env = e
      · simp [henv]
      · have hid : p.id ≠ t := by
          intro hid
          have h₁ := hends p
          rw [World.ends, hdies, hl] at h₁
          simp [hid, henv] at h₁
        simp [hid, bne]
  · intro e'
    have hsame : (w'.deletedTxn t).usable e' = w'.usable e' := rfl
    rw [hsame]
    by_cases hee : e' = e
    · subst hee
      rw [hlost]
      simp [World.envLost, he, hdies, hends_of]
    · have : w'.usable e' = w.usable e' := by simp [World.usable, henvs e' hee, C.pid]
      simp [this, hdies, hends, hee]
  · intro e'
    have hsame : (w'.deletedTxn t).isOpen e' = w'.isOpen e' := rfl
    rw [hsame]
    by_cases hee : e' = e
    · subst hee
      simp [World.isOpen, he, he', henv', hdies]
    · simp [World.isOpen, henvs e' hee, hdies]
  · intro e' g hg hl
    by_cases hee : e' = e
    · subst hee
      obtain rfl : h' = g := Option.some.inj (he'.symm.trans hg)
      refine ⟨h, he, hroots ?_⟩
      have : (w'.deletedTxn t).usable e' = w'.usable e' := rfl
      rw [World.envLost, this] at hl
      simpa [World.deletedTxn, he', hnone] using hl
    · exact ⟨g, by rw [← henvs e' hee]; exact hg, rfl⟩
  · simp [World.deletedTxn, C.openEnvs, hdies]
  · simp [World.deletedTxn, C.liveEnvHandles, Object.isEnv]
  · simp [World.deletedTxn, C.liveTxnHandles, Object.isEnv, World.addresses, hx, haddr]
  · intro p
    rw [hends]
    exact C.aborts p
  · intro e'
    have : closesOf e' w'.log = closesOf e' w.log := C.closes e'
    simp [World.deletedTxn, hdies, this]
  · intro e' t' c past hcall hc hpast _ _
    have hmono := closesOf_mono e' hc
    have hmono' := closesOf_mono e' hpast
    have : closesOf e' w'.log = closesOf e' w.log := C.closes e'
    simp only [World.deletedTxn, World.setTxn_log] at hmono
    rw [this] at hmono
    simp [closesOf, callsOf, hcall] at hmono hmono'
    omega
  · intro p
    rw [hends]
    exact C.txnsKept p
  · intro e'
    have : w'.abandoned.count (.env e') = w.abandoned.count (.env e') := C.kept _ (by simp)
    simp [World.deletedTxn, hdies, this]
  · intro r
    have : w'.abandoned.count (.root r) = w.abandoned.count (.root r) := C.kept _ (by simp)
    simp [World.deletedTxn, World.rootsLost, this]

/-- The finalizer of an environment. -/
theorem collected_env {s : EnvSexp} (hx : w.envSexps e = some s)
    (haddr : s.addr = some e) (he : w.envs e = some h) {h₁ : EnvHandle} {w₁ : World σ}
    (C : Cleared panics e h (w.setEnvSexp e { s with addr := none }) w₁)
    (he₁ : w₁.envs e = some h₁) (D : Dismissed e h₁ w₁ w') :
    Collected panics w [.env e] (w'.deletedEnv e) := by
  have hdies := dies_env hx haddr
  have hends : ∀ p, w.ends [.env e] p = (w.live p && p.env == e) := by
    intro p
    rw [World.ends, hdies, hdies]
    by_cases hp : p.env = e <;> simp [hp]
  have henvs : ∀ e' ≠ e, w'.envs e' = w.envs e' :=
    fun e' hne => (D.envs e' hne).trans (C.envs e' hne)
  obtain ⟨h₁', he₁', henv₁, -, husable, hroots⟩ := C.env
  obtain rfl : h₁ = h₁' := Option.some.inj (he₁.symm.trans he₁')
  have hlost : w₁.usable e = !w.envLost panics e := husable
  have hopen : w.isOpen e = h₁.env.isSome := by simp [World.isOpen, he, henv₁]
  obtain ⟨o, hlog⟩ := D.log
  have habandoned := D.abandoned
  rw [← hopen, hlost] at hlog
  rw [← hopen, hlost, Bool.not_not] at habandoned
  have hlive : ∀ p, (w'.deletedEnv e).live p = (w.live p && p.env != e) := by
    intro p
    have : (w'.deletedEnv e).live p = w₁.live p := by simp [World.live, World.deletedEnv, D.txns]
    exact this.trans (C.live p)
  refine
    { pid := D.pid.trans C.pid, addresses := ?_, envs := ?_, txns := ?_, live := ?_, usable := ?_
      isOpen := ?_, heapRoots := ?_, openEnvs := ?_, liveEnvHandles := ?_, liveTxnHandles := ?_
      log := ?_, aborts := ?_, closes := ?_, ordered := ?_, txnsKept := ?_, envsKept := ?_
      rootsKept := ?_ }
  · intro o
    cases o with
    | env x =>
      by_cases hxe : x = e <;>
        simp [World.addresses, World.deletedEnv, D.envSexps, C.envSexps, hxe]
    | txn x => simp [World.addresses, World.deletedEnv, D.txnSexps, C.txnSexps]
  · intro e'
    by_cases hee : e' = e
    · simp [World.deletedEnv, hee, hdies]
    · simp [World.deletedEnv, hee, henvs e' hee, hdies]
  · intro t
    have := C.txns t
    simp only [World.setEnvSexp_txns] at this
    simp [World.deletedEnv, D.txns, this, hdies]
  · intro p
    rw [hlive, hends]
    cases w.live p <;> simp [bne]
  · intro e'
    by_cases hee : e' = e
    · simp [World.usable, World.deletedEnv, hee, hdies]
    · have : (w'.deletedEnv e).usable e' = w.usable e' := by
        simp [World.usable, World.deletedEnv, hee, henvs e' hee, D.pid, C.pid]
      simp [this, hdies, hends, hee]
  · intro e'
    by_cases hee : e' = e
    · simp [World.isOpen, World.deletedEnv, hee, hdies]
    · simp [World.isOpen, World.deletedEnv, hee, henvs e' hee, hdies]
  · intro e' g hg _
    by_cases hee : e' = e
    · simp [World.deletedEnv, hee] at hg
    · exact ⟨g, by rw [← henvs e' hee]; simpa [World.deletedEnv, hee] using hg, rfl⟩
  · simp [World.deletedEnv, D.openEnvs, C.openEnvs, hdies]
  · simp [World.deletedEnv, D.liveEnvHandles, C.liveEnvHandles, Object.isEnv, World.addresses, hx,
      haddr]
  · simp [World.deletedEnv, D.liveTxnHandles, C.liveTxnHandles, Object.isEnv]
  · refine List.IsSuffix.trans C.log ?_
    simp only [World.deletedEnv, World.setEnv_log]
    rw [hlog]
    split <;> simp
  · intro p
    have : abortsOf p w'.log = abortsOf p w₁.log := by
      rw [hlog]
      split <;> simp
    rw [hends]
    exact this.trans (C.aborts p)
  · intro e'
    have hcleared : closesOf e' w₁.log = closesOf e' w.log := C.closes e'
    simp only [World.deletedEnv, World.setEnv_log]
    rw [hlog, hdies]
    by_cases hee : e' = e
    · subst hee
      cases hcond : (w.isOpen e' && !w.envLost panics e') <;> simp [hcond, hcleared]
    · split <;> simp [hcleared, hee, Ne.symm hee]
  · intro e' t c past hcall hc hpast hlive' husable'
    have haborts : abortsOf ⟨e', t⟩ w₁.log
        = abortsOf ⟨e', t⟩ w.log + (w.live ⟨e', t⟩ && e' == e && w.usable e').toNat := C.aborts _
    have hcleared : closesOf e' w₁.log = closesOf e' w.log := C.closes e'
    have hnot : ¬ c :: past <:+ w₁.log := by
      intro hc'
      have hmono := closesOf_mono e' hc'
      have hmono' := closesOf_mono e' hpast
      rw [hcleared] at hmono
      simp [closesOf, callsOf, hcall] at hmono hmono'
      omega
    simp only [World.deletedEnv, World.setEnv_log] at hc
    rw [hlog] at hc
    split at hc
    · rcases List.suffix_cons_iff.mp hc with heq | hc
      · cases heq
        obtain rfl : e = e' := by simpa using hcall
        rw [haborts, hlive', husable']
        simp
      · exact absurd hc hnot
    · exact absurd hc hnot
  · intro p
    have hcleared : w₁.abandoned.count (.txn p)
        = w.abandoned.count (.txn p) + (w.live p && p.env == e && w.txnLost panics p).toNat :=
      C.txnsKept p
    have hnoroot : h₁.roots.count (.txn p) = 0 :=
      List.count_eq_zero.mpr fun hmem => by
        obtain ⟨r, hr⟩ := EnvHandle.mem_roots hmem
        cases hr
    simp only [World.deletedEnv, World.setEnv_abandoned]
    rw [habandoned, List.count_append, hcleared, hends]
    split <;> simp [hnoroot]
  · intro e'
    have hcleared : w₁.abandoned.count (.env e') = w.abandoned.count (.env e') :=
      C.kept _ (by simp)
    have hnoroot : h₁.roots.count (.env e') = 0 :=
      List.count_eq_zero.mpr fun hmem => by
        obtain ⟨r, hr⟩ := EnvHandle.mem_roots hmem
        cases hr
    simp only [World.deletedEnv, World.setEnv_abandoned]
    rw [habandoned, List.count_append, hcleared, hdies]
    by_cases hee : e' = e
    · subst hee
      cases hcond : (w.isOpen e' && w.envLost panics e') with
      | false => simp [hcond]
      | true =>
        simp [hcond, hnoroot]
    · split <;> simp [hnoroot, hee, Ne.symm hee]
  · intro r
    have hcleared : w₁.abandoned.count (.root r) = w.abandoned.count (.root r) :=
      C.kept _ (by simp)
    have haddr' : w.addresses (.env e) = true := by simp [World.addresses, hx, haddr]
    simp only [World.deletedEnv, World.setEnv_abandoned]
    rw [habandoned, List.count_append, hcleared]
    cases hcond : (w.isOpen e && w.envLost panics e) with
    | false => simp [World.rootsLost, haddr', hcond]
    | true =>
      have hsame : h₁.heapRoots = h.heapRoots := by
        refine hroots ?_
        rw [hlost]
        simp only [Bool.and_eq_true] at hcond
        rw [hcond.2]
        rfl
      simp [World.rootsLost, haddr', hcond, he, EnvHandle.roots, hsame]

theorem detachTxns_cleared (hp : L.AbortsBy panics) (G : Graph w) (he : w.envs e = some h) :
    ∃ w', (detachTxns L e).run w = (.ok (), w') ∧ Cleared panics e h w w' := by
  cases hl : h.liveTxns with
  | nil => exact ⟨w, detachTxns_none L he hl, G.cleared_none he hl⟩
  | cons t rest =>
    obtain ⟨k, ht, howner⟩ := (G.live he t).mp (by simp [hl])
    have hlive : LiveTxn w e t k := ⟨ht, howner⟩
    obtain ⟨w₁, h₁, k₁, P, hrun⟩ := detachTxns_live L G he hlive
    exact ⟨_, hrun, P.cleared hp G he hlive .same (P.env he)⟩

/-- The finalizer of one object. -/
theorem finalize_collected (hp : L.AbortsBy panics) (I : Inv { lossy } w) (object : Object) :
    ∃ w', (finalize L object).run w = (.ok (), w') ∧ Collected panics w [object] w' := by
  cases haddr : w.addresses object with
  | false =>
    refine ⟨w, ?_, .idle (by simpa using haddr)⟩
    cases object with
    | env x =>
      refine finalizeEnv_idle L fun s hx => ?_
      simpa [World.addresses, hx] using haddr
    | txn x =>
      refine finalizeTxn_idle L fun s hx => ?_
      simpa [World.addresses, hx] using haddr
  | true =>
    cases object with
    | env x =>
      obtain ⟨e, hbind⟩ := Option.isSome_iff_exists.mp haddr
      obtain ⟨s, hx, hs⟩ := Option.bind_eq_some_iff.mp hbind
      obtain ⟨rfl, hsome⟩ := I.graph.envSexp hx hs
      obtain ⟨h, he⟩ := Option.isSome_iff_exists.mp hsome
      have S₁ : Sound (fun _ => False) w { lossy } (w.setEnvSexp e { s with addr := none }) :=
        I.sound.setEnvSexp (I.fresh.env he) (by simp) (.inl ⟨s, hx, rfl⟩)
      obtain ⟨w₁, hdetach, C⟩ := detachTxns_cleared L hp S₁.inv.graph (h := h) he
      obtain ⟨w₁', h₁, hdetach', S₂, he₁, -⟩ := detachTxns_spec L S₁ rfl rfl (h := h) he
      obtain rfl : w₁ = w₁' := by simpa [hdetach] using hdetach'
      obtain ⟨w₂, hclose, D⟩ := closeHandle_dismissed L S₂.inv.graph he₁
      obtain ⟨h₂, he₂⟩ := D.env
      exact ⟨_, finalizeEnv_run L hx hs hdetach hclose he₂, collected_env hx hs he C he₁ D⟩
    | txn x =>
      obtain ⟨t, hbind⟩ := Option.isSome_iff_exists.mp haddr
      obtain ⟨s, hx, hs⟩ := Option.bind_eq_some_iff.mp hbind
      obtain ⟨rfl, hsome⟩ := I.graph.txnSexp hx hs
      obtain ⟨k, ht⟩ := Option.isSome_iff_exists.mp hsome
      cases howner : k.owner with
      | none =>
        have htxn : k.txn = none := by rw [I.graph.txn ht, howner]; rfl
        exact ⟨_, finalizeTxn_ended L hx hs ht howner htxn, collected_txnEnded hx hs ht howner⟩
      | some e =>
        obtain ⟨h, he, -⟩ := I.graph.owner ht howner
        have hlive : LiveTxn w e t k := ⟨ht, howner⟩
        have G₁ : Graph (w.setTxnSexp t { s with addr := none }) := I.graph.setTxnSexp (by simp)
        obtain ⟨w₁, h₁, k₁, w₂, h₂, P, R, he₂, hrun⟩ := finalizeTxn_live L I.graph hx hs hlive he
        exact ⟨_, hrun, collected_txnLive I.graph hx hs hlive he
          (P.cleared hp G₁ he ⟨ht, howner⟩ R he₂)⟩

end One

/-! ### Collections one after another -/

theorem World.ends_live {objects : List Object} {p : TxnPtr} (h : w.ends objects p = true) :
    w.live p = true := by
  rw [ends, Bool.and_eq_true] at h
  exact h.1

theorem World.ends_of_dies {objects : List Object} {e : EnvRef} {t : TxnRef}
    (hlive : w.live ⟨e, t⟩ = true) (hdies : w.dies objects (.env e) = true) :
    w.ends objects ⟨e, t⟩ = true := by
  simp [ends, hlive, hdies]

theorem World.dies_append (a b : List Object) (o : Object) :
    w.dies (a ++ b) o = (w.dies a o || w.dies b o) := by
  simp [dies, Bool.and_or_distrib_left]

theorem World.ends_append (a b : List Object) (p : TxnPtr) :
    w.ends (a ++ b) p = (w.ends a p || w.ends b p) := by
  simp only [ends, dies_append]
  cases w.live p <;> cases w.dies a (.txn p.id) <;> cases w.dies b (.txn p.id) <;> simp

/-- An environment has one live transaction. -/
theorem Graph.live_unique (G : Graph w) {e : EnvRef} {t t' : TxnRef}
    (ht : w.live ⟨e, t⟩ = true) (ht' : w.live ⟨e, t'⟩ = true) : t = t' := by
  obtain ⟨k, hk⟩ := World.live_iff.mp ht
  obtain ⟨h, he, -⟩ := G.owner hk.at_ hk.owner
  rw [G.live_iff he, G.liveTxns_eq hk.at_ hk.owner he] at ht'
  exact (List.mem_singleton.mp ht').symm

theorem Graph.envLost_iff (G : Graph w) {e : EnvRef} : w.envLost panics e = true ↔
    w.usable e = false ∨ ∃ t, w.live ⟨e, t⟩ = true ∧ panics ⟨e, t⟩ = true := by
  rw [World.envLost, Bool.or_eq_true, Bool.not_eq_true']
  cases he : w.envs e with
  | none => simp [World.usable, he]
  | some h => simp [G.live_iff he]

section Trans

variable {a b : List Object} {w₁ w₂ : World σ} {e : EnvRef}

/-- An environment that outlives a collection is kept by a later finalizer if one of this collection
would have kept it. -/
theorem Collected.envLost (C : Collected panics w a w₁) (G : Graph w) (G₁ : Graph w₁)
    (hlives : w.dies a (.env e) = false) : w₁.envLost panics e = w.envLost panics e := by
  have husable := C.usable e
  have hlive := fun t => C.live ⟨e, t⟩
  have hends : ∀ t, w.ends a ⟨e, t⟩ = true → w.live ⟨e, t⟩ = true := fun _ => World.ends_live
  rw [Bool.eq_iff_iff, G.envLost_iff, G₁.envLost_iff]
  simp only [hlive, Bool.and_eq_true, Bool.not_eq_true']
  rw [← Bool.not_eq_true, husable]
  grind

theorem Collected.rootsLost (C : Collected panics w a w₁) (G : Graph w) (G₁ : Graph w₁)
    {o : Object} (ho : o ∉ a) : w₁.rootsLost panics o = w.rootsLost panics o := by
  cases o with
  | txn => rfl
  | env e =>
    have hlives : w.dies a (.env e) = false := by simp [World.dies, ho]
    simp only [World.rootsLost]
    rw [C.addresses, C.isOpen, C.envLost G G₁ hlives, hlives]
    simp only [ho, not_false_eq_true, decide_true, Bool.and_true, Bool.not_false]
    split
    · rename_i hcond
      simp only [Bool.and_eq_true] at hcond
      have hl := hcond.2
      rw [← C.envLost G G₁ hlives] at hl
      cases he₁ : w₁.envs e with
      | none =>
        have he : w.envs e = none := by simpa [hlives] using (C.envs e).mp he₁
        rw [he]
      | some h₁ =>
        obtain ⟨h, he, heq⟩ := C.heapRoots he₁ hl
        simp [he, EnvHandle.roots, heq]
    · rfl

theorem Collected.trans (C : Collected panics w a w₁) (D : Collected panics w₁ b w₂) (G : Graph w)
    (G₁ : Graph w₁) (G₂ : Graph w₂) (hdisj : ∀ o ∈ b, o ∉ a) : Collected panics w (a ++ b) w₂ := by
  have hdies : ∀ o, w₁.dies b o = w.dies b o := by
    intro o
    by_cases ho : o ∈ b <;> simp [World.dies, C.addresses, ho, hdisj]
  have hends : ∀ p, w₁.ends b p = (w.ends b p && !w.ends a p) := by
    intro p
    simp only [World.ends, C.live, hdies]
    cases w.live p <;> simp [Bool.and_comm]
  have hsurvives : ∀ e, w.dies b (.env e) = true → w.dies a (.env e) = false := by
    intro e he
    simp only [World.dies, Bool.and_eq_true, decide_eq_true_eq] at he
    simp [World.dies, hdisj _ he.2]
  have husable : ∀ p, w.live p = true → w.ends a p = false → w₁.usable p.env = w.usable p.env := by
    rintro ⟨e, t⟩ hlive ha
    have hlives : w.dies a (.env e) = false := by
      by_contra h
      rw [World.ends_of_dies hlive (by simpa using h)] at ha
      cases ha
    rw [Bool.eq_iff_iff, C.usable]
    refine ⟨And.left, fun h => ⟨h, hlives, fun t' ht' => ?_⟩⟩
    obtain rfl := G.live_unique hlive (World.ends_live ht')
    rw [ha] at ht'
    cases ht'
  have hlost : ∀ e, w.dies b (.env e) = true → w₁.envLost panics e = w.envLost panics e :=
    fun e he => C.envLost G G₁ (hsurvives e he)
  have hcount : ∀ f : Object → Bool, (b.countP fun o => f o && w₁.addresses o)
      = b.countP fun o => f o && w.addresses o := by
    intro f
    refine List.countP_congr fun o ho => ?_
    simp [C.addresses, hdisj o ho]
  refine
    { pid := D.pid.trans C.pid, addresses := ?_, envs := ?_, txns := ?_, live := ?_, usable := ?_
      isOpen := ?_, heapRoots := ?_, openEnvs := ?_, liveEnvHandles := ?_, liveTxnHandles := ?_
      log := C.log.trans D.log, aborts := ?_, closes := ?_, ordered := ?_, txnsKept := ?_
      envsKept := ?_, rootsKept := ?_ }
  · intro o
    rw [D.addresses, C.addresses]
    by_cases ha : o ∈ a <;> by_cases hb : o ∈ b <;> simp [ha, hb]
  · intro e
    rw [D.envs, C.envs, hdies, World.dies_append, Bool.or_eq_true, or_assoc]
  · intro t
    rw [D.txns, C.txns, hdies, World.dies_append, Bool.or_eq_true, or_assoc]
  · intro p
    rw [D.live, C.live, hends, World.ends_append]
    cases w.live p <;> cases w.ends a p <;> cases w.ends b p <;> rfl
  · intro e
    rw [D.usable, C.usable, hdies]
    simp only [World.dies_append, World.ends_append, hends]
    grind
  · intro e
    rw [D.isOpen, C.isOpen, hdies, World.dies_append, Bool.not_or, Bool.and_assoc]
  · intro e h₂ he₂ hl
    have hlives : w₁.dies b (.env e) = false := by
      by_contra h
      have := (D.envs e).mpr (.inr (by simpa using h))
      rw [he₂] at this
      cases this
    obtain ⟨h₁, he₁, heq⟩ := D.heapRoots he₂ hl
    rw [D.envLost G₁ G₂ hlives] at hl
    obtain ⟨h, he, heq'⟩ := C.heapRoots he₁ hl
    exact ⟨h, he, heq.trans heq'⟩
  · rw [D.openEnvs, C.openEnvs, List.filter_filter]
    refine List.filter_congr fun e _ => ?_
    rw [hdies, World.dies_append, Bool.not_or, Bool.and_comm]
  · rw [D.liveEnvHandles, C.liveEnvHandles, List.countP_append, hcount]
    omega
  · rw [D.liveTxnHandles, C.liveTxnHandles, List.countP_append, hcount]
    omega
  · intro p
    rw [D.aborts, C.aborts, hends, World.ends_append]
    cases ha : w.ends a p <;> cases hb : w.ends b p
    · rfl
    · simp [husable p (World.ends_live hb) ha]
    · simp
    · simp
  · intro e
    rw [D.closes, C.closes, hdies, World.dies_append]
    cases hb : w.dies b (.env e)
    · simp
    · simp [hsurvives e hb, hlost e hb, C.isOpen]
  · intro e t c past hcall hc hpast hlive husable'
    have hfirst := C.aborts ⟨e, t⟩
    rcases List.suffix_or_suffix_of_suffix hc D.log with hc' | hpast'
    · exact C.ordered hcall hc' hpast hlive husable'
    rcases List.suffix_cons_iff.mp hpast' with heq | hpast'
    · exact C.ordered hcall (heq ▸ List.suffix_rfl) hpast hlive husable'
    cases ha : w.ends a ⟨e, t⟩ with
    | false =>
      have hlive₁ : w₁.live ⟨e, t⟩ = true := by simp [C.live, hlive, ha]
      have husable₁ : w₁.usable e = true := (husable ⟨e, t⟩ hlive ha).trans husable'
      rw [D.ordered hcall hc hpast' hlive₁ husable₁, hfirst, ha]
      rfl
    | true =>
      have hmono := abortsOf_mono ⟨e, t⟩ hpast'
      have hmono' := abortsOf_mono ⟨e, t⟩ ((List.suffix_cons c past).trans hc)
      have hlast := D.aborts ⟨e, t⟩
      rw [hends, ha] at hlast
      rw [ha, husable'] at hfirst
      simp at hlast hfirst
      omega
  · intro p
    rw [D.txnsKept, C.txnsKept, hends, World.ends_append]
    cases ha : w.ends a p <;> cases hb : w.ends b p
    · rfl
    · simp [World.txnLost, husable p (World.ends_live hb) ha]
    · simp
    · simp
  · intro e
    rw [D.envsKept, C.envsKept, hdies, World.dies_append]
    cases hb : w.dies b (.env e)
    · simp
    · simp [hsurvives e hb, hlost e hb, C.isOpen]
  · intro r
    have hsame : b.flatMap (w₁.rootsLost panics) = b.flatMap (w.rootsLost panics) :=
      List.flatMap_congr fun o ho => C.rootsLost G G₁ (hdisj o ho)
    rw [D.rootsKept, C.rootsKept, hsame, List.flatMap_append, List.count_append, Nat.add_assoc]

end Trans

/-- The finalizers of a list of objects, in its order. -/
theorem finalizeAll_collected (L : Platform σ) (hp : L.AbortsBy panics) {objects : List Object}
    (hnodup : objects.Nodup) (I : Inv { lossy } w) :
    ∃ w', (finalizeAll L objects).run w = (.ok (), w') ∧ Inv { lossy } w' ∧
      Collected panics w objects w' := by
  induction objects generalizing w with
  | nil => exact ⟨w, rfl, I, .idle (by simp)⟩
  | cons object rest ih =>
    obtain ⟨hnew, hrest⟩ := List.nodup_cons.mp hnodup
    obtain ⟨w₁, hrun, C⟩ := finalize_collected L hp I object
    have I₁ : Inv { lossy } w₁ := by
      have := (finalize_sound L I object).inv
      rwa [hrun] at this
    obtain ⟨w₂, hrun₂, I₂, D⟩ := ih hrest I₁
    refine ⟨w₂, by rw [finalizeAll, Prog.bind_ok hrun, hrun₂], I₂, ?_⟩
    refine C.trans D I.graph I₁.graph I₂.graph fun o ho => ?_
    rw [List.mem_singleton]
    rintro rfl
    exact hnew ho

/-- What a collection leaves depends on the objects and not on their order. -/
theorem Collected.perm {objects objects' : List Object} (C : Collected panics w objects w')
    (h : objects.Perm objects') : Collected panics w objects' w' := by
  have hmem : ∀ o, o ∈ objects ↔ o ∈ objects' := fun o => h.mem_iff
  have hdies : w.dies objects = w.dies objects' := by
    funext o
    simp [World.dies, hmem]
  have hends : w.ends objects = w.ends objects' := by
    funext p
    simp [World.ends, hdies]
  exact
    { pid := C.pid, addresses := by simpa [hmem] using C.addresses, envs := hdies ▸ C.envs
      txns := hdies ▸ C.txns, live := hends ▸ C.live, usable := hends ▸ hdies ▸ C.usable
      isOpen := hdies ▸ C.isOpen, heapRoots := C.heapRoots, openEnvs := hdies ▸ C.openEnvs
      liveEnvHandles := h.countP_eq _ ▸ C.liveEnvHandles
      liveTxnHandles := h.countP_eq _ ▸ C.liveTxnHandles, log := C.log, aborts := hends ▸ C.aborts
      closes := hdies ▸ C.closes, ordered := C.ordered, txnsKept := hends ▸ C.txnsKept
      envsKept := hdies ▸ C.envsKept
      rootsKept := fun r => by rw [C.rootsKept, (h.flatMap_right _).count_eq] }

/-- Two worlds that one collection can leave agree on what the package keeps. -/
theorem Collected.agree {objects : List Object} {w₁ w₂ : World σ}
    (C : Collected panics w objects w₁) (D : Collected panics w objects w₂) :
    w₁.liveEnvHandles = w₂.liveEnvHandles ∧ w₁.liveTxnHandles = w₂.liveTxnHandles ∧
      w₁.openEnvs = w₂.openEnvs ∧ w₁.abandoned.Perm w₂.abandoned := by
  refine ⟨C.liveEnvHandles.trans D.liveEnvHandles.symm,
    C.liveTxnHandles.trans D.liveTxnHandles.symm,
    C.openEnvs.trans D.openEnvs.symm, List.perm_iff_count.mpr fun kept => ?_⟩
  cases kept with
  | txn p => rw [C.txnsKept, D.txnsKept]
  | env e => rw [C.envsKept, D.envsKept]
  | root r => rw [C.rootsKept, D.rootsKept]

/-- In every reachable state the finalizers of a set of objects can run in any order: whichever it
is, they end transactions and environments as `Collected` says and leave the same counters and the
same registries. -/
theorem Reachable.finalizers_commute {L : Platform σ} (hr : Reachable L w)
    (hp : L.AbortsBy panics) {objects objects' : List Object} (hnodup : objects.Nodup)
    (horder : objects.Perm objects') :
    ∃ w₁ w₂, (finalizeAll L objects).run w = (.ok (), w₁) ∧
      (finalizeAll L objects').run w = (.ok (), w₂) ∧
      Collected panics w objects w₁ ∧ Collected panics w objects w₂ ∧
      w₁.liveEnvHandles = w₂.liveEnvHandles ∧ w₁.liveTxnHandles = w₂.liveTxnHandles ∧
      w₁.openEnvs = w₂.openEnvs ∧ w₁.abandoned.Perm w₂.abandoned := by
  have I : Inv { lossy := true } w := hr.invariant (by simp)
  obtain ⟨w₁, hrun₁, -, C₁⟩ := finalizeAll_collected L hp hnodup I
  obtain ⟨w₂, hrun₂, -, C₂⟩ := finalizeAll_collected L hp (horder.nodup hnodup) I
  exact ⟨w₁, w₂, hrun₁, hrun₂, C₁, C₂.perm horder.symm, C₁.agree (C₂.perm horder.symm)⟩

/-- A library whose `mdbx_txn_abort` panics. -/
abbrev abortPanics : Platform Unit := .scripted fun
  | .txnAbort _ _ => none
  | _ => some Status.success

/-- An environment and its transaction die together: in either order both are kept, the
transaction's abort is asked for once and the environment is not closed. -/
theorem Reachable.finalizers_commute_openAndBegin : ∃ w₁ w₂,
    (finalizeAll abortPanics [.env 0, .txn 1]).run
      ((World.start () 1).after abortPanics openAndBegin)
      = (.ok (), w₁) ∧
    (finalizeAll abortPanics [.txn 1, .env 0]).run
      ((World.start () 1).after abortPanics openAndBegin)
      = (.ok (), w₂) ∧ w₁.abandoned.Perm w₂.abandoned ∧
    w₁.abandoned.count (.txn ⟨0, 1⟩) = 1 ∧ abortsOf ⟨0, 1⟩ w₁.log = 1 ∧ closesOf 0 w₁.log = 0 := by
  have hr : Reachable abortPanics ((World.start () 1).after abortPanics openAndBegin) :=
    ⟨(), 1, World.after_steps (by decide +kernel)⟩
  have hp : abortPanics.AbortsBy fun _ => true := fun _ _ => rfl
  have horder : [Object.env 0, .txn 1].Perm [.txn 1, .env 0] := List.Perm.swap _ _ _
  obtain ⟨w₁, w₂, hrun₁, hrun₂, C₁, -, -, -, -, habandoned⟩ :=
    Reachable.finalizers_commute hr hp (by decide) horder
  refine ⟨w₁, w₂, hrun₁, hrun₂, habandoned, ?_, ?_, ?_⟩
  · rw [C₁.txnsKept]
    decide +kernel
  · rw [C₁.aborts]
    decide +kernel
  · rw [C₁.closes]
    decide +kernel

end Mdbx
