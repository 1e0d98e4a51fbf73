import Mdbx.Terminal

/-! Recovery: in every reachable state of the process that opened it an environment can be closed,
whatever has panicked, as long as libmdbx ends what it is asked to end. -/

namespace Mdbx

open ProofKit

variable {σ : Type} {w w' : World σ} {L : Platform σ} {e : EnvRef} {h : EnvHandle} {t : TxnRef}
  {k : TxnHandle}

/-! ### Open environments are registered -/

/-- What an entry point leaves registered. -/
theorem Later.lists {may : NativeCall → Prop} (H : Later may w w') (I : Inv {} w) (I' : Inv {} w')
    (hw : ∀ e, w.Lists e) (hnew : ∀ e, may (.envCreate e) → w'.Lists e) (e : EnvRef) :
    w'.Lists e := by
  intro h' he' henv'
  by_cases hlt : e < w.next
  · obtain ⟨h, he, -, henv, -⟩ := H.env he' hlt
    exact H.listed (hw e h he fun hnone => henv' (henv hnone)) hlt he' henv'
  · obtain ⟨p, henv⟩ := Option.ne_none_iff_exists'.mp henv'
    obtain rfl := I'.graph.env he' henv
    obtain ⟨c, hmem, -, hcall, -⟩ := I'.traced.created he' henv
    rcases H.made hmem (by rw [hcall]; rfl) with hold | hmay
    · exact absurd ((I.fresh.log hold).1 p hcall) hlt
    · exact hnew p (hcall ▸ hmay) h' he' henv'

theorem Step.lists (hL : L.Allocates) (I : Inv {} w) (h : Step L w w') (hw : ∀ e, w.Lists e)
    (e : EnvRef) : w'.Lists e := by
  have I' := h.inv L (fun _ => hL) I
  obtain ⟨event, -, rfl⟩ := h
  cases event with
  | fork child => exact hw e
  | finalize object => exact (finalize_sound L I object).later.lists I I' hw (fun _ h => h.elim) e
  | entry command =>
    cases command with
    | envOpen path key readonly subdir maxDbs mapSize maxReaders mode extraFlags =>
      -- The only environment that an open creates bears the next number.
      have S : Sound (fun c => c = .envCreate w.next) w {} w := I.sound
      have hopen := mdbxEnvOpen_spec L (fun _ => hL) S rfl path key readonly subdir maxDbs mapSize
        maxReaders
        mode extraFlags
      rw [Triple] at hopen
      rcases hr : (mdbxEnvOpen_ L path key readonly subdir maxDbs mapSize maxReaders mode
        extraFlags).run w with ⟨r, w'⟩
      have hrun : ((Command.envOpen path key readonly subdir maxDbs mapSize maxReaders mode
          extraFlags).run L).run w = (r.map Answer.object, w') := Prog.map_run _ hr
      have hspec : Sound (fun c => c = .envCreate w.next) w {} w' ∧ w'.Lists w.next := by
        rw [hr] at hopen
        cases r with
        | error x =>
          obtain ⟨S', hleaves, -, hnone⟩ := hopen
          refine ⟨S', fun h he => ?_⟩
          rw [hnone (hleaves.resolve_right (by simp))] at he
          cases he
        | ok a => exact ⟨hopen.2.1, fun _ _ _ => hopen.2.2.1.1⟩
      rw [Event.next, hrun] at I' ⊢
      refine hspec.1.later.lists I I' hw (fun e' hmay => ?_) e
      cases hmay
      exact hspec.2
    | txnCommit x =>
      refine ((Command.txnCommit x).spec L (fun _ => hL) I).1.later.lists I I' hw
        (fun e' hmay => ?_) e
      cases x <;> exact hmay.elim
    | _ =>
      exact (Command.spec L (fun _ => hL) I _).1.later.lists I I' hw (fun _ hmay => hmay.elim) e

theorem Reachable.lists (hL : L.Allocates) (hr : Reachable L w) (e : EnvRef) : w.Lists e := by
  obtain ⟨lib, pid, hsteps⟩ := hr
  induction hsteps generalizing e with
  | refl =>
    intro h he
    cases he
  | tail hsteps hstep ih =>
    exact hstep.lists hL (Steps.inv (fun _ => hL) (Inv.start lib pid) hsteps) ih e

/-! ### The two calls -/

/-- Native aborts and closes neither fail nor panic. -/
structure Platform.Recovers (L : Platform σ) : Prop where
  aborts : ∀ p caller s, ∃ r, (L.call (.txnAbort p caller) s).1 = .ok r ∧ r.rc = Status.success
  closes : ∀ e s, ∃ r, (L.call (.envClose e) s).1 = .ok r ∧ r.rc = Status.success

section Calls

variable (L) {s : TxnSexp} {se : EnvSexp}

theorem mdbxTxnAbort_succeeds (hok : L.Recovers) (G : Graph w) (hs : w.txnSexps t = some s)
    (haddr : s.addr = some t) (he : OpenEnv w e h) (ht : LiveTxn w e t k) :
    ∃ w' h' lib, Refreshed e h
        (w.called (.txnAbort ⟨e, t⟩ .finishTxn) lib (.returned Status.success)) w' ∧
      w'.envs e = some h' ∧ (mdbxTxnAbort_ L (.txn t)).run w
        = (.ok (), (w'.detached t k e h' .aborted).setTxnSexp t { s with prot := none }) := by
  obtain ⟨r, hr, hrc⟩ := hok.aborts ⟨e, t⟩ .finishTxn w.lib
  have hcall : (finishCall L ⟨e, t⟩ false).run w = (.ok Status.success,
      w.called (finishNative false ⟨e, t⟩) (L.call (.txnAbort ⟨e, t⟩ .finishTxn) w.lib).2
        (.returned Status.success)) := by
    rw [← hrc]
    exact Prog.bind_ok (native_ok L hr)
  obtain ⟨w', h', R, he', hrun⟩ := finishTxn_returned L G
    (txnFromSexp_live G hs haddr he ht) hs he.at_ ht hcall
    (by simp [Status.threadMismatch, Status.success])
  refine ⟨w', h', _, R, he', ?_⟩
  rw [mdbxTxnAbort_healthy L G hs haddr he.at_ ht (by simp [he.healthy]), hrun]
  rfl

/-- A close of an environment without transactions. -/
theorem mdbxEnvClose_shut (hs : w.envSexps e = some se) (haddr : se.addr = some e)
    (he : w.envs e = some h) (hlive : h.liveTxns = []) :
    (mdbxEnvClose_ L (.env e)).run w = (closeHandle L e true).run w := by
  have hx : (isEnvSexp (.env e)).run w = (.ok se, w) := by
    simp [isEnvSexp, hs]
  have hdetach : (whenever (h.poisoned = true) (detachTxns L e)).run w = (.ok (), w) := by
    by_cases hp : h.poisoned = true
    · rw [whenever_pos hp, detachTxns_none L he hlive]
    · rw [whenever_neg hp]
      rfl
  rw [mdbxEnvClose_, Prog.bind_ok hx, haddr, ifSome_some, Prog.bind_ok (derefEnv_run he),
    Prog.bind_ok hdetach, Prog.bind_ok (derefEnv_run he),
    Prog.bind_ok (refuse_pass (not_not.mpr hlive))]

/-- A close of a panicked environment detaches its transaction first. -/
theorem mdbxEnvClose_detaches (hs : w.envSexps e = some se) (haddr : se.addr = some e)
    (he : w.envs e = some h) (hpois : h.poisoned = true) {h' : EnvHandle}
    (hdetach : (detachTxns L e).run w = (.ok (), w')) (he' : w'.envs e = some h')
    (hlive : h'.liveTxns = []) :
    (mdbxEnvClose_ L (.env e)).run w = (closeHandle L e true).run w' := by
  have hx : (isEnvSexp (.env e)).run w = (.ok se, w) := by
    simp [isEnvSexp, hs]
  rw [mdbxEnvClose_, Prog.bind_ok hx, haddr, ifSome_some, Prog.bind_ok (derefEnv_run he),
    whenever_pos hpois, Prog.bind_ok hdetach, Prog.bind_ok (derefEnv_run he'),
    Prog.bind_ok (refuse_pass (not_not.mpr hlive))]

/-- The close of an open environment of this process that has no transactions. -/
theorem mdbxEnvClose_succeeds (hok : L.Recovers) (hs : w.envSexps e = some se)
    (haddr : se.addr = some e) (he : w.envs e = some h) (henv : h.env = some e)
    (hpid : h.pid = w.pid) (hlive : h.liveTxns = []) :
    ∃ w', (mdbxEnvClose_ L (.env e)).run w = (.ok (), w') ∧ Shut e h w w' := by
  rw [mdbxEnvClose_shut L hs haddr he hlive]
  cases hpois : h.poisoned with
  | true =>
    exact ⟨_, closeHandle_poisoned L he henv hpid hpois true, .givenUp (.inl hpois)⟩
  | false =>
    obtain ⟨r, hr, hrc⟩ := hok.closes e w.lib
    have hrun := native_ok L (w := { w with openEnvs := w.openEnvs.filter (· ≠ e) })
      (c := .envClose e) hr
    refine ⟨_, ?_, .closed (L.call (.envClose e) w.lib).2 (.returned r.rc) hpois hpid⟩
    rw [closeHandle_returned L he henv hpid hpois hrun true]
    simp [closeResult, hrc]

end Calls

/-! ### What they leave -/

/-- The transaction `t` has been ended and taken from its environment `e`, which is open still. -/
structure Cleaned (w : World σ) (e : EnvRef) (key : String) (t : TxnRef) (w' : World σ)
    (h' : EnvHandle) : Prop where
  at_ : w'.envs e = some h'
  env : h'.env = some e
  ownPid : h'.pid = w'.pid
  key : h'.key = key
  live : h'.liveTxns = []
  txn : ∃ k s, w'.txns t = some k ∧ k.txn = none ∧ k.state = .aborted ∧ k.pid = w'.pid ∧
    w'.txnSexps t = some s ∧ s.addr = some t
  pid : w'.pid = w.pid
  envSexps : w'.envSexps = w.envSexps
  openEnvs : w'.openEnvs = w.openEnvs
  envs : ∀ e' ≠ e, w'.envs e' = w.envs e'

/-- The environment `e` and its transaction `t` are done with. -/
structure Recovered (L : Platform σ) (e : EnvRef) (key : String) (t : TxnRef) (w : World σ) :
    Prop where
  state : (mdbxTxnState_ L (.txn t)).run w = (.ok .aborted, w)
  closed : (mdbxEnvIsOpen_ (.env e)).run w = (.ok false, w)
  unregistered : ∃ h, w.envs e = some h ∧ h.liveTxns = []
  unlisted : (findOpenEnv key).run w = (.ok none, w)
  abortAgain : (mdbxTxnAbort_ L (.txn t)).run w = (.ok (), w)
  closeAgain : (mdbxEnvClose_ L (.env e)).run w = (.ok (), w)
  /-- No call was made on a panicked environment or on a transaction of one. -/
  calls : ∀ c past, c :: past <:+ w.log →
    (∀ e', c.call.env? = some e' → ¬ Panicked past e') ∧
      ∀ p, c.call.txn? = some p → ¬ Panicked past p.env

theorem Shut.frame {h : EnvHandle} (D : Shut e h w w') : w'.pid = w.pid ∧ w'.txns = w.txns ∧
    w'.envSexps = w.envSexps ∧ w'.txnSexps = w.txnSexps ∧
    w'.openEnvs = w.openEnvs.filter (· ≠ e) ∧ ∀ e' ≠ e, w'.envs e' = w.envs e' := by
  cases D with
  | givenUp => exact ⟨rfl, rfl, rfl, rfl, rfl, fun e' hne => by simp [World.givenUpEnv, hne]⟩
  | closed => exact ⟨rfl, rfl, rfl, rfl, rfl, fun e' hne => by simp [World.closedEnv, hne]⟩

/-- The close of a cleaned environment completes the recovery. -/
theorem Cleaned.recovered {key : String} {w₁ w₂ : World σ} {h₁ : EnvHandle} {se : EnvSexp}
    (C : Cleaned w e key t w₁ h₁) (G : Graph w) (he : w.envs e = some h) (hkey : h.key = key)
    (hpid : h.pid = w.pid) (hlisted : e ∈ w.openEnvs) (hs : w.envSexps e = some se)
    (haddr : se.addr = some e) (D : Shut e h₁ w₁ w₂) (I₂ : Inv {} w₂) :
    Recovered L e key t w₂ := by
  obtain ⟨hpid₂, htxns₂, hsexps₂, htsexps₂, hopen₂, henvs₂⟩ := D.frame
  obtain ⟨h₂, he₂, hnone, hlive₂⟩ := D.env
  obtain ⟨k, s, hk, htxn, hstate, hkpid, hts, htaddr⟩ := C.txn
  have hk₂ : w₂.txns t = some k := by rw [htxns₂, hk]
  have hts₂ : w₂.txnSexps t = some s := by rw [htsexps₂, hts]
  have hs₂ : w₂.envSexps e = some se := by rw [hsexps₂, C.envSexps, hs]
  have hx : (isTxnSexp (.txn t)).run w₂ = (.ok s, w₂) := by simp [isTxnSexp, hts₂]
  have hy : (isEnvSexp (.env e)).run w₂ = (.ok se, w₂) := by simp [isEnvSexp, hs₂]
  refine
    { state := ?_, closed := ?_, unregistered := ⟨h₂, he₂, hlive₂.trans C.live⟩, unlisted := ?_
      abortAgain := mdbxTxnAbort_idle L hts₂ fun t' h => ?_, closeAgain := ?_, calls := ?_ }
  · rw [mdbxTxnState_, Prog.bind_ok hx, htaddr]
    simp only
    rw [Prog.bind_ok (derefTxn_run hk₂), Prog.bind_ok currentPid_run,
      if_neg (by simp [hkpid, hpid₂]), hstate]
    rfl
  · rw [mdbxEnvIsOpen_, Prog.bind_ok hy, haddr]
    simp only
    rw [Prog.bind_ok (derefEnv_run he₂), Prog.bind_ok currentPid_run, hnone]
    rfl
  · rw [findOpenEnv_run I₂.graph]
    suffices w₂.openEnvs.find? (w₂.keyed key) = none by rw [this]
    refine List.find?_eq_none.mpr fun e' hmem hkeyed => ?_
    rw [hopen₂, C.openEnvs, List.mem_filter, decide_eq_true_eq] at hmem
    obtain ⟨hmem, hne⟩ := hmem
    obtain ⟨h', he', -⟩ := G.openHandle hmem
    rw [World.keyed, henvs₂ e' hne, C.envs e' hne, he', hpid₂, C.pid] at hkeyed
    obtain ⟨hkey', hpid'⟩ := of_decide_eq_true hkeyed
    exact hne (G.ownKeys hmem hlisted he' he hpid' hpid (hkey'.trans hkey.symm))
  · obtain rfl : t' = t := by simpa [htaddr, eq_comm] using h
    exact ⟨k, hk₂, htxn⟩
  · rw [mdbxEnvClose_shut L hs₂ haddr he₂ (hlive₂.trans C.live),
      closeHandle_detached L he₂ hnone]
  · intro c past hsuffix
    obtain ⟨⟨henv, htxn⟩, -⟩ := I₂.safe.suffix hsuffix
    exact ⟨fun e' h => (henv e' h).2.2, fun p h => (htxn p h).1.2.2⟩

theorem Cleaned.release {key : String} {h' : EnvHandle} (C : Cleaned w e key t w' h')
    {s : TxnSexp} (haddr : s.addr = some t) : Cleaned w e key t (w'.setTxnSexp t s) h' :=
  { C with
    txn := by
      obtain ⟨k, -, hk, htxn, hstate, hpid, -⟩ := C.txn
      exact ⟨k, s, hk, htxn, hstate, hpid, by simp, haddr⟩ }

/-- An environment is cleaned of a live transaction that is detached from it. -/
theorem Graph.cleaned (G : Graph w) {w₁ w₂ : World σ} {h₁ : EnvHandle} {s : TxnSexp}
    (he : w.envs e = some h) (ht : LiveTxn w e t k) (hpid : h.pid = w.pid)
    (hs : w.txnSexps t = some s) (haddr : s.addr = some t)
    (R : Refreshed e h w₁ w₂) (he₂ : w₂.envs e = some h₁) (hframe : w₁.pid = w.pid ∧
      w₁.envSexps = w.envSexps ∧ w₁.txnSexps = w.txnSexps ∧ w₁.openEnvs = w.openEnvs ∧
      w₁.envs = w.envs) :
    Cleaned w e h.key t (w₂.detached t k e h₁ .aborted) { h₁ with liveTxns := [] } := by
  obtain ⟨hpid₁, hsexps, htsexps, hopen, henvs⟩ := hframe
  obtain ⟨h₀, he₀, henv, hkpid, -⟩ := G.owner ht.at_ ht.owner
  obtain rfl : h = h₀ := Option.some.inj (he ▸ he₀)
  obtain ⟨roots, he₂'⟩ := R.env (by rw [henvs, he])
  obtain rfl : h₁ = { h with heapRoots := roots } := Option.some.inj (he₂ ▸ he₂')
  have hsame : w₂.pid = w.pid := R.pid.trans hpid₁
  have hs₂ : w₂.txnSexps t = some s := by rw [R.sexps.2, htsexps, hs]
  exact
    { at_ := by simp [World.detached], env := henv, ownPid := hpid.trans hsame.symm, key := rfl
      live := rfl
      txn := ⟨k.finished .aborted, s, by simp [World.detached], rfl, rfl,
        hkpid.symm.trans (hpid.trans hsame.symm), hs₂, haddr⟩
      pid := hsame, envSexps := R.sexps.1.trans hsexps, openEnvs := R.openEnvs.trans hopen
      envs := fun e' hne => by simp [World.detached, hne, R.envs_ne hne, henvs] }

/-- In every reachable state of the process that opened it, an environment that is not closed and
its live transaction `t` can be ended under a library that ends what it is asked to end, and after a
panic in either order. -/
theorem Reachable.recoverable (hL : L.Allocates) (hr : Reachable L w) {L' : Platform σ}
    (hok : L'.Recovers) {s : TxnSexp} {se : EnvSexp} (he : w.envs e = some h)
    (hopen : h.env ≠ none) (hpid : h.pid = w.pid) (ht : LiveTxn w e t k)
    (hse : w.envSexps e = some se) (headdr : se.addr = some e) (hs : w.txnSexps t = some s)
    (haddr : s.addr = some t) :
    (∃ w₁ w₂, (mdbxTxnAbort_ L' (.txn t)).run w = (.ok (), w₁) ∧
      (mdbxEnvClose_ L' (.env e)).run w₁ = (.ok (), w₂) ∧ Recovered L' e h.key t w₂) ∧
    (h.poisoned = true ∨ k.poisoned = true →
      ∃ w₁ w₂, (mdbxEnvClose_ L' (.env e)).run w = (.ok (), w₁) ∧
        (mdbxTxnAbort_ L' (.txn t)).run w₁ = (.ok (), w₂) ∧ Recovered L' e h.key t w₂) := by
  have I := hr.inv hL
  have hlisted := hr.lists hL e h he hopen
  obtain ⟨h₀, he₀, henv, hkpid, hpois⟩ := I.graph.owner ht.at_ ht.owner
  obtain rfl : h = h₀ := Option.some.inj (he ▸ he₀)
  set w' : World σ := { w with abandoned := w.abandoned ++ [.txn ⟨e, t⟩] } with hw'
  have hkept : w'.envs e = w.envs e := rfl
  have hframe : w'.pid = w.pid ∧ w'.envSexps = w.envSexps ∧ w'.txnSexps = w.txnSexps ∧
      w'.openEnvs = w.openEnvs ∧ w'.envs = w.envs := ⟨rfl, rfl, rfl, rfl, rfl⟩
  have hinv : ∀ {m : Pkg σ Unit} {w₁ w₂ : World σ}, Entry false (fun _ => False) w₁ m →
      m.run w₁ = (.ok (), w₂) → Inv {} w₁ → Inv {} w₂ := by
    intro m w₁ w₂ hm hrun I₁
    have := hm w₁ I₁.sound trivial
    rw [Triple, hrun] at this
    exact this.1.inv
  have hfinish : ∀ {w₁ : World σ} {h₁ : EnvHandle},
      (mdbxTxnAbort_ L' (.txn t)).run w = (.ok (), w₁) → Cleaned w e h.key t w₁ h₁ →
      ∃ w₂, (mdbxEnvClose_ L' (.env e)).run w₁ = (.ok (), w₂) ∧ Recovered L' e h.key t w₂ := by
    intro w₁ h₁ hrun C
    obtain ⟨w₂, hrun₂, D⟩ := mdbxEnvClose_succeeds L' hok (by rw [C.envSexps, hse]) headdr C.at_
      C.env C.ownPid C.live
    have I₁ := hinv (mdbxTxnAbort_entry L' _) hrun I
    exact ⟨w₂, hrun₂, C.recovered I.graph he rfl hpid hlisted hse headdr D
      (hinv (mdbxEnvClose_entry L' _) hrun₂ I₁)⟩
  refine ⟨?_, fun hpanicked => ?_⟩
  · cases hp : h.poisoned with
    | true =>
      have hrun := mdbxTxnAbort_poisoned L' I.graph hs haddr he ht (hkpid.symm.trans hpid) hp
      have C := I.graph.cleaned he ht hpid hs haddr .same (hkept.trans he) hframe
      obtain ⟨w₂, hrun₂, hrec⟩ := hfinish hrun (C.release haddr)
      exact ⟨_, w₂, hrun, hrun₂, hrec⟩
    | false =>
      obtain ⟨w₁, h₁, lib, R, he₁, hrun⟩ :=
        mdbxTxnAbort_succeeds L' hok I.graph hs haddr ⟨he, henv, hp, hpid⟩ ht
      have C := I.graph.cleaned he ht hpid hs haddr R he₁ ⟨rfl, rfl, rfl, rfl, rfl⟩
      obtain ⟨w₂, hrun₂, hrec⟩ := hfinish hrun (C.release haddr)
      exact ⟨_, w₂, hrun, hrun₂, hrec⟩
  · have hp : h.poisoned = true := hpanicked.elim id hpois
    have C := I.graph.cleaned he ht hpid hs haddr .same (hkept.trans he) hframe
    obtain ⟨w₁, h₁, k₁, P, hdetach⟩ := detachTxns_live L' I.graph he ht
    have hgiven : w₁ = w' ∧ h₁ = h ∧ k₁ = k := by
      cases P with
      | givenUp => exact ⟨rfl, rfl, rfl⟩
      | aborted lib rc hhealthy => simp [hp] at hhealthy
      | panicked lib hhealthy => simp [hp] at hhealthy
    obtain ⟨rfl, rfl, rfl⟩ := hgiven
    have hclose := closeHandle_poisoned L' C.at_ C.env C.ownPid hp true
    have hrun := (mdbxEnvClose_detaches L' hse headdr he hp hdetach C.at_ rfl).trans hclose
    have I₂ := hinv (mdbxEnvClose_entry L' _) hrun I
    have hrec := C.recovered (L := L') I.graph he rfl hpid hlisted hse headdr (.givenUp (.inl hp))
      I₂
    exact ⟨_, _, hrun, hrec.abortAgain, hrec⟩

theorem obliging_recovers : obliging.Recovers where
  aborts _ _ _ := ⟨⟨Status.success, ()⟩, rfl, rfl⟩
  closes _ _ := ⟨⟨Status.success, ()⟩, rfl, rfl⟩

/-- A library whose `mdbx_txn_commit` panics. -/
abbrev commitPanics : Platform Unit := .scripted fun
  | .txnCommit _ => none
  | _ => some Status.success

/-- After a commit that panicked the environment can be closed first. -/
theorem Reachable.recoverable_openAndCommit : ∃ w₁ w₂,
    (mdbxEnvClose_ obliging (.env 0)).run ((World.start () 1).after commitPanics openAndCommit)
      = (.ok (), w₁) ∧
    (mdbxTxnAbort_ obliging (.txn 1)).run w₁ = (.ok (), w₂) ∧ Recovered obliging 0 "key" 1 w₂ := by
  have hr : Reachable commitPanics ((World.start () 1).after commitPanics openAndCommit) :=
    ⟨(), 1, World.after_steps (by decide +kernel)⟩
  have he : ((World.start () 1).after commitPanics openAndCommit).envs 0
      = some ⟨some 0, true, 1, "key", "db", [1], (none, none)⟩ := by
    decide +kernel
  have ht : ((World.start () 1).after commitPanics openAndCommit).txns 1
      = some ⟨some ⟨0, 1⟩, some 0, .active, true, true, 1, 0, 0, false, []⟩ := by
    decide +kernel
  have hse : ((World.start () 1).after commitPanics openAndCommit).envSexps 0
      = some ⟨some 0, "db", false, true⟩ := by
    decide +kernel
  have hs : ((World.start () 1).after commitPanics openAndCommit).txnSexps 1
      = some ⟨some 1, some 0, true, "db"⟩ := by
    decide +kernel
  exact (Reachable.recoverable (Platform.scripted_allocates _) hr obliging_recovers he (by simp)
    (by decide +kernel) ⟨ht, rfl⟩ hse rfl hs rfl).2 (.inl rfl)

end Mdbx
