import Mdbx.Recovery

/-! What the two state queries report, and what the validators of the entry points accept. -/

namespace Mdbx

open ProofKit

variable {σ : Type} {lossy : Bool} {w : World σ} {L : Platform σ}

/-- Whether a transaction is over: ended by libmdbx, or given up where libmdbx must not be asked. -/
def World.Over (w : World σ) (p : TxnPtr) : Prop := Released w.log p ∨ .txn p ∈ w.abandoned

/-- Whether libmdbx has flagged the transaction as one that can only be rolled back. -/
def World.Flagged (L : Platform σ) (w : World σ) (p : TxnPtr) : Prop :=
  ∃ r, (L.call (.txnFlags p) w.lib).1 = .ok r ∧ r.out &&& flagTxnError ≠ 0

section Handles

variable {e : EnvRef} {t : TxnRef} {h : EnvHandle} {k : TxnHandle}

/-- A handle is of one environment. -/
theorem Inv.begun_env (I : Inv { lossy } w) (ht : LiveTxn w e t k) {pid : Pid} {e' : EnvPtr}
    (hb : Begun w.log pid ⟨e', t⟩) : e' = e :=
  congrArg TxnPtr.env (I.safe.begun_unique hb (I.traced.begun ht.at_ ht.owner) rfl).2

/-- A live transaction is not over. -/
theorem Inv.not_over (I : Inv { lossy } w) (ht : LiveTxn w e t k) : ¬ w.Over ⟨e, t⟩ := by
  rintro ((hended | htorn) | hmem)
  · exact I.traced.notEnded ht.at_ ht.owner (by simp) hended
  · exact I.traced.notTornDown ht.at_ ht.owner (by simp) htorn
  · exact I.conserved.txnHeld ht.at_ ht.owner (by simp) hmem

/-- A transaction that has an object and that no handle holds is over. -/
theorem Inv.over (I : Inv { lossy } w) {s : TxnSexp} (hs : w.txnSexps t = some s)
    (hheld : ∀ k, w.txns t = some k → k.owner = none) {pid : Pid}
    (hb : Begun w.log pid ⟨e, t⟩) : w.Over ⟨e, t⟩ := by
  by_contra hover
  obtain ⟨hrel, hmem⟩ := not_or.mp hover
  rcases I.conserved.txnKept hb hrel (by simp) (by simp [hs]) with ⟨k, hk, howner⟩ | h
  · simp [hheld k hk] at howner
  · exact hmem h

/-- Poison is a panic that has been reported. -/
theorem Inv.poisoned_iff (I : Inv { lossy } w) (he : w.envs e = some h) (henv : h.env = some e) :
    h.poisoned = true ↔ Panicked w.log e := by
  refine ⟨I.traced.poisoned he henv, fun hp => ?_⟩
  by_contra hhealthy
  exact I.traced.healthy he henv (by simpa using hhealthy) (by simp) hp

end Handles

/-! ### Environments -/

/-- `mdbx_env_is_open_` answers whether `env_from_sexp` would accept the object. -/
theorem mdbxEnvIsOpen_run (G : Graph w) {x : ℕ} {s : EnvSexp} (hs : w.envSexps x = some s) :
    ∃ b, (mdbxEnvIsOpen_ (.env x)).run w = (.ok b, w) ∧
      (b = true ↔ ∃ e, (envFromSexp (.env x)).run w = (.ok e, w)) := by
  have hx : (isEnvSexp (.env x)).run w = (.ok s, w) := by simp [isEnvSexp, hs]
  -- What the validator accepts is an open environment of this process.
  have haccepts : ∀ e, (envFromSexp (.env x)).run w = (.ok e, w) →
      ∃ h, OpenEnv w x h ∧ s.addr = some x := by
    intro e hr
    rcases envFromSexp_run G (.env x) with ⟨c, hr'⟩ | ⟨e', h, s', hx', hs', haddr, -, he⟩
    · rw [hr'] at hr
      cases hr
    · cases hx'
      cases hs.symm.trans hs'
      exact ⟨h, he, haddr⟩
  cases haddr : s.addr with
  | none =>
    refine ⟨false, ?_, by simp, ?_⟩
    · rw [mdbxEnvIsOpen_, Prog.bind_ok hx, haddr]
      rfl
    · rintro ⟨e, hr⟩
      obtain ⟨h, -, haddr'⟩ := haccepts e hr
      simp [haddr] at haddr'
  | some e =>
    obtain ⟨rfl, hsome⟩ := G.envSexp hs haddr
    obtain ⟨h, he⟩ := Option.isSome_iff_exists.mp hsome
    refine ⟨h.env.isSome && !h.poisoned && h.pid == w.pid, ?_, fun hopen => ?_, ?_⟩
    · rw [mdbxEnvIsOpen_, Prog.bind_ok hx, haddr]
      simp only
      rw [Prog.bind_ok (derefEnv_run he), Prog.bind_ok currentPid_run]
      rfl
    · simp only [Bool.and_eq_true, Bool.not_eq_true', beq_iff_eq] at hopen
      obtain ⟨⟨henv, hhealthy⟩, hpid⟩ := hopen
      obtain ⟨p, henv⟩ := Option.isSome_iff_exists.mp henv
      obtain rfl := G.env he henv
      exact ⟨p, envFromSexp_open hs haddr ⟨he, henv, hhealthy, hpid⟩⟩
    · rintro ⟨e', hr⟩
      obtain ⟨h', he', -⟩ := haccepts e' hr
      obtain rfl : h = h' := Option.some.inj (he ▸ he'.at_)
      simp [he'.env, he'.healthy, he'.pid]

/-! ### Transactions -/

/-- Whether `txn_from_sexp` accepts the object of `t`. -/
def World.Accepts (w : World σ) (t : TxnRef) : Prop :=
  ∃ t', (txnFromSexp (.txn t)).run w = (.ok t', w)

/-- What the answer `reported` about the transaction `t`, whose object is `s`, says of it. -/
structure Truthful (L : Platform σ) (w : World σ) (t : TxnRef) (s : TxnSexp)
    (reported : Reported) : Prop where
  usable : reported = .active ∨ reported = .failed ↔ w.Accepts t
  failed : reported = .failed ↔
    w.Accepts t ∧ ∃ e, Begun w.log w.pid ⟨e, t⟩ ∧ w.Flagged L ⟨e, t⟩
  poisoned : reported = .poisoned ↔
    ∃ e, Begun w.log w.pid ⟨e, t⟩ ∧ ¬ w.Over ⟨e, t⟩ ∧ Panicked w.log e
  ended : reported = .committed ∨ reported = .aborted ↔
    s.addr ≠ none ∧ ∃ e, Begun w.log w.pid ⟨e, t⟩ ∧ w.Over ⟨e, t⟩
  invalid : reported = .invalid ↔
    s.addr = none ∨ ∃ pid e, pid ≠ w.pid ∧ Begun w.log pid ⟨e, t⟩

section Answers

variable {e : EnvRef} {t : TxnRef} {h : EnvHandle} {k : TxnHandle} {s : TxnSexp}

/-- What `txn_from_sexp` accepts is a live transaction of a usable environment. -/
theorem World.Accepts.live (G : Graph w) (hs : w.txnSexps t = some s) (ha : w.Accepts t) :
    ∃ e h k, OpenEnv w e h ∧ LiveTxn w e t k ∧ s.addr = some t := by
  obtain ⟨t', hr⟩ := ha
  rcases txnFromSexp_run G (.txn t) with ⟨c, hr'⟩ | ⟨e, h, t'', k, s', hx, hs', haddr, -, he, hk⟩
  · rw [hr'] at hr
    cases hr
  · cases hx
    cases hs.symm.trans hs'
    exact ⟨e, h, k, he, hk, haddr⟩

/-- A reclaimed object. -/
theorem Truthful.reclaimed (I : Inv { lossy } w) (hs : w.txnSexps t = some s)
    (haddr : s.addr = none) : Truthful L w t s .invalid := by
  have hno : ¬ w.Accepts t := by
    intro ha
    obtain ⟨-, -, -, -, -, haddr'⟩ := ha.live I.graph hs
    simp [haddr] at haddr'
  have hheld : ∀ k, w.txns t = some k → k.owner = none := by
    intro k hk
    by_contra howner
    obtain ⟨e, howner⟩ := Option.ne_none_iff_exists'.mp howner
    obtain ⟨s', hs', haddr'⟩ := I.conserved.txnObject hk howner (by simp)
    cases hs.symm.trans hs'
    simp [haddr] at haddr'
  constructor
  · simp [hno]
  · simp [hno]
  · simp only [reduceCtorEq, false_iff]
    rintro ⟨e, hb, hover, -⟩
    exact hover (I.over hs hheld hb)
  · simp [haddr]
  · simp [haddr]

/-- A transaction of another process. -/
theorem Truthful.foreign (I : Inv { lossy } w) (hs : w.txnSexps t = some s)
    (hk : w.txns t = some k) (hpid : k.pid ≠ w.pid) : Truthful L w t s .invalid := by
  obtain ⟨e, hb⟩ := I.traced.came hk
  have hforeign : ∀ e', ¬ Begun w.log w.pid ⟨e', t⟩ := fun e' hb' =>
    hpid (I.safe.begun_unique hb hb' rfl).1
  have hno : ¬ w.Accepts t := by
    intro ha
    obtain ⟨e', h, k', he', hk', -⟩ := ha.live I.graph hs
    obtain rfl : k = k' := Option.some.inj (hk ▸ hk'.at_)
    have hb' := I.traced.begun hk hk'.owner
    obtain ⟨h', he'', -, hpid', -⟩ := I.graph.owner hk hk'.owner
    obtain rfl : h = h' := Option.some.inj (he'.at_ ▸ he'')
    exact hpid (hpid'.symm.trans he'.pid)
  constructor
  · simp [hno]
  · simp [hno]
  · simp [hforeign]
  · simp [hforeign]
  · simp only [true_iff]
    exact .inr ⟨k.pid, e, hpid, hb⟩

/-- No other process began a transaction whose handle is of this one. -/
theorem Inv.begun_here (I : Inv { lossy } w) (hk : w.txns t = some k) (hpid : k.pid = w.pid)
    {pid : Pid} {e : EnvPtr} (hb : Begun w.log pid ⟨e, t⟩) : pid = w.pid := by
  obtain ⟨e', hb'⟩ := I.traced.came hk
  exact (I.safe.begun_unique hb hb' rfl).1.trans hpid

/-- A live transaction of this process whose environment has panicked. -/
theorem Truthful.panicked (I : Inv { lossy } w) (hs : w.txnSexps t = some s)
    (haddr : s.addr = some t) (he : w.envs e = some h) (hk : LiveTxn w e t k) (hpid : k.pid = w.pid)
    (hpois : h.poisoned = true) : Truthful L w t s .poisoned := by
  obtain ⟨h', he', henv, hpid', -⟩ := I.graph.owner hk.at_ hk.owner
  obtain rfl : h = h' := Option.some.inj (he ▸ he')
  have hbegun : Begun w.log w.pid ⟨e, t⟩ := hpid ▸ I.traced.begun hk.at_ hk.owner
  have hno : ¬ w.Accepts t := by
    intro ha
    obtain ⟨e', h', k', he', hk', -⟩ := ha.live I.graph hs
    obtain rfl : k = k' := Option.some.inj (hk.at_ ▸ hk'.at_)
    obtain rfl : e = e' := Option.some.inj (hk.owner ▸ hk'.owner)
    obtain rfl : h = h' := Option.some.inj (he ▸ he'.at_)
    simp [he'.healthy] at hpois
  constructor
  · simp [hno]
  · simp [hno]
  · simp only [true_iff]
    exact ⟨e, hbegun, I.not_over hk, (I.poisoned_iff he henv).mp hpois⟩
  · simp only [reduceCtorEq, or_self, false_iff]
    rintro ⟨-, e', hb, hover⟩
    obtain rfl := I.begun_env hk hb
    exact I.not_over hk hover
  · simp only [reduceCtorEq, false_iff]
    rintro (haddr' | ⟨pid, e', hne, hb⟩)
    · simp [haddr] at haddr'
    · exact hne (I.begun_here hk.at_ hpid hb)

/-- A live transaction of this process that may be used. -/
theorem Truthful.accepted (I : Inv { lossy } w) (hs : w.txnSexps t = some s)
    (haddr : s.addr = some t) (he : OpenEnv w e h) (hk : LiveTxn w e t k) {reported : Reported}
    (hreported : reported = .failed ∧ w.Flagged L ⟨e, t⟩ ∨
      reported = .active ∧ ¬ w.Flagged L ⟨e, t⟩) : Truthful L w t s reported := by
  obtain ⟨h', he', henv, hpid', -⟩ := I.graph.owner hk.at_ hk.owner
  obtain rfl : h = h' := Option.some.inj (he.at_ ▸ he')
  have hpid : k.pid = w.pid := hpid'.symm.trans he.pid
  have hbegun : Begun w.log w.pid ⟨e, t⟩ := hpid ▸ I.traced.begun hk.at_ hk.owner
  have haccepts : w.Accepts t := ⟨t, txnFromSexp_live I.graph hs haddr he hk⟩
  have honly : ∀ e', Begun w.log w.pid ⟨e', t⟩ → e' = e := fun e' => I.begun_env hk
  have hhealthy : ¬ Panicked w.log e := by
    intro hp
    have := (I.poisoned_iff he.at_ he.env).mpr hp
    simp [he.healthy] at this
  have hliving : reported = .failed ∨ reported = .active :=
    hreported.imp And.left And.left
  constructor
  · simp only [haccepts, iff_true]
    exact hliving.symm
  · refine ⟨fun hr => ?_, ?_⟩
    · subst hr
      refine ⟨haccepts, e, hbegun, ?_⟩
      exact (hreported.resolve_right (by simp)).2
    · rintro ⟨-, e', hb, hflagged⟩
      obtain rfl := honly e' hb
      exact (hreported.resolve_right fun hr => hr.2 hflagged).1
  · refine iff_of_false (by rcases hliving with rfl | rfl <;> simp) ?_
    rintro ⟨e', hb, -, hp⟩
    obtain rfl := honly e' hb
    exact hhealthy hp
  · refine iff_of_false (by rcases hliving with rfl | rfl <;> simp) ?_
    rintro ⟨-, e', hb, hover⟩
    obtain rfl := honly e' hb
    exact I.not_over hk hover
  · refine iff_of_false (by rcases hliving with rfl | rfl <;> simp) ?_
    rintro (haddr' | ⟨pid, e', hne, hb⟩)
    · simp [haddr] at haddr'
    · exact hne (I.begun_here hk.at_ hpid hb)

/-- A transaction that this process has ended. -/
theorem Truthful.over (I : Inv { lossy } w) (hs : w.txnSexps t = some s) (haddr : s.addr = some t)
    (hk : w.txns t = some k) (howner : k.owner = none) (hpid : k.pid = w.pid) {reported : Reported}
    (hreported : reported = .committed ∨ reported = .aborted) : Truthful L w t s reported := by
  have hno : ¬ w.Accepts t := by
    intro ha
    obtain ⟨e', h', k', -, hk', -⟩ := ha.live I.graph hs
    obtain rfl : k = k' := Option.some.inj (hk ▸ hk'.at_)
    have := hk'.owner
    simp [howner] at this
  have hover : ∀ {pid e}, Begun w.log pid ⟨e, t⟩ → w.Over ⟨e, t⟩ := fun hb =>
    I.over hs (fun k' hk' => by obtain rfl := Option.some.inj (hk ▸ hk'); exact howner) hb
  constructor
  · refine iff_of_false (by rcases hreported with rfl | rfl <;> simp) hno
  · exact iff_of_false (by rcases hreported with rfl | rfl <;> simp) fun h => hno h.1
  · refine iff_of_false (by rcases hreported with rfl | rfl <;> simp) ?_
    rintro ⟨e, hb, hlive, -⟩
    exact hlive (hover hb)
  · obtain ⟨e, hb⟩ := I.traced.came hk
    exact iff_of_true hreported ⟨by simp [haddr], e, hpid ▸ hb, hover hb⟩
  · refine iff_of_false (by rcases hreported with rfl | rfl <;> simp) ?_
    rintro (haddr' | ⟨pid, e, hne, hb⟩)
    · simp [haddr] at haddr'
    · exact hne (I.begun_here hk hpid hb)

end Answers

/-- The answer about a live transaction of this process: poisoned without a call, or what libmdbx
says of it. -/
theorem activeState_run (G : Graph w) {e : EnvRef} {h : EnvHandle} {t : TxnRef} {k : TxnHandle}
    (he : w.envs e = some h) (hk : LiveTxn w e t k) (hpid : k.pid = w.pid) :
    h.poisoned = true ∧ (activeState L k).run w = (.ok .poisoned, w) ∨
      OpenEnv w e h ∧ ∃ r lib, (L.call (.txnFlags ⟨e, t⟩) w.lib).1 = .ok r ∧
        (activeState L k).run w = (.ok (if r.out &&& flagTxnError ≠ 0 then .failed else .active),
          w.called (.txnFlags ⟨e, t⟩) lib (.returned r.rc)) := by
  obtain ⟨h', he', henv, hpid', hpois⟩ := G.owner hk.at_ hk.owner
  obtain rfl : h = h' := Option.some.inj (he ▸ he')
  rcases eitherPoisoned_run G hk.at_ with ⟨e', h', hk', he'', hr⟩ | ⟨howner, -⟩
  swap
  · have := hk.owner
    simp [howner] at this
  obtain rfl : e = e' := Option.some.inj (hk.owner ▸ hk'.owner)
  obtain rfl : h = h' := Option.some.inj (he ▸ he'')
  cases hp : h.poisoned with
  | true =>
    refine .inl ⟨rfl, ?_⟩
    rw [activeState, Prog.bind_ok hr]
    simp [hp]
  | false =>
    have hhealthy : k.poisoned = false := by
      by_contra hkp
      simp [hpois (by simpa using hkp)] at hp
    refine .inr ⟨⟨he, henv, hp, hpid'.trans hpid⟩, ?_⟩
    obtain ⟨r, hreply⟩ := L.quiet (.txnFlags ⟨e, t⟩) w.lib rfl
    refine ⟨r, (L.call (.txnFlags ⟨e, t⟩) w.lib).2, hreply, ?_⟩
    rw [activeState, Prog.bind_ok hr, hp, hhealthy]
    simp only [Bool.or_self, Bool.false_eq_true, if_false]
    rw [txnFailed, G.txnPtr hk]
    simp only
    rw [bind_assoc, Prog.bind_ok (native_ok L hreply)]
    simp

/-- A query leaves the world as it is, or asks libmdbx for the flags of a transaction that this
process may use. -/
def World.Asked (w : World σ) (t : TxnRef) (w' : World σ) : Prop :=
  w' = w ∨ ∃ e lib rc, TxnUsable w.log w.pid ⟨e, t⟩ ∧
    w' = w.called (.txnFlags ⟨e, t⟩) lib (.returned rc)

/-- The answer about a transaction of another process. -/
theorem mdbxTxnState_foreign {t : TxnRef} {s : TxnSexp} {k : TxnHandle}
    (hs : w.txnSexps t = some s) (haddr : s.addr = some t) (hk : w.txns t = some k)
    (hpid : k.pid ≠ w.pid) : (mdbxTxnState_ L (.txn t)).run w = (.ok .invalid, w) := by
  have hx : (isTxnSexp (.txn t)).run w = (.ok s, w) := by simp [isTxnSexp, hs]
  rw [mdbxTxnState_, Prog.bind_ok hx, haddr]
  simp only
  rw [Prog.bind_ok (derefTxn_run hk), Prog.bind_ok currentPid_run]
  simp [hpid]

/-- The answer about an active transaction of this process. -/
theorem mdbxTxnState_active {t : TxnRef} {s : TxnSexp} {k : TxnHandle}
    (hs : w.txnSexps t = some s) (haddr : s.addr = some t) (hk : w.txns t = some k)
    (hpid : k.pid = w.pid) (hstate : k.state = .active) :
    (mdbxTxnState_ L (.txn t)).run w = (activeState L k).run w := by
  have hx : (isTxnSexp (.txn t)).run w = (.ok s, w) := by simp [isTxnSexp, hs]
  rw [mdbxTxnState_, Prog.bind_ok hx, haddr]
  simp only
  rw [Prog.bind_ok (derefTxn_run hk), Prog.bind_ok currentPid_run]
  simp [hpid, hstate]

/-- The answer about an ended transaction of this process. -/
theorem mdbxTxnState_ended {t : TxnRef} {s : TxnSexp} {k : TxnHandle}
    (hs : w.txnSexps t = some s) (haddr : s.addr = some t) (hk : w.txns t = some k)
    (hpid : k.pid = w.pid) (hstate : k.state ≠ .active) :
    ∃ reported, (reported = .committed ∨ reported = .aborted) ∧
      (mdbxTxnState_ L (.txn t)).run w = (.ok reported, w) := by
  have hx : (isTxnSexp (.txn t)).run w = (.ok s, w) := by simp [isTxnSexp, hs]
  rw [mdbxTxnState_, Prog.bind_ok hx, haddr]
  simp only
  rw [Prog.bind_ok (derefTxn_run hk), Prog.bind_ok currentPid_run]
  cases hended : k.state with
  | active => exact absurd hended hstate
  | committed => exact ⟨.committed, .inl rfl, by simp [hpid]⟩
  | aborted => exact ⟨.aborted, .inr rfl, by simp [hpid]⟩

/-- `mdbx_txn_state_` answers for every transaction object, and truthfully. -/
theorem mdbxTxnState_truthful (I : Inv { lossy } w) {t : TxnRef} {s : TxnSexp}
    (hs : w.txnSexps t = some s) :
    ∃ reported w', (mdbxTxnState_ L (.txn t)).run w = (.ok reported, w') ∧
      Truthful L w t s reported ∧ w.Asked t w' := by
  cases haddr : s.addr with
  | none =>
    have hx : (isTxnSexp (.txn t)).run w = (.ok s, w) := by simp [isTxnSexp, hs]
    refine ⟨.invalid, w, ?_, .reclaimed I hs haddr, .inl rfl⟩
    rw [mdbxTxnState_, Prog.bind_ok hx, haddr]
    rfl
  | some t' =>
    obtain ⟨rfl, hsome⟩ := I.graph.txnSexp hs haddr
    obtain ⟨k, hk⟩ := Option.isSome_iff_exists.mp hsome
    by_cases hpid : k.pid = w.pid
    swap
    · exact ⟨.invalid, w, mdbxTxnState_foreign hs haddr hk hpid, .foreign I hs hk hpid, .inl rfl⟩
    cases howner : k.owner with
    | none =>
      have hstate : k.state ≠ .active := fun h => by
        have := (I.graph.state hk).mp h
        simp [howner] at this
      obtain ⟨reported, hreported, hrun⟩ := mdbxTxnState_ended (L := L) hs haddr hk hpid hstate
      exact ⟨reported, w, hrun, .over I hs haddr hk howner hpid hreported, .inl rfl⟩
    | some e =>
      have hactive : k.state = .active := (I.graph.state hk).mpr (by simp [howner])
      have hlive : LiveTxn w e t' k := ⟨hk, howner⟩
      obtain ⟨h, he, -⟩ := I.graph.owner hk howner
      have hrun := mdbxTxnState_active (L := L) hs haddr hk hpid hactive
      rcases activeState_run (L := L) I.graph he hlive hpid with
        ⟨hpois, hr⟩ | ⟨hopen, r, lib, hreply, hr⟩
      · exact ⟨.poisoned, w, hrun.trans hr, .panicked I hs haddr he hlive hpid hpois, .inl rfl⟩
      · have hasked : w.Asked t' (w.called (.txnFlags ⟨e, t'⟩) lib (.returned r.rc)) :=
          .inr ⟨e, lib, r.rc, I.txnUsable hopen hlive (by simp) (by simp), rfl⟩
        by_cases hflag : r.out &&& flagTxnError ≠ 0
        · rw [if_pos hflag] at hr
          exact ⟨.failed, _, hrun.trans hr,
            .accepted I hs haddr hopen hlive (.inl ⟨rfl, r, hreply, hflag⟩), hasked⟩
        · rw [if_neg hflag] at hr
          have hclear : ¬ w.Flagged L ⟨e, t'⟩ := by
            rintro ⟨r', hreply', hflag'⟩
            rw [hreply] at hreply'
            cases hreply'
            exact hflag hflag'
          exact ⟨.active, _, hrun.trans hr,
            .accepted I hs haddr hopen hlive (.inr ⟨rfl, hclear⟩), hasked⟩

/-- In every reachable state both queries answer, and their answers say what the validators of the
entry points accept. -/
theorem Reachable.states (hr : Reachable L w) :
    (∀ x s, w.envSexps x = some s → ∃ b, (mdbxEnvIsOpen_ (.env x)).run w = (.ok b, w) ∧
      (b = true ↔ ∃ e, (envFromSexp (.env x)).run w = (.ok e, w))) ∧
    ∀ t s, w.txnSexps t = some s → ∃ reported w',
      (mdbxTxnState_ L (.txn t)).run w = (.ok reported, w') ∧ Truthful L w t s reported ∧
        w.Asked t w' := by
  have I : Inv { lossy := true } w := hr.invariant (by simp)
  exact ⟨fun x s hs => mdbxEnvIsOpen_run I.graph hs, fun t s hs => mdbxTxnState_truthful I hs⟩

/-- A transaction whose commit panicked reads as poisoned. -/
theorem Reachable.states_openAndCommit : ∃ w', (mdbxTxnState_ commitPanics (.txn 1)).run
    ((World.start () 1).after commitPanics openAndCommit) = (.ok .poisoned, w') := by
  have hr : Reachable commitPanics ((World.start () 1).after commitPanics openAndCommit) :=
    ⟨(), 1, World.after_steps (by decide +kernel)⟩
  have hlog : ((World.start () 1).after commitPanics openAndCommit).log =
      [⟨1, .txnCommit ⟨0, 1⟩, .panicked⟩, ⟨1, .txnBegin ⟨0, 1⟩ 0, .returned 0⟩,
        ⟨1, .envHeapRoots 0, .returned 0⟩, ⟨1, .envGetFlags 0, .returned 0⟩,
        ⟨1, .envOpen 0 "db" 0 0, .returned 0⟩, ⟨1, .envCreate 0, .returned 0⟩] := by
    decide +kernel
  have hkept : ((World.start () 1).after commitPanics openAndCommit).abandoned = [] := by
    decide +kernel
  have hpid : ((World.start () 1).after commitPanics openAndCommit).pid = 1 := by decide +kernel
  obtain ⟨reported, w', hrun, htrue, -⟩ :=
    (Reachable.states hr).2 1 ⟨some 1, some 0, true, "db"⟩ (by decide +kernel)
  obtain rfl : reported = .poisoned := by
    refine htrue.poisoned.mpr ⟨0, ?_, ?_, ?_⟩
    · rw [hlog, hpid]
      simp [Begun, Call.Begins, Status.success]
    · rintro ((hended | htorn) | hmem)
      · rw [hlog] at hended
        simp [Ended, Call.Ends, NativeCall.finishes] at hended
      · rw [hlog] at htorn
        simp [TornDown, Call.TearsDown] at htorn
      · simp [hkept] at hmem
    · rw [hlog]
      exact ⟨_, List.mem_cons_self, rfl, rfl⟩
  exact ⟨w', hrun⟩

/-- Once its object is reclaimed, a transaction that this process began and ended reads as
invalid. -/
theorem reclaimed_reads_invalid :
    Reachable obliging ((World.start () 1).after obliging (openAndCommit ++ [.finalize (.txn 1)])) ∧
      Begun ((World.start () 1).after obliging (openAndCommit ++ [.finalize (.txn 1)])).log 1
        ⟨0, 1⟩ ∧
      Ended ((World.start () 1).after obliging (openAndCommit ++ [.finalize (.txn 1)])).log
        ⟨0, 1⟩ ∧
      ((mdbxTxnState_ obliging (.txn 1)).run ((World.start () 1).after obliging
        (openAndCommit ++ [.finalize (.txn 1)]))).1 = .ok .invalid := by
  have hlog : ((World.start () 1).after obliging (openAndCommit ++ [.finalize (.txn 1)])).log =
      [⟨1, .envHeapRoots 0, .returned 0⟩, ⟨1, .txnCommit ⟨0, 1⟩, .returned 0⟩,
        ⟨1, .txnBegin ⟨0, 1⟩ 0, .returned 0⟩, ⟨1, .envHeapRoots 0, .returned 0⟩,
        ⟨1, .envGetFlags 0, .returned 0⟩, ⟨1, .envOpen 0 "db" 0 0, .returned 0⟩,
        ⟨1, .envCreate 0, .returned 0⟩] := by
    decide +kernel
  refine ⟨⟨(), 1, World.after_steps (by decide +kernel)⟩, ?_, ?_, by decide +kernel⟩
  · rw [hlog]
    simp [Begun, Call.Begins, Status.success]
  · rw [hlog]
    simp [Ended, Call.Ends, NativeCall.finishes, Status.threadMismatch]

end Mdbx
