import Mdbx.Runs

/-! What the package does to its handles and to the objects that R holds on them, as the moves of
an abstract machine, and what every move keeps.  Finalizers, allocations and the work inside a
transaction tend what is there; the entry points that open, begin and end also add to it or end
it. -/

namespace Mdbx

open ProofKit

variable {σ α β : Type} {L : Platform σ} {v : Waived} {w w' : World σ}

/-! ### Moves -/

namespace World

/-- The finalizer of the environment object `x` has run. -/
def EnvGone (w : World σ) (x : ℕ) : Prop := ∃ s, w.envSexps x = some s ∧ s.addr = none

/-- The finalizer of the transaction object `x` has run. -/
def TxnGone (w : World σ) (x : ℕ) : Prop := ∃ s, w.txnSexps x = some s ∧ s.addr = none

/-- What `e` is the number of, if anything, is a handle of this process. -/
def OwnEnv (w : World σ) (e : EnvRef) : Prop := ∀ h, w.envs e = some h → h.pid = w.pid

/-- The handle `e` may let go of its environment. -/
def Loose (w : World σ) (e : EnvRef) : Prop := w.EnvGone e ∨ w.OwnEnv e

/-- A number that no environment object bears. -/
def EnvVacant (w : World σ) (e : EnvRef) : Prop := e < w.next ∧ w.envSexps e = none

/-- A number that no transaction bears and that no registry holds. -/
def TxnVacant (w : World σ) (t : TxnRef) : Prop :=
  t < w.next ∧ w.txns t = none ∧ w.txnSexps t = none ∧
    ∀ e h, w.envs e = some h → t ∉ h.liveTxns

/-- `w'` has the trace of `w` and calls that the process of `w` has added to it. -/
def Logs (w w' : World σ) : Prop :=
  ∃ calls, w'.log = calls ++ w.log ∧ ∀ c ∈ calls, c.pid = w.pid

theorem Logs.same (h : w'.log = w.log) : w.Logs w' := ⟨[], h, by simp⟩

theorem Logs.call {c : Call} (h : w'.log = c :: w.log) (hpid : c.pid = w.pid) : w.Logs w' :=
  ⟨[c], h, by simp [hpid]⟩

theorem Logs.trans {w'' : World σ} (h : w.Logs w') (h' : w'.Logs w'') (hpid : w'.pid = w.pid) :
    w.Logs w'' := by
  obtain ⟨calls, hlog, hcalls⟩ := h
  obtain ⟨calls', hlog', hcalls'⟩ := h'
  refine ⟨calls' ++ calls, by rw [hlog', hlog, List.append_assoc], fun c hc => ?_⟩
  rcases List.mem_append.mp hc with hc | hc
  · exact (hcalls' c hc).trans hpid
  · exact hcalls c hc

end World

/-- One assignment of a finalizer, or of an entry point that neither makes nor ends a handle. -/
inductive Tend (w : World σ) : World σ → Prop where
  | aside {w' : World σ} (pid : w'.pid = w.pid) (next : w.next ≤ w'.next)
      (envs : w'.envs = w.envs) (txns : w'.txns = w.txns)
      (envSexps : w'.envSexps = w.envSexps) (txnSexps : w'.txnSexps = w.txnSexps)
      (logs : w.Logs w') : Tend w w'
  | env {e : EnvRef} {h g : EnvHandle} (at_ : w.envs e = some h) (pid : g.pid = h.pid)
      (env : g.env = h.env ∨ w.Loose e) (live : g.liveTxns ⊆ h.liveTxns) :
    Tend w (w.setEnv e (some g))
  | dropEnv {e : EnvRef} (loose : w.Loose e) : Tend w (w.setEnv e none)
  /-- A transaction is let go of once its object or its environment's is gone. -/
  | txn {t : TxnRef} {k j : TxnHandle} (at_ : w.txns t = some k) (pid : j.pid = k.pid)
      (owner : j.owner = k.owner ∨
        j.owner = none ∧ (w.TxnGone t ∨ ∃ e, k.owner = some e ∧ w.EnvGone e)) :
    Tend w (w.setTxn t (some j))
  | dropTxn {t : TxnRef} (gone : w.TxnGone t) : Tend w (w.setTxn t none)
  | loseEnv {x : ℕ} {s : EnvSexp} (at_ : w.envSexps x = some s) :
    Tend w (w.setEnvSexp x { s with addr := none })
  | loseTxn {x : ℕ} {s : TxnSexp} (at_ : w.txnSexps x = some s) :
    Tend w (w.setTxnSexp x { s with addr := none })

/-- One assignment of a finalizer or of an entry point that does not close an environment. -/
inductive Move (w : World σ) : World σ → Prop where
  | tend {w' : World σ} (h : Tend w w') : Move w w'
  | newEnv {e : EnvRef} {g : EnvHandle} (new : w.envs e = none) (lt : e < w.next)
      (pid : g.pid = w.pid) (live : g.liveTxns = []) : Move w (w.setEnv e (some g))
  | newEnvObject {e : EnvRef} {s : EnvSexp} (vacant : w.EnvVacant e) (addr : s.addr = some e) :
    Move w (w.setEnvSexp e s)
  | newTxn {t : TxnRef} {k : TxnHandle} {s : TxnSexp} {e : EnvRef} (vacant : w.TxnVacant t)
      (pid : k.pid = w.pid) (owner : k.owner = some e) (addr : s.addr = some t)
      (prot : s.prot = some e) : Move w ((w.setTxn t (some k)).setTxnSexp t s)
  | register {e : EnvRef} {h : EnvHandle} {t : TxnRef} {k : TxnHandle}
      (at_ : w.envs e = some h) (txn : w.txns t = some k) (owner : k.owner = some e) :
    Move w (w.setEnv e (some { h with liveTxns := h.liveTxns ++ [t] }))
  /-- A transaction of this process ends and its object lets go of the environment. -/
  | ended {t : TxnRef} {k j : TxnHandle} {s : TxnSexp} (at_ : w.txns t = some k)
      (own : k.pid = w.pid) (pid : j.pid = k.pid) (owner : j.owner = none)
      (object : w.txnSexps t = some s) :
    Move w ((w.setTxn t (some j)).setTxnSexp t { s with prot := none })

/-- A run of the first kind. -/
abbrev Tends : World σ → World σ → Prop := Relation.ReflTransGen Tend

/-- A run of both kinds. -/
abbrev Moves : World σ → World σ → Prop := Relation.ReflTransGen Move

theorem Tends.moves (h : Tends w w') : Moves w w' :=
  Relation.ReflTransGen.mono (fun _ _ h => .tend h) _ _ h

/-! ### What moves keep -/

/-- A property that no assignment of the first kind ends. -/
structure Stable (S : World σ → Prop) : Prop where
  tend : ∀ {w w'}, Tend w w' → S w → S w'

theorem Stable.and {S T : World σ → Prop} (hS : Stable S) (hT : Stable T) :
    Stable fun w => S w ∧ T w where
  tend h hs := ⟨hS.tend h hs.1, hT.tend h hs.2⟩

theorem Stable.tends {S : World σ → Prop} (hS : Stable S) (h : Tends w w') (hs : S w) : S w' := by
  induction h with
  | refl => exact hs
  | tail _ h ih => exact hS.tend h ih

/-- Objects stay, and a cleared pointer stays cleared. -/
theorem Tend.envSexp (h : Tend w w') {x : ℕ} {s : EnvSexp} (hs : w.envSexps x = some s) :
    ∃ s', w'.envSexps x = some s' ∧ (s'.addr = s.addr ∨ s'.addr = none) := by
  cases h with
  | aside _ _ _ _ henvSexps => exact ⟨s, henvSexps ▸ hs, .inl rfl⟩
  | @loseEnv y s₁ at_ =>
    by_cases hxy : x = y
    · subst hxy
      exact ⟨{ s₁ with addr := none }, by simp, .inr rfl⟩
    · exact ⟨s, by simpa [hxy] using hs, .inl rfl⟩
  | _ => exact ⟨s, hs, .inl rfl⟩

theorem Tend.txnSexp (h : Tend w w') {x : ℕ} {s : TxnSexp} (hs : w.txnSexps x = some s) :
    ∃ s', w'.txnSexps x = some s' ∧ s'.prot = s.prot ∧ (s'.addr = s.addr ∨ s'.addr = none) := by
  cases h with
  | aside _ _ _ _ _ htxnSexps => exact ⟨s, htxnSexps ▸ hs, rfl, .inl rfl⟩
  | @loseTxn y s₁ at_ =>
    by_cases hxy : x = y
    · subst hxy
      obtain rfl : s = s₁ := Option.some.inj (hs ▸ at_)
      exact ⟨{ s with addr := none }, by simp, rfl, .inr rfl⟩
    · exact ⟨s, by simpa [hxy] using hs, rfl, .inl rfl⟩
  | _ => exact ⟨s, hs, rfl, .inl rfl⟩

/-- None of them is new. -/
theorem Tend.noEnvSexp (h : Tend w w') {x : ℕ} (hx : w.envSexps x = none) :
    w'.envSexps x = none := by
  cases h with
  | aside _ _ _ _ henvSexps => exact henvSexps ▸ hx
  | @loseEnv y s at_ =>
    have hxy : x ≠ y := by
      rintro rfl
      simp [at_] at hx
    simpa [hxy] using hx
  | _ => exact hx

theorem Tend.noTxnSexp (h : Tend w w') {x : ℕ} (hx : w.txnSexps x = none) :
    w'.txnSexps x = none := by
  cases h with
  | aside _ _ _ _ _ htxnSexps => exact htxnSexps ▸ hx
  | @loseTxn y s at_ =>
    have hxy : x ≠ y := by
      rintro rfl
      simp [at_] at hx
    simpa [hxy] using hx
  | _ => exact hx

theorem Tend.noTxn (h : Tend w w') {t : TxnRef} (ht : w.txns t = none) : w'.txns t = none := by
  cases h with
  | aside _ _ _ htxns => exact htxns ▸ ht
  | @txn t' k j at_ =>
    have hne : t ≠ t' := by
      rintro rfl
      simp [at_] at ht
    simpa [hne] using ht
  | @dropTxn t' => simp [Function.update_apply, ht]
  | _ => exact ht

theorem Tend.pid (h : Tend w w') : w'.pid = w.pid := by
  cases h with
  | aside hpid => exact hpid
  | _ => rfl

theorem Tend.logs (h : Tend w w') : w.Logs w' := by
  cases h with
  | aside _ _ _ _ _ _ hlogs => exact hlogs
  | _ => exact .same rfl

theorem Tend.next (h : Tend w w') : w.next ≤ w'.next := by
  cases h with
  | aside _ hnext => exact hnext
  | _ => exact le_rfl

/-- A handle was there before, and registers nothing new. -/
theorem Tend.oldEnv (h : Tend w w') {e : EnvRef} {g : EnvHandle} (hg : w'.envs e = some g) :
    ∃ h, w.envs e = some h ∧ g.pid = h.pid ∧ g.liveTxns ⊆ h.liveTxns := by
  cases h with
  | aside _ _ henvs => exact ⟨g, henvs ▸ hg, rfl, List.Subset.refl _⟩
  | @env e' h g' at_ hpid _ hlive =>
    rw [World.setEnv_envs, Function.update_apply] at hg
    split at hg
    · subst e'
      cases hg
      exact ⟨h, at_, hpid, hlive⟩
    · exact ⟨g, hg, rfl, List.Subset.refl _⟩
  | dropEnv =>
    rw [World.setEnv_envs, Function.update_apply] at hg
    split at hg
    · cases hg
    · exact ⟨g, hg, rfl, List.Subset.refl _⟩
  | _ => exact ⟨g, hg, rfl, List.Subset.refl _⟩

/-- A transaction was there before, and has no new owner. -/
theorem Tend.oldTxn (h : Tend w w') {t : TxnRef} {j : TxnHandle} (hj : w'.txns t = some j) :
    ∃ k, w.txns t = some k ∧ j.pid = k.pid ∧ (j.owner = k.owner ∨
      j.owner = none ∧ (w.TxnGone t ∨ ∃ e, k.owner = some e ∧ w.EnvGone e)) := by
  cases h with
  | aside _ _ _ htxns => exact ⟨j, htxns ▸ hj, rfl, .inl rfl⟩
  | @txn t' k j' at_ hpid howner =>
    rw [World.setTxn_txns, Function.update_apply] at hj
    split at hj
    · subst t'
      cases hj
      exact ⟨k, at_, hpid, howner⟩
    · exact ⟨j, hj, rfl, .inl rfl⟩
  | dropTxn =>
    rw [World.setTxn_txns, Function.update_apply] at hj
    split at hj
    · cases hj
    · exact ⟨j, hj, rfl, .inl rfl⟩
  | _ => exact ⟨j, hj, rfl, .inl rfl⟩

/-- A handle stays, and keeps its environment unless it may let go of it. -/
theorem Tend.keptEnv (h : Tend w w') {e : EnvRef} {g : EnvHandle} (hg : w.envs e = some g) :
    w.Loose e ∨ ∃ g', w'.envs e = some g' ∧ g'.env = g.env ∧ g'.pid = g.pid := by
  cases h with
  | aside _ _ henvs => exact .inr ⟨g, henvs ▸ hg, rfl, rfl⟩
  | @env e' h g' at_ hpid henv =>
    by_cases hee : e = e'
    · subst hee
      obtain rfl : g = h := Option.some.inj (hg ▸ at_)
      exact henv.symm.imp_right fun henv => ⟨g', by simp, henv, hpid⟩
    · exact .inr ⟨g, by simpa [hee] using hg, rfl, rfl⟩
  | @dropEnv e' loose =>
    by_cases hee : e = e'
    · subst hee
      exact .inl loose
    · exact .inr ⟨g, by simpa [hee] using hg, rfl, rfl⟩
  | _ => exact .inr ⟨g, hg, rfl, rfl⟩

/-- A transaction stays, and keeps its environment unless its object or the environment's is
gone. -/
theorem Tend.keptTxn (h : Tend w w') {t : TxnRef} {k : TxnHandle} (hk : w.txns t = some k) :
    w.TxnGone t ∨ (∃ e, k.owner = some e ∧ w.EnvGone e) ∨
      ∃ j, w'.txns t = some j ∧ j.owner = k.owner ∧ j.pid = k.pid := by
  cases h with
  | aside _ _ _ htxns => exact .inr (.inr ⟨k, htxns ▸ hk, rfl, rfl⟩)
  | @txn t' k' j at_ hpid howner =>
    by_cases htt : t = t'
    · subst htt
      obtain rfl : k = k' := Option.some.inj (hk ▸ at_)
      rcases howner with howner | ⟨-, hgone | hgone⟩
      · exact .inr (.inr ⟨j, by simp, howner, hpid⟩)
      · exact .inl hgone
      · exact .inr (.inl hgone)
    · exact .inr (.inr ⟨k, by simpa [htt] using hk, rfl, rfl⟩)
  | @dropTxn t' gone =>
    by_cases htt : t = t'
    · subst htt
      exact .inl gone
    · exact .inr (.inr ⟨k, by simpa [htt] using hk, rfl, rfl⟩)
  | _ => exact .inr (.inr ⟨k, hk, rfl, rfl⟩)

/-- An object was there before. -/
theorem Tend.oldEnvSexp (h : Tend w w') {x : ℕ} {s' : EnvSexp} (hs : w'.envSexps x = some s') :
    ∃ s, w.envSexps x = some s ∧ (s'.addr = s.addr ∨ s'.addr = none) := by
  cases hold : w.envSexps x with
  | none => simp [h.noEnvSexp hold] at hs
  | some s =>
    obtain ⟨s₁, hs₁, haddr⟩ := h.envSexp hold
    obtain rfl : s₁ = s' := Option.some.inj (hs₁ ▸ hs)
    exact ⟨s, rfl, haddr⟩

theorem Tend.oldTxnSexp (h : Tend w w') {x : ℕ} {s' : TxnSexp} (hs : w'.txnSexps x = some s') :
    ∃ s, w.txnSexps x = some s ∧ s'.prot = s.prot ∧ (s'.addr = s.addr ∨ s'.addr = none) := by
  cases hold : w.txnSexps x with
  | none => simp [h.noTxnSexp hold] at hs
  | some s =>
    obtain ⟨s₁, hs₁, hprot, haddr⟩ := h.txnSexp hold
    obtain rfl : s₁ = s' := Option.some.inj (hs₁ ▸ hs)
    exact ⟨s, rfl, hprot, haddr⟩

theorem stable_envGone (x : ℕ) : Stable fun w : World σ => w.EnvGone x := by
  constructor
  rintro w w' h ⟨s, hs, hnone⟩
  obtain ⟨s', hs', haddr⟩ := h.envSexp hs
  exact ⟨s', hs', haddr.elim (·.trans hnone) id⟩

theorem stable_txnGone (x : ℕ) : Stable fun w : World σ => w.TxnGone x := by
  constructor
  rintro w w' h ⟨s, hs, hnone⟩
  obtain ⟨s', hs', -, haddr⟩ := h.txnSexp hs
  exact ⟨s', hs', haddr.elim (·.trans hnone) id⟩

theorem stable_ownEnv (e : EnvRef) : Stable fun w : World σ => w.OwnEnv e := by
  constructor
  intro w w' h hown g hg
  obtain ⟨g₀, hg₀, hpid, -⟩ := h.oldEnv hg
  rw [hpid, h.pid, hown g₀ hg₀]

theorem stable_envVacant (e : EnvRef) : Stable fun w : World σ => w.EnvVacant e := by
  constructor
  rintro w w' h ⟨hlt, hnone⟩
  exact ⟨hlt.trans_le h.next, h.noEnvSexp hnone⟩

theorem stable_txnVacant (t : TxnRef) : Stable fun w : World σ => w.TxnVacant t := by
  constructor
  rintro w w' h ⟨hlt, hnone, hsexp, hlive⟩
  refine ⟨hlt.trans_le h.next, h.noTxn hnone, h.noTxnSexp hsexp, fun e g hg hmem => ?_⟩
  obtain ⟨g₀, hg₀, -, hsub⟩ := h.oldEnv hg
  exact hlive e g₀ hg₀ (hsub hmem)

theorem stable_pid (pid : Pid) : Stable fun w : World σ => w.pid = pid where
  tend h hpid := h.pid.trans hpid

/-- Each of `entries` belongs to the environment `e`, or to none any more. -/
def World.Belong (w : World σ) (e : EnvRef) (entries : List TxnRef) : Prop :=
  ∀ t ∈ entries, ∀ k, w.txns t = some k → k.owner = some e ∨ k.owner = none

theorem stable_belong (e : EnvRef) (entries : List TxnRef) :
    Stable fun w : World σ => w.Belong e entries := by
  constructor
  intro w w' h hbelong t ht j hj
  obtain ⟨k, hk, -, howner⟩ := h.oldTxn hj
  rcases howner with howner | ⟨howner, -⟩
  · rw [howner]
    exact hbelong t ht k hk
  · exact .inr howner

/-- Numbers in use are below the next one, an object points to the handle of its own number, and a
registered transaction has no other environment. -/
structure Numbered (w : World σ) : Prop where
  env : ∀ {e h}, w.envs e = some h → e < w.next
  txn : ∀ {t k}, w.txns t = some k → t < w.next
  envSexp : ∀ {x s}, w.envSexps x = some s → x < w.next
  txnSexp : ∀ {x s}, w.txnSexps x = some s → x < w.next
  envAddr : ∀ {x s e}, w.envSexps x = some s → s.addr = some e → e = x
  txnAddr : ∀ {x s t}, w.txnSexps x = some s → s.addr = some t → t = x
  below : ∀ {e h}, w.envs e = some h → ∀ t ∈ h.liveTxns, t < w.next
  live : ∀ {e h}, w.envs e = some h → w.Belong e h.liveTxns

theorem Inv.numbered (I : Inv v w) : Numbered w where
  env := I.fresh.env
  txn := I.fresh.txn
  envSexp := I.fresh.envSexp
  txnSexp := I.fresh.txnSexp
  envAddr hs haddr := (I.graph.envSexp hs haddr).1
  txnAddr hs haddr := (I.graph.txnSexp hs haddr).1
  below he t ht := by
    obtain ⟨k, hk, -⟩ := (I.graph.live he t).mp ht
    exact I.fresh.txn hk
  live he t ht k hk := by
    obtain ⟨k', hk', howner⟩ := (I.graph.live he t).mp ht
    obtain rfl : k = k' := Option.some.inj (hk ▸ hk')
    exact .inl howner

theorem stable_numbered : Stable (Numbered (σ := σ)) := by
  constructor
  intro w w' h N
  constructor
  · intro e g hg
    obtain ⟨g₀, hg₀, -⟩ := h.oldEnv hg
    exact (N.env hg₀).trans_le h.next
  · intro t j hj
    obtain ⟨k, hk, -⟩ := h.oldTxn hj
    exact (N.txn hk).trans_le h.next
  · intro x s' hs'
    obtain ⟨s, hs, -⟩ := h.oldEnvSexp hs'
    exact (N.envSexp hs).trans_le h.next
  · intro x s' hs'
    obtain ⟨s, hs, -⟩ := h.oldTxnSexp hs'
    exact (N.txnSexp hs).trans_le h.next
  · intro x s' e hs' haddr
    obtain ⟨s, hs, hsame | hnone⟩ := h.oldEnvSexp hs'
    · exact N.envAddr hs (hsame ▸ haddr)
    · simp [hnone] at haddr
  · intro x s' t hs' haddr
    obtain ⟨s, hs, -, hsame | hnone⟩ := h.oldTxnSexp hs'
    · exact N.txnAddr hs (hsame ▸ haddr)
    · simp [hnone] at haddr
  · intro e g hg t ht
    obtain ⟨g₀, hg₀, -, hsub⟩ := h.oldEnv hg
    exact (N.below hg₀ t (hsub ht)).trans_le h.next
  · intro e g hg t ht
    obtain ⟨g₀, hg₀, -, hsub⟩ := h.oldEnv hg
    exact (stable_belong e _).tend h (N.live hg₀) t (hsub ht)

theorem Move.numbered (h : Move w w') (N : Numbered w) : Numbered w' := by
  cases h with
  | tend h => exact stable_numbered.tend h N
  | @newEnv e g new lt pid live =>
    refine { N with env := ?_, below := ?_, live := ?_ }
    · intro e' h he
      rw [World.setEnv_envs, Function.update_apply] at he
      split at he
      · subst e'
        exact lt
      · exact N.env he
    · intro e' h he t ht
      rw [World.setEnv_envs, Function.update_apply] at he
      split at he
      · cases he
        simp [live] at ht
      · exact N.below he t ht
    · intro e' h he t ht
      rw [World.setEnv_envs, Function.update_apply] at he
      split at he
      · cases he
        simp [live] at ht
      · exact N.live he t ht
  | @newEnvObject e s vacant addr =>
    refine { N with envSexp := ?_, envAddr := ?_ }
    · intro x s' hs
      rw [World.setEnvSexp_envSexps, Function.update_apply] at hs
      split at hs
      · subst x
        exact vacant.1
      · exact N.envSexp hs
    · intro x s' e' hs haddr
      rw [World.setEnvSexp_envSexps, Function.update_apply] at hs
      split at hs
      · cases hs
        exact (Option.some.inj (addr.symm.trans haddr)).symm.trans (Eq.symm ‹x = e›)
      · exact N.envAddr hs haddr
  | @newTxn t k s e vacant pid owner addr prot =>
    obtain ⟨hlt, hnone, hsexp, hlive⟩ := vacant
    refine { N with txn := ?_, txnSexp := ?_, txnAddr := ?_, live := ?_ }
    · intro t' k' hk
      rw [World.setTxnSexp_txns, World.setTxn_txns, Function.update_apply] at hk
      split at hk
      · subst t'
        exact hlt
      · exact N.txn hk
    · intro x s' hs
      rw [World.setTxnSexp_txnSexps, Function.update_apply] at hs
      split at hs
      · subst x
        exact hlt
      · exact N.txnSexp hs
    · intro x s' t' hs haddr
      rw [World.setTxnSexp_txnSexps, Function.update_apply] at hs
      split at hs
      · cases hs
        exact (Option.some.inj (addr.symm.trans haddr)).symm.trans (Eq.symm ‹x = t›)
      · exact N.txnAddr hs haddr
    · intro e' h he t' ht k' hk
      have hne : t' ≠ t := by
        rintro rfl
        exact hlive e' h he ht
      rw [World.setTxnSexp_txns, World.setTxn_txns, Function.update_of_ne hne] at hk
      exact N.live he t' ht k' hk
  | @register e h t k at_ txn owner =>
    refine { N with env := ?_, below := ?_, live := ?_ }
    · intro e' g he
      rw [World.setEnv_envs, Function.update_apply] at he
      split at he
      · subst e'
        exact N.env at_
      · exact N.env he
    · intro e' g he t' ht
      rw [World.setEnv_envs, Function.update_apply] at he
      split at he
      · cases he
        rcases List.mem_append.mp ht with ht | ht
        · exact N.below at_ t' ht
        · obtain rfl := List.mem_singleton.mp ht
          exact N.txn txn
      · exact N.below he t' ht
    · intro e' g he t' ht k' hk
      rw [World.setEnv_envs, Function.update_apply] at he
      split at he
      · subst e'
        cases he
        rcases List.mem_append.mp ht with ht | ht
        · exact N.live at_ t' ht k' hk
        · obtain rfl := List.mem_singleton.mp ht
          obtain rfl : k = k' := Option.some.inj (txn ▸ hk)
          exact .inl owner
      · exact N.live he t' ht k' hk
  | @ended t k j s at_ own pid owner object =>
    refine { N with txn := ?_, txnSexp := ?_, txnAddr := ?_, live := ?_ }
    · intro t' k' hk
      rw [World.setTxnSexp_txns, World.setTxn_txns, Function.update_apply] at hk
      split at hk
      · subst t'
        exact N.txn at_
      · exact N.txn hk
    · intro x s' hs
      rw [World.setTxnSexp_txnSexps, Function.update_apply] at hs
      split at hs
      · subst x
        exact N.txnSexp object
      · exact N.txnSexp hs
    · intro x s' t' hs haddr
      rw [World.setTxnSexp_txnSexps, Function.update_apply] at hs
      split at hs
      · subst x
        cases hs
        exact N.txnAddr object haddr
      · exact N.txnAddr hs haddr
    · intro e' h he t' ht k' hk
      rw [World.setTxnSexp_txns, World.setTxn_txns, Function.update_apply] at hk
      split at hk
      · cases hk
        exact .inr owner
      · exact N.live he t' ht k' hk

theorem Move.pid (h : Move w w') : w'.pid = w.pid := by
  cases h with
  | tend h => exact h.pid
  | _ => rfl

theorem Move.logs (h : Move w w') : w.Logs w' := by
  cases h with
  | tend h => exact h.logs
  | _ => exact .same rfl

theorem Move.envGone (h : Move w w') {x : ℕ} (hx : w.EnvGone x) : w'.EnvGone x := by
  cases h with
  | tend h => exact (stable_envGone x).tend h hx
  | @newEnvObject e s vacant =>
    obtain ⟨s₁, hs₁, hnone⟩ := hx
    have hne : x ≠ e := by
      rintro rfl
      simp [vacant.2] at hs₁
    exact ⟨s₁, by simpa [hne] using hs₁, hnone⟩
  | _ => exact hx

theorem Move.txnGone (h : Move w w') {x : ℕ} (hx : w.TxnGone x) : w'.TxnGone x := by
  obtain ⟨s, hs, hnone⟩ := hx
  cases h with
  | tend h => exact (stable_txnGone x).tend h ⟨s, hs, hnone⟩
  | @newTxn t k s' e vacant =>
    have hne : x ≠ t := by
      rintro rfl
      simp [vacant.2.2.1] at hs
    exact ⟨s, by simpa [hne] using hs, hnone⟩
  | @ended t k j s' at_ own pid owner object =>
    by_cases hxt : x = t
    · subst hxt
      obtain rfl : s = s' := Option.some.inj (hs ▸ object)
      exact ⟨{ s with prot := none }, by simp, hnone⟩
    · exact ⟨s, by simpa [hxt] using hs, hnone⟩
  | _ => exact ⟨s, hs, hnone⟩

theorem Moves.envGone (h : Moves w w') {x : ℕ} (hx : w.EnvGone x) : w'.EnvGone x := by
  induction h with
  | refl => exact hx
  | tail _ h ih => exact h.envGone ih

theorem Moves.txnGone (h : Moves w w') {x : ℕ} (hx : w.TxnGone x) : w'.TxnGone x := by
  induction h with
  | refl => exact hx
  | tail _ h ih => exact h.txnGone ih

theorem Moves.logs (h : Moves w w') : w'.pid = w.pid ∧ w.Logs w' := by
  induction h with
  | refl => exact ⟨rfl, .same rfl⟩
  | tail _ hmove ih => exact ⟨hmove.pid.trans ih.1, ih.2.trans hmove.logs ih.1⟩

theorem Moves.numbered (h : Moves w w') (N : Numbered w) : Numbered w' := by
  induction h with
  | refl => exact N
  | tail _ h ih => exact h.numbered ih

/-! ### Moves that end no transaction -/

/-- `w'` has the transactions of `w`, each in its environment still unless its object or the
environment's is gone. -/
def World.Spares (w w' : World σ) : Prop :=
  ∀ {t k e}, w.txns t = some k → k.owner = some e →
    w'.TxnGone t ∨ w'.EnvGone e ∨ ∃ j, w'.txns t = some j ∧ j.owner = some e

/-- Moves that spare the transactions that there are. -/
structure Adds (w w' : World σ) : Prop where
  moves : Moves w w'
  spares : w.Spares w'

theorem Adds.refl (w : World σ) : Adds w w :=
  ⟨.refl, fun hk howner => .inr (.inr ⟨_, hk, howner⟩)⟩

theorem Adds.trans {w'' : World σ} (h : Adds w w') (h' : Adds w' w'') : Adds w w'' where
  moves := h.moves.trans h'.moves
  spares := by
    intro t k e hk howner
    rcases h.spares hk howner with hgone | hgone | ⟨j, hj, hjowner⟩
    · exact .inl (h'.moves.txnGone hgone)
    · exact .inr (.inl (h'.moves.envGone hgone))
    · exact h'.spares hj hjowner

theorem Tend.adds (h : Tend w w') : Adds w w' where
  moves := .single (.tend h)
  spares := by
    intro t k e hk howner
    rcases h.keptTxn hk with hgone | ⟨e', howner', hgone⟩ | ⟨j, hj, hjowner, -⟩
    · exact .inl ((stable_txnGone t).tend h hgone)
    · obtain rfl := Option.some.inj (howner.symm.trans howner')
      exact .inr (.inl ((stable_envGone e).tend h hgone))
    · exact .inr (.inr ⟨j, hj, hjowner.trans howner⟩)

theorem Tends.adds (h : Tends w w') : Adds w w' := by
  induction h with
  | refl => exact .refl _
  | tail _ h ih => exact ih.trans h.adds

/-- A move that touches no transaction that there is. -/
theorem Move.adds (h : Move w w') (hsame : ∀ {t k}, w.txns t = some k → w'.txns t = some k) :
    Adds w w' :=
  ⟨.single h, fun hk howner => .inr (.inr ⟨_, hsame hk, howner⟩)⟩

end Mdbx
