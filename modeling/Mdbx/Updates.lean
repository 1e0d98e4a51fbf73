import Mdbx.Invariant

/-! How the parts of the invariant fare under the assignments that the package makes. -/

namespace Mdbx

open ProofKit

variable {σ : Type} {w : World σ}

/-! ### Numbers in use -/

namespace NativeCall

theorem Below.mono {c : NativeCall} {m n : ℕ} (h : c.Below m) (hmn : m ≤ n) : c.Below n :=
  ⟨fun e he => (h.1 e he).trans_le hmn, fun e he => (h.2.1 e he).trans_le hmn,
    fun t ht => ⟨(h.2.2.1 t ht).1.trans_le hmn, (h.2.2.1 t ht).2.trans_le hmn⟩,
    fun t flags ht => (h.2.2.2 t flags ht).trans_le hmn⟩

end NativeCall

theorem Abandoned.Below.mono {a : Abandoned} {m n : ℕ} (h : a.Below m) (hmn : m ≤ n) :
    a.Below n := by
  cases a with
  | env e => exact lt_of_lt_of_le h hmn
  | txn t => exact ⟨h.1.trans_le hmn, h.2.trans_le hmn⟩
  | root r => trivial

namespace Fresh

theorem called (F : Fresh w) {c : NativeCall} (hc : c.Below w.next) (lib : σ) (o : Outcome) :
    Fresh (w.called c lib o) :=
  { F with
    log := by
      intro c' hmem
      rcases List.mem_cons.mp hmem with rfl | hmem
      · exact hc
      · exact F.log hmem }

/-- Replace a handle by one of the same process. -/
theorem setEnv (F : Fresh w) {e : EnvRef} {h g : EnvHandle} (he : w.envs e = some h)
    (hpid : g.pid = h.pid) : Fresh (w.setEnv e (some g)) :=
  { F with
    env := by have := @F.env; grind
    envPid := by have := @F.envPid; grind }

theorem deleteEnv (F : Fresh w) (e : EnvRef) : Fresh (w.setEnv e none) :=
  { F with
    env := by have := @F.env; grind
    envPid := by have := @F.envPid; grind }

theorem setTxn (F : Fresh w) {t : TxnRef} {k : TxnHandle} (ht : t < w.next)
    (hpid : k.pid ∈ w.pid :: w.forebears) : Fresh (w.setTxn t (some k)) :=
  { F with
    txn := by have := @F.txn; grind
    txnPid := by have := @F.txnPid; grind }

theorem deleteTxn (F : Fresh w) (t : TxnRef) : Fresh (w.setTxn t none) :=
  { F with
    txn := by have := @F.txn; grind
    txnPid := by have := @F.txnPid; grind }

theorem setEnvSexp (F : Fresh w) {x : ℕ} (hx : x < w.next) (s : EnvSexp) :
    Fresh (w.setEnvSexp x s) :=
  { F with envSexp := by have := @F.envSexp; grind }

theorem setTxnSexp (F : Fresh w) {x : ℕ} (hx : x < w.next) (s : TxnSexp) :
    Fresh (w.setTxnSexp x s) :=
  { F with txnSexp := by have := @F.txnSexp; grind }

theorem abandon (F : Fresh w) {a : List Abandoned} (ha : ∀ b ∈ a, b.Below w.next) :
    Fresh { w with abandoned := w.abandoned ++ a } :=
  { F with
    abandoned := by
      intro b hb
      rcases List.mem_append.mp hb with hb | hb
      · exact F.abandoned hb
      · exact ha b hb }

/-- Draw a number. -/
theorem draw (F : Fresh w) : Fresh { w with next := w.next + 1 } where
  env he := (F.env he).trans (Nat.lt_succ_self _)
  txn ht := (F.txn ht).trans (Nat.lt_succ_self _)
  envSexp hx := (F.envSexp hx).trans (Nat.lt_succ_self _)
  txnSexp hx := (F.txnSexp hx).trans (Nat.lt_succ_self _)
  abandoned ha := (F.abandoned ha).mono (Nat.le_succ _)
  log hc := (F.log hc).mono (Nat.le_succ _)
  envPid := F.envPid
  txnPid := F.txnPid

/-- A handle of this process under a number that is in use. -/
theorem newEnv (F : Fresh w) {e : EnvRef} {h : EnvHandle} (he : e < w.next)
    (hpid : h.pid = w.pid) : Fresh (w.setEnv e (some h)) :=
  { F with
    env := by have := @F.env; grind
    envPid := by have := @F.envPid; grind }

theorem forked (F : Fresh w) (child : Pid) : Fresh (w.forked child) :=
  { F with
    envPid := fun he => List.mem_cons_of_mem _ (F.envPid he)
    txnPid := fun ht => List.mem_cons_of_mem _ (F.txnPid ht) }

end Fresh

/-! ### Handles, registries and objects -/

namespace Graph

/-- Assign to fields that the graph does not depend on, or poison. -/
theorem setEnv (G : Graph w) {e : EnvRef} {h g : EnvHandle} (he : w.envs e = some h)
    (henv : g.env = h.env) (hpid : g.pid = h.pid) (hlive : g.liveTxns = h.liveTxns)
    (hpois : h.poisoned = true → g.poisoned = true) (hkey : g.key = h.key ∨ e ∉ w.openEnvs) :
    Graph (w.setEnv e (some g)) :=
  { G with
    env := by have := @G.env; grind
    live := by have := @G.live; grind
    few := by have := @G.few; grind
    owner := by have := @G.owner; grind
    openHandle := by have := @G.openHandle; grind
    ownKeys := by have := @G.ownKeys; grind
    envSexp := by have := @G.envSexp; grind }

/-- Assign to fields of a transaction that the graph does not depend on, or poison it after its
environment. -/
theorem setTxn (G : Graph w) {t : TxnRef} {k j : TxnHandle} (ht : w.txns t = some k)
    (htxn : j.txn = k.txn) (howner : j.owner = k.owner) (hstate : j.state = k.state)
    (hpid : j.pid = k.pid)
    (hpois : j.poisoned = k.poisoned ∨
      ∀ e h, k.owner = some e → w.envs e = some h → h.poisoned = true) :
    Graph (w.setTxn t (some j)) :=
  { G with
    live := by have := @G.live; grind
    owner := by have := @G.owner; grind
    txn := by have := @G.txn; grind
    state := by have := @G.state; grind
    txnSexp := by have := @G.txnSexp; grind }

/-- A new handle, closed and without transactions. -/
theorem newEnv (G : Graph w) {e : EnvRef} {h : EnvHandle} (hnew : w.envs e = none)
    (henv : h.env = none) (hlive : h.liveTxns = []) : Graph (w.setEnv e (some h)) :=
  { G with
    env := by have := @G.env; grind
    live := by
      have := @G.live
      have := @G.owner
      grind
    few := by have := @G.few; grind
    owner := by have := @G.owner; grind
    openHandle := by have := @G.openHandle; grind
    ownKeys := by
      have := @G.openHandle
      have := @G.ownKeys
      grind
    envSexp := by have := @G.envSexp; grind }

/-- Attach the environment to a handle that has none. -/
theorem attachEnv (G : Graph w) {e : EnvRef} {h : EnvHandle} (he : w.envs e = some h)
    (henv : h.env = none) : Graph (w.setEnv e (some { h with env := some e })) :=
  { G with
    env := by have := @G.env; grind
    live := by have := @G.live; grind
    few := by have := @G.few; grind
    owner := by have := @G.owner; grind
    openHandle := by have := @G.openHandle; grind
    ownKeys := by
      have := @G.openHandle
      have := @G.ownKeys
      grind
    envSexp := by have := @G.envSexp; grind }

theorem noOwner (G : Graph w) {e : EnvRef} {h : EnvHandle} (he : w.envs e = some h)
    (hlive : h.liveTxns = []) {t : TxnRef} {k : TxnHandle} (ht : w.txns t = some k) :
    k.owner ≠ some e := by
  intro howner
  have := (G.live he t).mpr ⟨k, ht, howner⟩
  simp [hlive] at this

/-- Detach the environment from a handle without transactions that is not registered. -/
theorem detachEnv (G : Graph w) {e : EnvRef} {h g : EnvHandle} (he : w.envs e = some h)
    (hlive : h.liveTxns = []) (hopen : e ∉ w.openEnvs) (henv' : g.env = none)
    (hlive' : g.liveTxns = []) : Graph (w.setEnv e (some g)) :=
  have hnone := fun t k => G.noOwner he hlive (t := t) (k := k)
  { G with
    env := by have := @G.env; grind
    live := by have := @G.live; grind
    few := by have := @G.few; grind
    owner := by have := @G.owner; grind
    openHandle := by have := @G.openHandle; grind
    ownKeys := by have := @G.ownKeys; grind
    envSexp := by have := @G.envSexp; grind }

theorem unregisterEnv (G : Graph w) (e : EnvRef) :
    Graph { w with openEnvs := w.openEnvs.filter (· ≠ e) } :=
  { G with
    openNodup := G.openNodup.filter _
    openHandle := fun h => G.openHandle (List.mem_of_mem_filter h)
    ownKeys := fun h g => G.ownKeys (List.mem_of_mem_filter h) (List.mem_of_mem_filter g) }

/-- Register an environment under a key that no other of its process has. -/
theorem registerEnv (G : Graph w) {e : EnvRef} {h : EnvHandle} (he : w.envs e = some h)
    (henv : h.env = some e) (hopen : e ∉ w.openEnvs)
    (hkey : ∀ e' g, e' ∈ w.openEnvs → w.envs e' = some g → g.pid = w.pid → g.key ≠ h.key) :
    Graph { w with openEnvs := w.openEnvs ++ [e] } :=
  { G with
    openNodup := by
      refine G.openNodup.append (List.nodup_singleton e) ?_
      simpa using hopen
    openHandle := by have := @G.openHandle; grind
    ownKeys := by have := @G.ownKeys; grind }

/-- Delete a handle that is detached and that no object addresses. -/
theorem deleteEnv (G : Graph w) {e : EnvRef} {h : EnvHandle} (he : w.envs e = some h)
    (henv : h.env = none) (hsexp : ∀ x s, w.envSexps x = some s → s.addr ≠ some e) :
    Graph (w.setEnv e none) :=
  { G with
    env := by have := @G.env; grind
    live := by have := @G.live; grind
    few := by have := @G.few; grind
    owner := by have := @G.owner; grind
    openHandle := by have := @G.openHandle; grind
    ownKeys := by have := @G.ownKeys; grind
    envSexp := by have := @G.envSexp; grind }

/-- Delete a handle that has ended and that no object addresses. -/
theorem deleteTxn (G : Graph w) {t : TxnRef} {k : TxnHandle} (ht : w.txns t = some k)
    (howner : k.owner = none) (hsexp : ∀ x s, w.txnSexps x = some s → s.addr ≠ some t) :
    Graph (w.setTxn t none) :=
  { G with
    live := by have := @G.live; grind
    owner := by have := @G.owner; grind
    txn := by have := @G.txn; grind
    state := by have := @G.state; grind
    txnSexp := by have := @G.txnSexp; grind }

/-- Give a handle its object, or take the address from it. -/
theorem setEnvSexp (G : Graph w) {x : ℕ} {s : EnvSexp}
    (hs : ∀ e, s.addr = some e → e = x ∧ (w.envs x).isSome) : Graph (w.setEnvSexp x s) :=
  { G with envSexp := by have := @G.envSexp; grind }

theorem setTxnSexp (G : Graph w) {x : ℕ} {s : TxnSexp}
    (hs : ∀ t, s.addr = some t → t = x ∧ (w.txns x).isSome) : Graph (w.setTxnSexp x s) :=
  { G with txnSexp := by have := @G.txnSexp; grind }

/-- Register a new transaction on an open environment that has none. -/
theorem registerTxn (G : Graph w) {e : EnvRef} {h : EnvHandle} {t : TxnRef} {k : TxnHandle}
    (he : w.envs e = some h) (henv : h.env = some e) (hlive : h.liveTxns = [])
    (hnew : w.txns t = none) (howner : k.owner = some e) (htxn : k.txn = some ⟨e, t⟩)
    (hstate : k.state = .active) (hpois : k.poisoned = false) (hpid : k.pid = h.pid) :
    Graph ((w.setTxn t (some k)).setEnv e (some { h with liveTxns := [t] })) :=
  have hnone := fun t k => G.noOwner he hlive (t := t) (k := k)
  { G with
    env := by have := @G.env; grind
    live := by have := @G.live; grind
    few := by have := @G.few; grind
    owner := by have := @G.owner; grind
    txn := by have := @G.txn; grind
    state := by have := @G.state; grind
    openHandle := by have := @G.openHandle; grind
    ownKeys := by have := @G.ownKeys; grind
    envSexp := by have := @G.envSexp; grind
    txnSexp := by have := @G.txnSexp; grind }

/-- A live transaction is the only one of its environment. -/
theorem liveTxns_eq (G : Graph w) {t : TxnRef} {k : TxnHandle} {e : EnvRef} {h : EnvHandle}
    (ht : w.txns t = some k) (howner : k.owner = some e) (he : w.envs e = some h) :
    h.liveTxns = [t] := by
  have hmem := (G.live he t).mpr ⟨k, ht, howner⟩
  have hfew := G.few he
  rcases hl : h.liveTxns with _ | ⟨t', _ | ⟨t'', rest⟩⟩
  · simp [hl] at hmem
  · simpa [hl, eq_comm] using hmem
  · simp [hl] at hfew

/-- End a transaction and drop it from the registry of its environment. -/
theorem detachTxn (G : Graph w) {e : EnvRef} {h : EnvHandle} {t : TxnRef} {k : TxnHandle}
    (he : w.envs e = some h) (ht : w.txns t = some k) (howner : k.owner = some e)
    {state : TxnState} (hstate : state ≠ .active) :
    Graph ((w.setTxn t (some { k with txn := none, state := state, owner := none })).setEnv e
      (some { h with liveTxns := [] })) :=
  have honly : h.liveTxns = [t] := G.liveTxns_eq ht howner he
  { G with
    env := by have := @G.env; grind
    live := by have := @G.live; grind
    few := by have := @G.few; grind
    owner := by have := @G.owner; grind
    txn := by have := @G.txn; grind
    state := by have := @G.state; grind
    openHandle := by have := @G.openHandle; grind
    ownKeys := by have := @G.ownKeys; grind
    envSexp := by have := @G.envSexp; grind
    txnSexp := by have := @G.txnSexp; grind }

/-- In a child no handle is its own. -/
theorem forked (G : Graph w) {child : Pid} (hpid : ∀ e h, w.envs e = some h → h.pid ≠ child) :
    Graph (w.forked child) :=
  { G with
    ownKeys := by
      intro e e' h g _ _ he _ hp
      exact absurd hp (hpid e h he) }

end Graph

/-! ### What the trace says about handles -/

namespace Traced

variable {v : Waived}

/-- A call that closes no environment of a handle; if it panicked, the environment waits for its
poison callback, and if it ended a transaction, the handle is about to follow. -/
theorem called (T : Traced v w) {c : NativeCall} {lib : σ} {o : Outcome}
    (hcloses : ∀ e, ¬ Call.Closes ⟨w.pid, c, o⟩ e)
    (hpanics : ∀ e, Call.Panics ⟨w.pid, c, o⟩ e → v.poison = some e)
    (hends : ∀ t, Call.Ends ⟨w.pid, c, o⟩ t → v.ending = some t.id)
    (hcommits : ∀ t, Call.Commits ⟨w.pid, c, o⟩ t → v.ending = some t.id)
    (htears : ∀ t, Call.TearsDown ⟨w.pid, c, o⟩ t → v.ending = some t.id) :
    Traced v (w.called c lib o) where
  created he hp := by
    rw [World.called_log, created_cons]
    exact .inr (T.created he hp)
  notClosed he hp := by
    rw [World.called_log, closed_cons]
    exact not_or.mpr ⟨hcloses _, T.notClosed he hp⟩
  healthy he hp hh hv := by
    rw [World.called_log, panicked_cons]
    exact not_or.mpr ⟨fun h => hv (hpanics _ h), T.healthy he hp hh hv⟩
  poisoned he henv hp := by
    rw [World.called_log, panicked_cons]
    exact .inr (T.poisoned he henv hp)
  came ht := by
    obtain ⟨e, hb⟩ := T.came ht
    exact ⟨e, (begun_cons _ _ _ _).mpr (.inr hb)⟩
  begun ht hk := by
    rw [World.called_log, begun_cons]
    exact .inr (T.begun ht hk)
  notEnded ht hk hv := by
    rw [World.called_log, ended_cons]
    exact not_or.mpr ⟨fun h => hv (hends _ h), T.notEnded ht hk hv⟩
  notTornDown ht hk hv := by
    rw [World.called_log, tornDown_cons]
    exact not_or.mpr ⟨fun h => hv (htears _ h), T.notTornDown ht hk hv⟩
  committed {t k} ht hv := by
    have hno : ∀ e, ¬ Call.Commits ⟨w.pid, c, o⟩ ⟨e, t⟩ := fun e h => hv (hcommits _ h)
    simp only [World.called_log, committed_cons, hno, false_or]
    exact T.committed ht hv

/-- Assign to fields that the trace does not speak about. -/
theorem setEnv (T : Traced v w) {e : EnvRef} {h g : EnvHandle} (he : w.envs e = some h)
    (henv : g.env = h.env ∨ g.env = none) (hpid : g.pid = h.pid)
    (hpois : g.poisoned = h.poisoned) : Traced v (w.setEnv e (some g)) :=
  { T with
    created := by have := @T.created; grind
    notClosed := by have := @T.notClosed; grind
    healthy := by have := @T.healthy; grind
    poisoned := by have := @T.poisoned; grind }

/-- The poison callback has run. -/
theorem poisonEnv {e : EnvRef} {h : EnvHandle} (T : Traced { v with poison := some e } w)
    (he : w.envs e = some h) (hpanicked : h.env = some e → Panicked w.log e) :
    Traced v (w.setEnv e (some { h with poisoned := true })) where
  created := by have := @T.created; grind
  notClosed := by have := @T.notClosed; grind
  healthy := by have := @T.healthy; grind
  poisoned := by have := @T.poisoned; grind
  came := T.came
  begun := T.begun
  notEnded := T.notEnded
  notTornDown := T.notTornDown
  committed := T.committed

/-- Waive the panic of one environment more. -/
theorem waivePoison (T : Traced v w) (hv : v.poison = none) (e : Option EnvRef) :
    Traced { v with poison := e } w where
  created := T.created
  notClosed := T.notClosed
  healthy he hp hh _ := T.healthy he hp hh (by simp [hv])
  poisoned := T.poisoned
  came := T.came
  begun := T.begun
  notEnded := T.notEnded
  notTornDown := T.notTornDown
  committed := T.committed

/-- No panic was on its way after all. -/
theorem unwaivePoison {e : EnvRef} (T : Traced { v with poison := some e } w)
    (he : ¬ Panicked w.log e) : Traced v w where
  created := T.created
  notClosed := T.notClosed
  healthy {e'} {h} he' hp hh _ := by
    by_cases heq : e = e'
    · exact heq ▸ he
    · exact T.healthy he' hp hh (by simpa using heq)
  poisoned := T.poisoned
  came := T.came
  begun := T.begun
  notEnded := T.notEnded
  notTornDown := T.notTornDown
  committed := T.committed

theorem waiveBegun (T : Traced v w) (p : Option TxnPtr) : Traced { v with begun := p } w :=
  { T with }

theorem unwaiveBegun {p : Option TxnPtr} (T : Traced { v with begun := p } w) : Traced v w :=
  { T with }

theorem setTxn (T : Traced v w) {t : TxnRef} {k j : TxnHandle} (ht : w.txns t = some k)
    (howner : j.owner = k.owner) (hstate : j.state = k.state) (hpid : j.pid = k.pid) :
    Traced v (w.setTxn t (some j)) :=
  { T with
    came := by have := @T.came; grind
    begun := by have := @T.begun; grind
    notEnded := by have := @T.notEnded; grind
    notTornDown := by have := @T.notTornDown; grind
    committed := by have := @T.committed; grind }

theorem newEnv (T : Traced v w) (e : EnvRef) {h : EnvHandle} (henv : h.env = none) :
    Traced v (w.setEnv e (some h)) :=
  { T with
    created := by have := @T.created; grind
    notClosed := by have := @T.notClosed; grind
    healthy := by have := @T.healthy; grind
    poisoned := by have := @T.poisoned; grind }

theorem deleteEnv (T : Traced v w) (e : EnvRef) : Traced v (w.setEnv e none) :=
  { T with
    created := by have := @T.created; grind
    notClosed := by have := @T.notClosed; grind
    healthy := by have := @T.healthy; grind
    poisoned := by have := @T.poisoned; grind }

theorem deleteTxn (T : Traced v w) (t : TxnRef) : Traced v (w.setTxn t none) :=
  { T with
    came := by have := @T.came; grind
    begun := by have := @T.begun; grind
    notEnded := by have := @T.notEnded; grind
    notTornDown := by have := @T.notTornDown; grind
    committed := by have := @T.committed; grind }

/-- A handle lets go of an environment that was handed to a close. -/
theorem closeEnv (T : Traced v w) {e : EnvRef} {g : EnvHandle} (henv' : g.env = none) {lib : σ}
    {o : Outcome} : Traced v ((w.called (.envClose e) lib o).setEnv e (some g)) where
  created {e' h} he hp := by
    by_cases heq : e' = e
    · simp [heq] at he
      simp [← he, henv'] at hp
    · simp only [World.setEnv_envs, World.called_envs, Function.update_of_ne heq] at he
      rw [World.setEnv_log, World.called_log, created_cons]
      exact .inr (T.created he hp)
  notClosed {e' h} he hp := by
    by_cases heq : e' = e
    · simp [heq] at he
      simp [← he, henv'] at hp
    · simp only [World.setEnv_envs, World.called_envs, Function.update_of_ne heq] at he
      rw [World.setEnv_log, World.called_log, closed_cons]
      refine not_or.mpr ⟨fun h => heq ?_, T.notClosed he hp⟩
      simpa using h.1.symm
  healthy {e' h} he hp hh hv := by
    by_cases heq : e' = e
    · simp [heq] at he
      simp [← he, henv'] at hp
    · simp only [World.setEnv_envs, World.called_envs, Function.update_of_ne heq] at he
      rw [World.setEnv_log, World.called_log, panicked_cons]
      refine not_or.mpr ⟨fun h => heq ?_, T.healthy he hp hh hv⟩
      simpa [NativeCall.group, NativeCall.env?] using h.1.symm
  poisoned {e' h} he henv hp := by
    by_cases heq : e' = e
    · simp [heq] at he
      simp [← he, henv'] at henv
    · rw [World.setEnv_log, World.called_log, panicked_cons]
      exact .inr (T.poisoned (by simpa [heq] using he) henv hp)
  came ht := by
    obtain ⟨e', hb⟩ := T.came ht
    exact ⟨e', (begun_cons _ _ _ _).mpr (.inr hb)⟩
  begun ht hk := by
    rw [World.setEnv_log, World.called_log, begun_cons]
    exact .inr (T.begun ht hk)
  notEnded ht hk hv := by
    rw [World.setEnv_log, World.called_log, ended_cons]
    refine not_or.mpr ⟨fun h => ?_, T.notEnded ht hk hv⟩
    simp [Call.Ends, NativeCall.finishes] at h
  notTornDown ht hk hv := by
    rw [World.setEnv_log, World.called_log, tornDown_cons]
    refine not_or.mpr ⟨fun h => ?_, T.notTornDown ht hk hv⟩
    simp [Call.TearsDown] at h
  committed ht hv := by
    simp only [World.setEnv_log, World.called_log, committed_cons]
    have hno : ∀ t, ¬ Call.Commits ⟨w.pid, .envClose e, o⟩ t := by simp [Call.Commits]
    simp only [hno, false_or]
    exact T.committed ht hv

/-- A handle without an environment takes the one that libmdbx has created for it. -/
theorem attachEnv (T : Traced v w) {e : EnvRef} {h : EnvHandle} (hpid : h.pid = w.pid)
    (hhealthy : h.poisoned = false) (hcreated : Created w.log w.pid e) (hclosed : ¬ Closed w.log e)
    (hpanicked : ¬ Panicked w.log e) : Traced v (w.setEnv e (some { h with env := some e })) :=
  { T with
    created := by have := @T.created; grind
    notClosed := by have := @T.notClosed; grind
    healthy := by have := @T.healthy; grind
    poisoned := by have := @T.poisoned; grind }

theorem registerTxn (T : Traced v w) {e : EnvRef} {t : TxnRef} {k : TxnHandle}
    (howner : k.owner = some e) (hstate : k.state = .active) (hbegun : Begun w.log k.pid ⟨e, t⟩)
    (hended : ¬ Ended w.log ⟨e, t⟩) (htorn : ¬ TornDown w.log ⟨e, t⟩)
    (hcommitted : ∀ e, ¬ Committed w.log ⟨e, t⟩) : Traced v (w.setTxn t (some k)) :=
  { T with
    came := by have := @T.came; grind
    begun := by have := @T.begun; grind
    notEnded := by have := @T.notEnded; grind
    notTornDown := by have := @T.notTornDown; grind
    committed := by have := @T.committed; grind }

/-- The handle's state has caught up with the trace. -/
theorem detachTxn {t : TxnRef} {k : TxnHandle} {state : TxnState}
    (T : Traced { v with ending := some t } w) (ht : w.txns t = some k)
    (hstate : state = .committed ↔ ∃ e, Committed w.log ⟨e, t⟩) :
    Traced v (w.setTxn t (some { k with txn := none, state := state, owner := none })) where
  created := T.created
  notClosed := T.notClosed
  healthy := T.healthy
  poisoned := T.poisoned
  came := by have := @T.came; grind
  begun := by have := @T.begun; grind
  notEnded := by have := @T.notEnded; grind
  notTornDown := by have := @T.notTornDown; grind
  committed {t'} {j} ht' hv' := by
    rw [World.setTxn_txns, Function.update_apply] at ht'
    split at ht'
    · subst_vars
      cases ht'
      exact hstate
    · exact T.committed ht' (by simpa [eq_comm] using ‹¬ t' = t›)

end Traced

/-! ### Where native objects are kept -/

namespace Conserved

variable {v : Waived}

/-- A call that creates nothing and begins nothing but the waived transaction. -/
theorem called (C : Conserved v w) {c : NativeCall} {lib : σ} {o : Outcome}
    (hcreates : ∀ pid e, ¬ Call.Creates ⟨w.pid, c, o⟩ pid e)
    (hbegins : ∀ pid t, Call.Begins ⟨w.pid, c, o⟩ pid t → v.begun = some t) :
    Conserved v (w.called c lib o) where
  envOnce := C.envOnce
  envHeld := C.envHeld
  envKept {pid e} hc hclosed hpanicked := by
    rw [World.called_log, created_cons] at hc
    rw [World.called_log, closed_cons] at hclosed
    rw [World.called_log, closePanicked_cons] at hpanicked
    exact C.envKept (hc.resolve_left (hcreates pid e)) (fun h => hclosed (.inr h))
      (fun h => hpanicked (.inr h))
  txnOnce := C.txnOnce
  txnHeld := C.txnHeld
  txnKept {pid e t} hb hrel hv := by
    rw [World.called_log, begun_cons] at hb
    refine C.txnKept (hb.resolve_left fun h => hv (hbegins pid _ h)) (fun h => hrel ?_) hv
    rw [Released, World.called_log, ended_cons, tornDown_cons]
    exact h.imp .inr .inr
  txnObject := C.txnObject
  givenUp := C.givenUp

theorem setEnv (C : Conserved v w) {e : EnvRef} {h g : EnvHandle} (he : w.envs e = some h)
    (henv : g.env = h.env) (hpid : g.pid = h.pid)
    (hpois : h.poisoned = true → g.poisoned = true) : Conserved v (w.setEnv e (some g)) :=
  { C with
    envHeld := by have := @C.envHeld; grind
    envKept := by have := @C.envKept; grind
    givenUp := by have := @C.givenUp; grind }

theorem setTxn (C : Conserved v w) {t : TxnRef} {k j : TxnHandle} (ht : w.txns t = some k)
    (howner : j.owner = k.owner) : Conserved v (w.setTxn t (some j)) :=
  { C with
    txnHeld := by have := @C.txnHeld; grind
    txnKept := by have := @C.txnKept; grind
    txnObject := by have := @C.txnObject; grind }

theorem newEnv (C : Conserved v w) {e : EnvRef} {h : EnvHandle} (hnew : w.envs e = none)
    (henv : h.env = none) : Conserved v (w.setEnv e (some h)) :=
  { C with
    envHeld := by have := @C.envHeld; grind
    envKept := by have := @C.envKept; grind
    givenUp := by have := @C.givenUp; grind }

/-- A handle takes the environment that the last call has created for it. -/
theorem attachEnv (C : Conserved v w) {e : EnvRef} {h : EnvHandle} {lib : σ}
    (he : w.envs e = some h) (habandoned : .env e ∉ w.abandoned)
    (htxns : ∀ t, .txn ⟨e, t⟩ ∉ w.abandoned) :
    Conserved v ((w.called (.envCreate e) lib (.returned Status.success)).setEnv e
      (some { h with env := some e })) where
  envOnce := C.envOnce
  envHeld := by have := @C.envHeld; grind [World.called_abandoned, World.called_envs]
  envKept {pid e'} hc hclosed hpanicked := by
    by_cases heq : e' = e
    · subst heq
      exact .inl ⟨{ h with env := some e' }, by simp, rfl⟩
    rw [World.setEnv_log, World.called_log, created_cons] at hc
    rw [World.setEnv_log, World.called_log, closed_cons] at hclosed
    rw [World.setEnv_log, World.called_log, closePanicked_cons] at hpanicked
    have hc : Created w.log pid e' := hc.resolve_left fun h => heq (by simpa using h.2.1.symm)
    have := C.envKept hc (fun h => hclosed (.inr h)) (fun h => hpanicked (.inr h))
    simpa [heq] using this
  txnOnce := C.txnOnce
  txnHeld := C.txnHeld
  txnKept {pid e t} hb hrel hv := by
    rw [World.setEnv_log, World.called_log, begun_cons] at hb
    refine C.txnKept (hb.resolve_left fun h => ?_) (fun h => hrel ?_) hv
    · obtain ⟨-, ⟨flags, hc⟩, -⟩ := h
      cases hc
    · rw [Released, World.setEnv_log, World.called_log, ended_cons, tornDown_cons]
      exact h.imp .inr .inr
  txnObject := C.txnObject
  givenUp := by have := @C.givenUp; grind [World.called_abandoned, World.called_envs,
    World.called_pid]

/-- Keep an environment in `abandoned` in place of its handle. -/
theorem giveUpEnv (C : Conserved v w) {e : EnvRef} {h g : EnvHandle} {roots : List Abandoned}
    (he : w.envs e = some h) (henv : h.env = some e) (henv' : g.env = none)
    (hroots : ∀ a ∈ roots, ∃ r, a = .root r) :
    Conserved v ({ w with abandoned := w.abandoned ++ Abandoned.env e :: roots }.setEnv e
      (some g)) where
  envOnce e' := by
    have hroot : roots.count (.env e') = 0 := by
      refine List.count_eq_zero.mpr fun hmem => ?_
      obtain ⟨r, hr⟩ := hroots _ hmem
      cases hr
    by_cases heq : e = e'
    · subst heq
      have := List.count_eq_zero.mpr (C.envHeld he henv)
      simp [hroot, this]
    · have := C.envOnce e'
      simpa [hroot, heq, List.count_cons] using this
  envHeld := by have := @C.envHeld; grind
  envKept := by have := @C.envKept; grind
  txnOnce t := by
    have hroot : roots.count (.txn t) = 0 := by
      refine List.count_eq_zero.mpr fun hmem => ?_
      obtain ⟨r, hr⟩ := hroots _ hmem
      cases hr
    simpa [hroot] using C.txnOnce t
  txnHeld := by have := @C.txnHeld; grind
  txnKept := by have := @C.txnKept; grind
  txnObject := C.txnObject
  givenUp := by have := @C.givenUp; grind

/-- Drop an environment that was handed to a close. -/
theorem dropEnv (C : Conserved v w) {e : EnvRef} {g : EnvHandle}
    (hclosed : Closed w.log e ∨ ClosePanicked w.log e) (henv' : g.env = none) :
    Conserved v (w.setEnv e (some g)) :=
  { C with
    envHeld := by have := @C.envHeld; grind
    envKept := by have := @C.envKept; grind
    givenUp := by have := @C.givenUp; grind }

theorem deleteEnv (C : Conserved v w) {e : EnvRef} {h : EnvHandle} (he : w.envs e = some h)
    (henv : h.env = none) : Conserved v (w.setEnv e none) :=
  { C with
    envHeld := by have := @C.envHeld; grind
    envKept := by have := @C.envKept; grind
    givenUp := by have := @C.givenUp; grind }

theorem deleteTxn (C : Conserved v w) {t : TxnRef} {k : TxnHandle} (ht : w.txns t = some k)
    (howner : k.owner = none) : Conserved v (w.setTxn t none) :=
  { C with
    txnHeld := by have := @C.txnHeld; grind
    txnKept := by have := @C.txnKept; grind
    txnObject := by have := @C.txnObject; grind }

theorem waiveBegun (C : Conserved v w) (hv : v.begun = none) (p : Option TxnPtr) :
    Conserved { v with begun := p } w :=
  { C with txnKept := fun hb hrel _ => C.txnKept hb hrel (by simp [hv]) }

/-- The handle that was built for a begun transaction holds it, and waits for its object. -/
theorem registerTxn {e : EnvRef} {t : TxnRef} {k : TxnHandle}
    (C : Conserved { v with begun := some ⟨e, t⟩ } w) (hv : v.reclaimed = none)
    (hnew : w.txns t = none) (howner : k.owner = some e) (habandoned : .txn ⟨e, t⟩ ∉ w.abandoned) :
    Conserved { v with reclaimed := some t } (w.setTxn t (some k)) :=
  { C with
    txnHeld := by have := @C.txnHeld; grind
    txnKept {pid e' t'} hb hrel _ hlost := by
      by_cases heq : t' = t ∧ e' = e
      · obtain ⟨rfl, rfl⟩ := heq
        exact .inl ⟨k, by simp, howner⟩
      have hne : some (⟨e, t⟩ : TxnPtr) ≠ some ⟨e', t'⟩ := by
        simp only [ne_eq, Option.some.injEq, TxnPtr.mk.injEq]
        exact fun h => heq ⟨h.2.symm, h.1.symm⟩
      have hold := C.txnKept hb hrel hne hlost
      grind
    txnObject {t' k' e'} ht' hk' hne := by
      have ht : w.txns t' = some k' := by
        rwa [World.setTxn_txns, Function.update_of_ne fun h => hne (congrArg some h.symm)] at ht'
      exact C.txnObject ht hk' (by simp [hv]) }

/-- A transaction that no object will have is lost. -/
theorem loseTxn {p : TxnPtr} (C : Conserved { v with begun := some p } w) (hv : v.lossy = true)
    (hnew : w.txnSexps p.id = none) : Conserved v w :=
  { C with
    txnKept {pid e t} hb hrel _ hlost := by
      refine C.txnKept hb hrel (fun heq => ?_) hlost
      obtain rfl : p = ⟨e, t⟩ := Option.some.inj heq
      exact hlost hv hnew }

/-- Give a live transaction its object, or assign to an object. -/
theorem setTxnSexp {x : ℕ} {s : TxnSexp} (C : Conserved { v with reclaimed := some x } w)
    (hlive : w.txnSexps x = none → ∀ pid e, Begun w.log pid ⟨e, x⟩ →
      ∃ k, w.txns x = some k ∧ k.owner = some e)
    (haddr : ∀ k e, w.txns x = some k → k.owner = some e → s.addr = some x) :
    Conserved v (w.setTxnSexp x s) :=
  { C with
    txnKept {pid e t} hb hrel hv hlost := by
      by_cases hnew : t = x ∧ w.txnSexps x = none
      · obtain ⟨rfl, hnone⟩ := hnew
        exact .inl (hlive hnone pid e hb)
      · refine C.txnKept hb hrel hv fun hlossy hnone => hlost hlossy ?_
        rw [World.setTxnSexp_txnSexps, Function.update_of_ne]
        · exact hnone
        · exact fun h => hnew ⟨h, h ▸ hnone⟩
    txnObject {t k e} ht hk _ := by
      by_cases heq : t = x
      · subst heq
        exact ⟨s, by simp, haddr k e ht hk⟩
      · obtain ⟨s', hs', haddr'⟩ := C.txnObject ht hk (by simpa [eq_comm] using heq)
        exact ⟨s', by simpa [heq] using hs', haddr'⟩ }

/-- The finalizer of an object takes the handle from it. -/
theorem reclaimTxn (C : Conserved v w) {x : ℕ} {s s' : TxnSexp} (hv : v.reclaimed = none)
    (hx : w.txnSexps x = some s') :
    Conserved { v with reclaimed := some x } (w.setTxnSexp x s) :=
  { C with
    txnKept {pid e t} hb hrel hv hlost := by
      refine C.txnKept hb hrel hv fun hlossy hnone => hlost hlossy ?_
      rw [World.setTxnSexp_txnSexps, Function.update_of_ne]
      · exact hnone
      · rintro rfl
        simp [hx] at hnone
    txnObject {t k e} ht hk hne := by
      obtain ⟨s', hs', haddr'⟩ := C.txnObject ht hk (by simp [hv])
      refine ⟨s', ?_, haddr'⟩
      rw [World.setTxnSexp_txnSexps, Function.update_of_ne]
      · exact hs'
      · exact fun h => hne (congrArg some h.symm) }

theorem waiveReclaimed (C : Conserved v w) (hv : v.reclaimed = none) (t : Option TxnRef) :
    Conserved { v with reclaimed := t } w :=
  { C with txnObject := fun ht hk _ => C.txnObject ht hk (by simp [hv]) }

/-- The handle that an object has let go of is deleted. -/
theorem unwaiveReclaimed {t : TxnRef} (C : Conserved { v with reclaimed := some t } w)
    (hgone : w.txns t = none) : Conserved v w :=
  { C with
    txnObject {t' k e} ht hk _ := by
      refine C.txnObject ht hk fun h => ?_
      obtain rfl : t = t' := Option.some.inj h
      simp [hgone] at ht }

theorem waivePoison (C : Conserved v w) (e : Option EnvRef) :
    Conserved { v with poison := e } w := { C with }

theorem unwaivePoison {e : Option EnvRef} (C : Conserved { v with poison := e } w) :
    Conserved v w := { C with }

theorem waiveEnding (C : Conserved v w) (hv : v.ending = none) (t : Option TxnRef) :
    Conserved { v with ending := t } w :=
  { C with txnHeld := fun ht hk _ => C.txnHeld ht hk (by simp [hv]) }

/-- Keep a transaction in `abandoned` that libmdbx must not end. -/
theorem giveUpTxn {e : EnvRef} {t : TxnRef} (C : Conserved { v with ending := some t } w)
    (hnot : .txn ⟨e, t⟩ ∉ w.abandoned)
    (hunusable : ∀ h, w.envs e = some h → h.env = some e → h.poisoned = true ∨ h.pid ≠ w.pid) :
    Conserved { v with ending := some t }
      { w with abandoned := w.abandoned ++ [.txn ⟨e, t⟩] } :=
  { C with
    envOnce := fun e' => by simpa using C.envOnce e'
    envHeld := by have := @C.envHeld; grind
    envKept := by have := @C.envKept; grind
    txnOnce := by
      intro p
      by_cases heq : (⟨e, t⟩ : TxnPtr) = p
      · subst heq
        simp [List.count_eq_zero.mpr hnot]
      · simpa [heq, List.count_cons] using C.txnOnce p
    txnHeld := by have := @C.txnHeld; grind
    txnKept := by have := @C.txnKept; grind
    givenUp := by have := @C.givenUp; grind }

/-- The handle lets go of a transaction that has ended or is kept in `abandoned`. -/
theorem detachTxn {e : EnvRef} {t : TxnRef} {k j : TxnHandle}
    (C : Conserved { v with ending := some t } w) (ht : w.txns t = some k)
    (howner : k.owner = some e) (howner' : j.owner = none)
    (hgone : Released w.log ⟨e, t⟩ ∨ .txn ⟨e, t⟩ ∈ w.abandoned) :
    Conserved v (w.setTxn t (some j)) :=
  { C with
    txnHeld := by have := @C.txnHeld; grind
    txnKept := by have := @C.txnKept; grind
    txnObject := by have := @C.txnObject; grind }

theorem forked (C : Conserved v w) {child : Pid}
    (hpid : ∀ e h, w.envs e = some h → h.pid ≠ child) : Conserved v (w.forked child) :=
  { C with givenUp := fun _ he _ => .inr (hpid _ _ he) }

end Conserved

/-! ### What outlives a step -/

namespace Later

variable {may : NativeCall → Prop} {w₀ w₁ w₂ : World σ}

theorem refl (w : World σ) : Later may w w where
  pid := rfl
  forebears := rfl
  next := le_rfl
  log := List.suffix_rfl
  reserved _ _ := rfl
  released h _ := .inl h
  env he _ := ⟨_, he, rfl, id, id, fun _ => rfl⟩
  txn ht _ := ⟨_, ht, rfl, rfl, fun _ => rfl⟩
  envPath _ := rfl
  txnPath _ := rfl
  openEnvs h _ := h
  listed h _ _ _ := h

theorem trans (H : Later may w₀ w₁) (H' : Later may w₁ w₂) : Later may w₀ w₂ where
  pid := H'.pid.trans H.pid
  forebears := H'.forebears.trans H.forebears
  next := H.next.trans H'.next
  log := H.log.trans H'.log
  reserved hc h := (H'.reserved hc h).trans (H.reserved hc h)
  released h hlt := by
    rcases H'.released h (hlt.trans_le H.next) with h | ⟨k, hk⟩
    · exact H.released h hlt
    · obtain ⟨k₀, hk₀, -⟩ := H.txn hk hlt
      exact .inr ⟨k₀, hk₀⟩
  env he hlt := by
    have hlt' := hlt.trans_le H.next
    obtain ⟨h₁, he₁, hpid₁, henv₁, hpois₁, hkey₁⟩ := H'.env he hlt'
    obtain ⟨h₀, he₀, hpid₀, henv₀, hpois₀, hkey₀⟩ := H.env he₁ hlt
    exact ⟨h₀, he₀, hpid₁.trans hpid₀, fun h => henv₁ (henv₀ h), fun h => hpois₁ (hpois₀ h),
      fun h => (hkey₁ h).trans (hkey₀ (H'.openEnvs h hlt'))⟩
  txn ht hlt := by
    obtain ⟨k₁, ht₁, hpid₁, hwrite₁, hstate₁⟩ := H'.txn ht (hlt.trans_le H.next)
    obtain ⟨k₀, ht₀, hpid₀, hwrite₀, hstate₀⟩ := H.txn ht₁ hlt
    refine ⟨k₀, ht₀, hpid₁.trans hpid₀, hwrite₁.trans hwrite₀, fun h => ?_⟩
    have hk₁ := hstate₀ h
    rw [hstate₁ (by rwa [hk₁]), hk₁]
  envPath hlt := (H'.envPath (hlt.trans_le H.next)).trans (H.envPath hlt)
  txnPath hlt := (H'.txnPath (hlt.trans_le H.next)).trans (H.txnPath hlt)
  openEnvs h hlt := H.openEnvs (H'.openEnvs h (hlt.trans_le H.next)) hlt
  listed h hlt he henv := by
    have hlt' := hlt.trans_le H.next
    obtain ⟨h₁, he₁, -, henv₁, -⟩ := H'.env he hlt'
    exact H'.listed (H.listed h hlt he₁ fun hnone => henv (henv₁ hnone)) hlt' he henv

variable {w : World σ}

theorem called (H : Later may w₀ w) {c : NativeCall} {lib : σ} {o : Outcome}
    (hc : c.reserved = true → may c)
    (hends : ∀ t, Call.Ends ⟨w.pid, c, o⟩ t ∨ Call.TearsDown ⟨w.pid, c, o⟩ t →
      ∃ k, w.txns t.id = some k) :
    Later may w₀ (w.called c lib o) :=
  { H with
    released := by
      intro t h hlt
      rw [World.called_log, released_cons] at h
      rcases h with h | h
      · obtain ⟨k, hk⟩ := hends t h
        obtain ⟨k₀, hk₀, -⟩ := H.txn hk hlt
        exact .inr ⟨k₀, hk₀⟩
      · exact H.released h hlt
    log := H.log.trans (List.suffix_cons _ _)
    reserved := by
      intro c' hc' h
      have hno : c ≠ c' := by
        rintro rfl
        exact h (hc hc')
      rw [← H.reserved hc' h, World.called_log, callsOf, List.countP_cons]
      simp [hno, callsOf] }

/-- A reserved call in the trace is an old one, or `may` admits it. -/
theorem made (H : Later may w₀ w) {c : Call} (hmem : c ∈ w.log) (hc : c.call.reserved = true) :
    c ∈ w₀.log ∨ may c.call := by
  by_cases hmay : may c.call
  · exact .inr hmay
  obtain ⟨recent, hlog⟩ := H.log
  have hnone := H.reserved hc hmay
  rw [← hlog, callsOf, callsOf, List.countP_append, Nat.add_eq_right] at hnone
  rw [← hlog, List.mem_append] at hmem
  refine .inl (hmem.resolve_left fun hmem => ?_)
  exact absurd (by simp) (List.countP_eq_zero.mp hnone c hmem)

/-- What becomes committed is what libmdbx was asked to commit. -/
theorem committed (H : Later may w₀ w) {t : TxnPtr} (hc : Committed w.log t) :
    Committed w₀.log t ∨ may (.txnCommit t) := by
  obtain ⟨c, hmem, hcall, ho⟩ := hc
  rcases H.made hmem (by rw [hcall]; rfl) with hmem | hmay
  · exact .inl ⟨c, hmem, hcall, ho⟩
  · exact .inr (hcall ▸ hmay)

theorem setEnv (H : Later may w₀ w) {e : EnvRef} {g : EnvHandle}
    (hold : e < w₀.next → ∃ h, w.envs e = some h ∧ g.pid = h.pid ∧ (h.env = none → g.env = none) ∧
      (h.poisoned = true → g.poisoned = true) ∧ (e ∈ w.openEnvs → g.key = h.key)) :
    Later may w₀ (w.setEnv e (some g)) :=
  { H with
    env := by
      intro e' h'' he hlt
      rw [World.setEnv_envs, Function.update_apply] at he
      split at he
      · obtain rfl := ‹e' = e›
        cases he
        obtain ⟨h, he, hpid, henv, hpois, hkey⟩ := hold hlt
        obtain ⟨h₀, he₀, hpid₀, henv₀, hpois₀, hkey₀⟩ := H.env he hlt
        exact ⟨h₀, he₀, hpid.trans hpid₀, fun h => henv (henv₀ h), fun h => hpois (hpois₀ h),
          fun h => (hkey h).trans (hkey₀ h)⟩
      · exact H.env he hlt
    listed := by
      intro e' h'' hmem hlt he henv'
      rw [World.setEnv_envs, Function.update_apply] at he
      split at he
      · obtain rfl := ‹e' = e›
        cases he
        obtain ⟨h, he, -, henv, -⟩ := hold hlt
        exact H.listed hmem hlt he fun hnone => henv' (henv hnone)
      · exact H.listed hmem hlt he henv' }

theorem deleteEnv (H : Later may w₀ w) (e : EnvRef) : Later may w₀ (w.setEnv e none) :=
  { H with
    env := by
      intro e' g he hlt
      rw [World.setEnv_envs, Function.update_apply] at he
      split at he
      · cases he
      · exact H.env he hlt
    listed := by
      intro e' g hmem hlt he henv
      rw [World.setEnv_envs, Function.update_apply] at he
      split at he
      · cases he
      · exact H.listed hmem hlt he henv }

theorem setTxn (H : Later may w₀ w) {t : TxnRef} {j : TxnHandle}
    (hold : t < w₀.next → ∃ k, w.txns t = some k ∧ j.pid = k.pid ∧ j.write = k.write ∧
      (k.state ≠ .active → j.state = k.state)) : Later may w₀ (w.setTxn t (some j)) :=
  { H with
    txn := by
      intro t' k'' ht hlt
      rw [World.setTxn_txns, Function.update_apply] at ht
      split at ht
      · obtain rfl := ‹t' = t›
        cases ht
        obtain ⟨k, ht, hpid, hwrite, hstate⟩ := hold hlt
        obtain ⟨k₀, ht₀, hpid₀, hwrite₀, hstate₀⟩ := H.txn ht hlt
        refine ⟨k₀, ht₀, hpid.trans hpid₀, hwrite.trans hwrite₀, fun h => ?_⟩
        have hk := hstate₀ h
        rw [hstate (by rwa [hk]), hk]
      · exact H.txn ht hlt }

theorem deleteTxn (H : Later may w₀ w) (t : TxnRef) : Later may w₀ (w.setTxn t none) :=
  { H with
    txn := by
      intro t' j ht hlt
      rw [World.setTxn_txns, Function.update_apply] at ht
      split at ht
      · cases ht
      · exact H.txn ht hlt }

theorem txnSexp (H : Later may w₀ w) {x : ℕ} {s' : TxnSexp} (hx : w.txnSexps x = some s')
    (hlt : x < w₀.next) : ∃ s, w₀.txnSexps x = some s := by
  have hpath := H.txnPath hlt
  rw [hx, eq_comm, Option.map_some, Option.map_eq_some_iff] at hpath
  obtain ⟨s, hs, -⟩ := hpath
  exact ⟨s, hs⟩

/-- Objects of transactions appear under new numbers only. -/
theorem setTxnSexp (H : Later may w₀ w) {x : ℕ} {s : TxnSexp}
    (hx : (∃ s₁, w.txnSexps x = some s₁ ∧ s.path = s₁.path) ∨ w₀.next ≤ x) :
    Later may w₀ (w.setTxnSexp x s) :=
  { H with
    txnPath := by
      intro x' hlt
      rw [← H.txnPath hlt, World.setTxnSexp_txnSexps, Function.update_apply]
      split
      · obtain rfl := ‹x' = x›
        obtain ⟨s₁, hx₁, hpath⟩ := hx.resolve_right (not_le.mpr hlt)
        simp [hx₁, hpath]
      · rfl }

theorem setEnvSexp (H : Later may w₀ w) {x : ℕ} {s : EnvSexp}
    (hx : (∃ s₁, w.envSexps x = some s₁ ∧ s.path = s₁.path) ∨ w₀.next ≤ x) :
    Later may w₀ (w.setEnvSexp x s) :=
  { H with
    envPath := by
      intro x' hlt
      rw [← H.envPath hlt, World.setEnvSexp_envSexps, Function.update_apply]
      split
      · obtain rfl := ‹x' = x›
        obtain ⟨s₁, hx₁, hpath⟩ := hx.resolve_right (not_le.mpr hlt)
        simp [hx₁, hpath]
      · rfl }

/-- Take closed environments from the registry, or add environments that were opened since. -/
theorem openEnvs' (H : Later may w₀ w) {entries : List EnvRef}
    (hsub : ∀ e ∈ entries, e < w₀.next → e ∈ w.openEnvs)
    (hkeep : ∀ e ∈ w.openEnvs, ∀ h, w.envs e = some h → h.env ≠ none → e ∈ entries) :
    Later may w₀ { w with openEnvs := entries } :=
  { H with
    env := by
      intro e h he hlt
      obtain ⟨h₀, he₀, hpid, henv, hpois, hkey⟩ := H.env he hlt
      exact ⟨h₀, he₀, hpid, henv, hpois, fun h => hkey (hsub e h hlt)⟩
    openEnvs := fun h hlt => H.openEnvs (hsub _ h hlt) hlt
    listed := fun hmem hlt he henv => hkeep _ (H.listed hmem hlt he henv) _ he henv }

end Later

end Mdbx
