import Mdbx.Updates

/-! What the functions of the package do when they are run: one lemma for each primitive and, for
the functions that end handles, the worlds that they can leave. -/

namespace Mdbx

open ProofKit

variable {σ α β : Type} {w : World σ}

/-! ### Primitives -/

theorem derefEnv_run {e : EnvRef} {h : EnvHandle} (he : w.envs e = some h) :
    (derefEnv e).run w = (.ok h, w) := by
  simp [derefEnv, he]

theorem derefTxn_run {t : TxnRef} {k : TxnHandle} (ht : w.txns t = some k) :
    (derefTxn t).run w = (.ok k, w) := by
  simp [derefTxn, ht]

theorem updateEnv_run {e : EnvRef} {h : EnvHandle} (he : w.envs e = some h)
    (f : EnvHandle → EnvHandle) : (updateEnv e f).run w = (.ok (), w.setEnv e (some (f h))) := by
  rw [updateEnv, Prog.bind_ok (derefEnv_run he), Prog.run_modify]

theorem updateTxn_run {t : TxnRef} {k : TxnHandle} (ht : w.txns t = some k)
    (f : TxnHandle → TxnHandle) : (updateTxn t f).run w = (.ok (), w.setTxn t (some (f k))) := by
  rw [updateTxn, Prog.bind_ok (derefTxn_run ht), Prog.run_modify]

theorem currentPid_run : (currentPid : Pkg σ Pid).run w = (.ok w.pid, w) := rfl

theorem refuse_run {refused : Prop} [Decidable refused] {c : Condition} (h : refused) :
    (refuse refused c : Pkg σ Unit).run w = (.error (.stop c), w) := by
  simp [refuse, h, stop]

theorem refuse_pass {refused : Prop} [Decidable refused] {c : Condition} (h : ¬ refused) :
    (refuse refused c : Pkg σ Unit).run w = (.ok (), w) := by
  simp [refuse, h]

theorem nonNull_some (a : α) : (nonNull (some a) : Pkg σ α) = pure a := rfl

@[simp] theorem ifSome_none (f : α → Pkg σ Unit) : ifSome none f = pure () := rfl

@[simp] theorem ifSome_some (a : α) (f : α → Pkg σ Unit) : ifSome (some a) f = f a := rfl

theorem whenever_pos {c : Prop} [Decidable c] {m : Pkg σ Unit} (h : c) : whenever c m = m :=
  if_pos h

theorem whenever_neg {c : Prop} [Decidable c] {m : Pkg σ Unit} (h : ¬ c) :
    whenever c m = pure () := if_neg h

theorem check_success : (check Status.success : Pkg σ Unit).run w = (.ok (), w) := rfl

theorem check_failure {rc : Status} (h : rc ≠ Status.success) :
    (check rc : Pkg σ Unit).run w = (.error (.stop (.status rc)), w) := refuse_run h

theorem of_check {rc : Status} {u : Unit} {w' : World σ}
    (h : (check rc : Pkg σ Unit).run w = (.ok u, w')) : rc = Status.success ∧ w' = w := by
  by_cases hrc : rc = Status.success
  · rw [hrc, check_success] at h
    cases h
    exact ⟨hrc, rfl⟩
  · rw [check_failure hrc] at h
    cases h

section Calls

variable (L : Platform σ)

/-- A call of libmdbx returns or panics, as the library answers it. -/
theorem native_answered (c : NativeCall) (w : World σ) :
    (∃ r lib, (native L c).run w = (.ok r, w.called c lib (.returned r.rc)) ∧
      (L.call c w.lib).1 = .ok r) ∨
      ∃ info lib, (native L c).run w = (.error (.panic info), w.called c lib .panicked) ∧
        (L.call c w.lib).1 = .error info := by
  rw [native, Prog.run_get_bind]
  rcases L.call c w.lib with ⟨info | r, lib⟩
  · exact .inr ⟨info, lib, rfl, rfl⟩
  · exact .inl ⟨r, lib, rfl, rfl⟩

theorem native_run (c : NativeCall) (w : World σ) :
    (∃ r lib, (native L c).run w = (.ok r, w.called c lib (.returned r.rc))) ∨
      ∃ info lib, (native L c).run w = (.error (.panic info), w.called c lib .panicked) := by
  rcases native_answered L c w with ⟨r, lib, hr, -⟩ | ⟨info, lib, hr, -⟩
  · exact .inl ⟨r, lib, hr⟩
  · exact .inr ⟨info, lib, hr⟩

/-- A call that libmdbx answers. -/
theorem native_ok {c : NativeCall} {r : Reply c} (hc : (L.call c w.lib).1 = .ok r) :
    (native L c).run w = (.ok r, w.called c (L.call c w.lib).2 (.returned r.rc)) := by
  rw [native, Prog.run_get_bind]
  revert hc
  rcases L.call c w.lib with ⟨info | r', lib⟩ <;> intro hc <;> cases hc
  rfl

/-- A call made outside the guard returns. -/
theorem native_quiet {c : NativeCall} (hc : c.unguarded = true) (w : World σ) :
    ∃ r lib, (native L c).run w = (.ok r, w.called c lib (.returned r.rc)) := by
  obtain ⟨r, hr⟩ := L.quiet c w.lib hc
  exact ⟨r, _, native_ok L hr⟩

/-- A guarded body that returns. -/
theorem runGuarded_ok {body : Pkg σ α} {poison : Pkg σ Unit} {a : α} {w' : World σ}
    (h : body.run w = (.ok a, w')) : (runGuarded body poison).run w = (.ok (.ok a), w') := by
  rw [runGuarded, Prog.bind_ok (Prog.run_attempt _ _), h]
  rfl

/-- A guarded body that panics. -/
theorem runGuarded_panic {body : Pkg σ α} {poison : Pkg σ Unit} {info : PanicInfo}
    {w' w'' : World σ} (h : body.run w = (.error (.panic info), w'))
    (hp : poison.run w' = (.ok (), w'')) :
    (runGuarded body poison).run w = (.ok (.error info), w'') := by
  rw [runGuarded, Prog.bind_ok (Prog.run_attempt _ _), h]
  exact Prog.bind_ok hp

theorem guard_ok {body : Pkg σ α} {poison : Pkg σ Unit} {a : α} {w' : World σ}
    (h : body.run w = (.ok a, w')) : (guard body poison).run w = (.ok a, w') := by
  rw [guard, Prog.bind_ok (runGuarded_ok h)]
  rfl

theorem guard_panic {body : Pkg σ α} {poison : Pkg σ Unit} {info : PanicInfo}
    {w' w'' : World σ} (h : body.run w = (.error (.panic info), w'))
    (hp : poison.run w' = (.ok (), w'')) :
    (guard body poison).run w = (.error (.stop (.assertionFailed info)), w'') := by
  rw [guard, Prog.bind_ok (runGuarded_panic h hp)]
  rfl

/-! ### Poison callbacks and `heap_roots` -/

theorem poisonEnv_run {e : EnvRef} {h : EnvHandle} (he : w.envs e = some h) :
    (poisonEnv e).run w = (.ok (), w.setEnv e (some { h with poisoned := true })) :=
  updateEnv_run he _

theorem poisonTxn_run {t : TxnRef} {k : TxnHandle} {e : EnvRef} {h : EnvHandle}
    (ht : w.txns t = some k) (howner : k.owner = some e) (he : w.envs e = some h) :
    (poisonTxn t).run w = (.ok (), (w.setEnv e (some { h with poisoned := true })).setTxn t
      (some { k with poisoned := true })) := by
  have hk : (w.setTxn t (some { k with poisoned := true })).txns t
      = some { k with poisoned := true } := by simp
  rw [poisonTxn, Prog.bind_ok (updateTxn_run ht _), Prog.bind_ok (derefTxn_run hk), howner]
  exact updateEnv_run (w := w.setTxn t _) he _

/-- What `record_heap_roots` can make of a world. -/
inductive Refreshed (e : EnvRef) (h : EnvHandle) (w : World σ) : World σ → Prop where
  | same : Refreshed e h w w
  | asked (lib : σ) (rc : Status) (roots : HeapRoots) (henv : h.env = some e)
      (hhealthy : h.poisoned = false) (hpid : h.pid = w.pid) :
    Refreshed e h w ((w.called (.envHeapRoots e) lib (.returned rc)).setEnv e
      (some { h with heapRoots := roots }))

theorem recordHeapRoots_run (G : Graph w) {e : EnvRef} {h : EnvHandle} (he : w.envs e = some h) :
    ∃ w', (recordHeapRoots L e).run w = (.ok (), w') ∧ Refreshed e h w w' := by
  rw [recordHeapRoots, Prog.bind_ok (derefEnv_run he), Prog.bind_ok currentPid_run]
  cases henv : h.env with
  | none => exact ⟨w, rfl, .same⟩
  | some env =>
    obtain rfl := G.env he henv
    rw [ifSome_some]
    by_cases hok : h.poisoned = false ∧ h.pid = w.pid
    · obtain ⟨r, lib, hr⟩ := native_quiet L (c := .envHeapRoots env) rfl w
      rw [whenever_pos hok, Prog.bind_ok hr, updateEnv_run (h := h) (by exact he)]
      exact ⟨_, rfl, .asked lib r.rc r.out henv hok.1 hok.2⟩
    · rw [whenever_neg hok]
      exact ⟨w, rfl, .same⟩

/-! ### Ending handles -/

/-- The handle of a transaction after it has ended in `state`. -/
def TxnHandle.finished (k : TxnHandle) (state : TxnState) : TxnHandle :=
  { k with txn := none, state := state, owner := none }

/-- The world after the transaction of `k` was detached from the environment of `h`. -/
def World.detached (w : World σ) (t : TxnRef) (k : TxnHandle) (e : EnvRef) (h : EnvHandle)
    (state : TxnState) : World σ :=
  (w.setTxn t (some (k.finished state))).setEnv e (some { h with liveTxns := [] })

theorem Refreshed.txns {e : EnvRef} {h : EnvHandle} {w' : World σ} (hr : Refreshed e h w w') :
    w'.txns = w.txns := by
  cases hr <;> rfl

theorem Refreshed.env {e : EnvRef} {h : EnvHandle} {w' : World σ} (hr : Refreshed e h w w')
    (he : w.envs e = some h) : ∃ roots, w'.envs e = some { h with heapRoots := roots } := by
  cases hr with
  | same => exact ⟨h.heapRoots, he⟩
  | asked lib rc roots => exact ⟨roots, by simp⟩

/-- `mark_finished` on a live transaction. -/
theorem markFinished_run (G : Graph w) {t : TxnRef} {k : TxnHandle} {e : EnvRef} {h : EnvHandle}
    (ht : w.txns t = some k) (howner : k.owner = some e) (he : w.envs e = some h)
    (state : TxnState) : ∃ w' h', Refreshed e h w w' ∧ w'.envs e = some h' ∧
      (markFinished L t state).run w = (.ok (), w'.detached t k e h' state) := by
  have hlive := G.liveTxns_eq ht howner he
  have hroots : ∃ w', (whenever (k.write = true) (recordHeapRoots L e)).run w = (.ok (), w') ∧
      Refreshed e h w w' := by
    by_cases hwrite : k.write = true
    · rw [whenever_pos hwrite]
      exact recordHeapRoots_run L G he
    · rw [whenever_neg hwrite]
      exact ⟨w, rfl, .same⟩
  obtain ⟨w', hrun, hr⟩ := hroots
  obtain ⟨roots, he'⟩ := hr.env he
  have ht' : w'.txns t = some k := by rw [hr.txns, ht]
  refine ⟨w', _, hr, he', ?_⟩
  rw [markFinished, Prog.bind_ok (derefTxn_run ht), howner, ifSome_some, Prog.bind_ok hrun,
    Prog.bind_ok (updateTxn_run ht' _), unregisterTxn]
  simp only [bind_assoc]
  rcases k with ⟨txn, owner, kstate, write, poisoned, pid, dbi, mainDbi, mainReady, named⟩
  cases howner
  rw [Prog.bind_ok (derefTxn_run (by simp; rfl)), ifSome_some,
    Prog.bind_ok (updateEnv_run (by exact he') _), updateTxn_run (by simp; rfl)]
  simp [World.detached, World.setTxn, World.setEnv, TxnHandle.finished, hlive]

/-- `mark_finished` and `unregister_txn` on a transaction that has ended already. -/
theorem unregisterTxn_run {t : TxnRef} {k : TxnHandle} (ht : w.txns t = some k)
    (howner : k.owner = none) : (unregisterTxn t).run w = (.ok (), w) := by
  rw [unregisterTxn, Prog.bind_ok (derefTxn_run ht), howner]
  rfl

end Calls

end Mdbx
