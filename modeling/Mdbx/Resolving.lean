import Mdbx.Runs

/-! How a transaction's databases are resolved: from the name cache of its handle, or by
`mdbx_dbi_open` and into the cache. -/

namespace Mdbx

open ProofKit

variable {σ : Type} {L : Platform σ} {w w' : World σ} {t : TxnRef} {k : TxnHandle} {e : EnvRef}
  {h : EnvHandle}

/-! ### One guarded call -/

/-- The world after a panic below the guard of a transaction. -/
def World.poisonedTxn (w : World σ) (t : TxnRef) (k : TxnHandle) (e : EnvRef) (h : EnvHandle) :
    World σ :=
  (w.setEnv e (some { h with poisoned := true })).setTxn t (some { k with poisoned := true })

/-- The world after the library has answered a call. -/
def World.answered (L : Platform σ) (w : World σ) (c : NativeCall) (outcome : Outcome) : World σ :=
  w.called c (L.call c w.lib).2 outcome

theorem native_panicked {c : NativeCall} {info : PanicInfo}
    (hc : (L.call c w.lib).1 = .error info) :
    (native L c).run w = (.error (.panic info), w.answered L c .panicked) := by
  rw [native, Prog.run_get_bind, World.answered]
  revert hc
  rcases L.call c w.lib with ⟨info' | r, lib⟩ <;> intro hc <;> cases hc
  rfl

/-- A guarded call on a live transaction replies, or panics and poisons. -/
theorem guardTxn_run {α : Type} {body : Pkg σ α} {c : NativeCall} (f : Reply c → α)
    (he : w.envs e = some h) (ht : w.txns t = some k) (howner : k.owner = some e)
    (hbody : body.run w = (native L c >>= fun r => pure (f r)).run w) :
    (∃ r, (L.call c w.lib).1 = .ok r ∧
      (guard body (poisonTxn t)).run w = (.ok (f r), w.answered L c (.returned r.rc))) ∨
    ∃ info, (L.call c w.lib).1 = .error info ∧ (guard body (poisonTxn t)).run w =
      (.error (.stop (.assertionFailed info)), (w.answered L c .panicked).poisonedTxn t k e h) := by
  cases hcall : (L.call c w.lib).1 with
  | ok r =>
    refine .inl ⟨r, rfl, guard_ok ?_⟩
    rw [hbody, Prog.bind_ok (native_ok L hcall)]
    rfl
  | error info =>
    have hpanic : body.run w = (.error (.panic info), w.answered L c .panicked) := by
      rw [hbody, Prog.bind_error (native_panicked hcall)]
    exact .inr ⟨info, rfl,
      guard_panic hpanic (poisonTxn_run (by exact ht) howner (by exact he))⟩

/-! ### The name cache -/

/-- What is remembered is found. -/
theorem TxnHandle.cached_remember {name : Option Bytes} (hnew : k.cached name = none) (dbi : Dbi) :
    (k.remember name dbi).cached name = some dbi := by
  cases name with
  | none => rfl
  | some name =>
    have hfind : k.named.find? (fun entry => entry.1 == name) = none := by
      simpa [TxnHandle.cached] using hnew
    simp [TxnHandle.cached, TxnHandle.remember, List.find?_append, hfind]

/-- The condition for a status other than success of the `mdbx_dbi_open` of a name. -/
def missing (h : EnvHandle) (rc : Status) : Option Bytes → Condition
  | none => .status rc
  | some name => if rc = Status.notFound then .missingDbi name h.path else .status rc

/-- How `ensure_dbi` ends on a live transaction. -/
inductive Ensured (L : Platform σ) (w : World σ) (t : TxnRef) (k : TxnHandle) (e : EnvRef)
    (h : EnvHandle) (name : Option Bytes) (w' : World σ) : Except Exit Dbi → Prop where
  | cached (dbi : Dbi) (hcached : k.cached name = some dbi)
      (hw : w' = w.setTxn t (some { k with dbi := dbi })) :
    Ensured L w t k e h name w' (.ok dbi)
  | opened (r : Reply (.dbiOpen ⟨e, t⟩ name 0)) (hcached : k.cached name = none)
      (hopen : (L.call (.dbiOpen ⟨e, t⟩ name 0) w.lib).1 = .ok r) (hrc : r.rc = Status.success)
      (hw : w' = (w.answered L (.dbiOpen ⟨e, t⟩ name 0) (.returned Status.success)).setTxn t
        (some { k.remember name r.out with dbi := r.out })) :
    Ensured L w t k e h name w' (.ok r.out)
  | failed (r : Reply (.dbiOpen ⟨e, t⟩ name 0)) (hcached : k.cached name = none)
      (hopen : (L.call (.dbiOpen ⟨e, t⟩ name 0) w.lib).1 = .ok r) (hrc : r.rc ≠ Status.success)
      (hw : w' = w.answered L (.dbiOpen ⟨e, t⟩ name 0) (.returned r.rc)) :
    Ensured L w t k e h name w' (.error (.stop (missing h r.rc name)))
  | panicked (info : PanicInfo) (hcached : k.cached name = none)
      (hopen : (L.call (.dbiOpen ⟨e, t⟩ name 0) w.lib).1 = .error info)
      (hw : w' = (w.answered L (.dbiOpen ⟨e, t⟩ name 0) .panicked).poisonedTxn t k e h) :
    Ensured L w t k e h name w' (.error (.stop (.assertionFailed info)))

/-- A missing named database is reported with the path of its environment. -/
theorem stopMissingDbi_run (he : w.envs e = some h) (howner : k.owner = some e) (name : Bytes) :
    (stopMissingDbi k name : Pkg σ Unit).run w = (.error (.stop (.missingDbi name h.path)), w) := by
  rw [stopMissingDbi, howner, nonNull_some, pure_bind, Prog.bind_ok (derefEnv_run he)]
  rfl

theorem ensureDbiNamed_run (he : w.envs e = some h) (ht : w.txns t = some k)
    (howner : k.owner = some e) (htxn : k.txn = some ⟨e, t⟩) (name : Option Bytes) :
    Ensured L w t k e h name ((ensureDbiNamed L t name).run w).2
      ((ensureDbiNamed L t name).run w).1 := by
  rw [ensureDbiNamed, Prog.bind_ok (derefTxn_run ht)]
  cases hcached : k.cached name with
  | some dbi =>
    rw [Prog.bind_ok (updateTxn_run ht _)]
    exact .cached dbi hcached rfl
  | none =>
    have hbody : (dbiCall L k name 0).run w =
        (native L (.dbiOpen ⟨e, t⟩ name 0) >>= fun r => pure (r.rc, r.out)).run w := by
      rw [dbiCall, htxn, nonNull_some, pure_bind]
    rcases guardTxn_run (fun r : Reply (.dbiOpen ⟨e, t⟩ name 0) => ((r.rc, r.out) : Status × Dbi))
      he ht howner hbody with ⟨r, hcall, hrun⟩ | ⟨info, hcall, hrun⟩
    swap
    · rw [Prog.bind_error hrun]
      exact .panicked info hcached hcall rfl
    rw [Prog.bind_ok hrun]
    dsimp only
    by_cases hmissing : r.rc = Status.notFound ∧ name ≠ none
    · obtain ⟨hnotFound, hsome⟩ := hmissing
      obtain ⟨name, rfl⟩ := Option.ne_none_iff_exists'.mp hsome
      have hrc : r.rc ≠ Status.success := by rw [hnotFound]; decide
      have hstop := stopMissingDbi_run
        (w := w.answered L (.dbiOpen ⟨e, t⟩ (some name) 0) (.returned r.rc)) (h := h) he howner name
      have hends : Ensured L w t k e h (some name) _ _ := .failed r hcached hcall hrc rfl
      rw [ifSome_some, whenever_pos hnotFound, Prog.bind_error hstop]
      simpa only [missing, if_pos hnotFound] using hends
    have hpass : (ifSome name fun name => whenever (r.rc = Status.notFound)
        (stopMissingDbi k name) : Pkg σ Unit) = pure () := by
      cases name with
      | none => rfl
      | some name => rw [ifSome_some, whenever_neg fun hrc => hmissing ⟨hrc, by simp⟩]
    rw [hpass, pure_bind]
    by_cases hrc : r.rc = Status.success
    · rw [hrc, Prog.bind_ok check_success,
        Prog.bind_ok (updateTxn_run (w := World.answered ..) ht _)]
      exact .opened r hcached hcall hrc rfl
    · have hends : Ensured L w t k e h name _ _ := .failed r hcached hcall hrc rfl
      rw [Prog.bind_error (check_failure hrc)]
      cases name with
      | none => exact hends
      | some name =>
        have hnotFound : r.rc ≠ Status.notFound := fun heq => hmissing ⟨heq, by simp⟩
        simpa only [missing, if_neg hnotFound] using hends

/-- The world after `ensure_dbi` has succeeded: only the handle and the library may differ. -/
structure Resolved (w : World σ) (t : TxnRef) (k : TxnHandle) (name : Option Bytes) (d : Dbi)
    (w' : World σ) (k' : TxnHandle) : Prop where
  at_ : w'.txns t = some k'
  envs : w'.envs = w.envs
  txnSexps : w'.txnSexps = w.txnSexps
  envSexps : w'.envSexps = w.envSexps
  pid : w'.pid = w.pid
  owner : k'.owner = k.owner
  txn : k'.txn = k.txn
  dbi : k'.dbi = d
  cached : k'.cached name = some d

theorem Ensured.resolved {name : Option Bytes} {dbi : Dbi}
    (H : Ensured L w t k e h name w' (.ok dbi)) : ∃ k', Resolved w t k name dbi w' k' := by
  cases H with
  | cached _ hcached hw =>
    subst hw
    refine ⟨{ k with dbi := dbi }, by simp, rfl, rfl, rfl, rfl, rfl, rfl, rfl, ?_⟩
    cases name <;> exact hcached
  | opened r hcached _ _ hw =>
    subst hw
    have hremember := TxnHandle.cached_remember hcached r.out
    refine ⟨{ k.remember name r.out with dbi := r.out }, by simp, rfl, rfl, rfl, rfl, ?_, ?_, rfl,
      ?_⟩
    · cases name <;> rfl
    · cases name <;> rfl
    · cases name <;> exact hremember

/-- A database that the cache holds is resolved without a call. -/
theorem ensureDbiNamed_cached {name : Option Bytes} {dbi : Dbi} (ht : w.txns t = some k)
    (hcached : k.cached name = some dbi) : (ensureDbiNamed L t name).run w =
      (.ok dbi, w.setTxn t (some { k with dbi := dbi })) := by
  rw [ensureDbiNamed, Prog.bind_ok (derefTxn_run ht), hcached]
  exact Prog.bind_ok (updateTxn_run ht _)

end Mdbx
