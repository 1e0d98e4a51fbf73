import Mdbx.Entry

/-! The entry points that open, close, begin and end keep the invariant, and what those that end a
transaction can do. -/

namespace Mdbx

open ProofKit

variable {σ : Type} {lossy : Bool} {may : NativeCall → Prop} {w w₀ : World σ}

section Finish

variable (L : Platform σ) {e : EnvRef} {h : EnvHandle} {t : TxnRef} {k : TxnHandle} {s : TxnSexp}

/-- The call that `finish_call` makes. -/
def finishNative (commit : Bool) (p : TxnPtr) : NativeCall :=
  if commit then .txnCommit p else .txnAbort p .finishTxn

/-- How `finish_txn` ends once libmdbx has ended the transaction with `rc`. -/
def finishResult (rc : Status) : Except Exit Unit :=
  if rc = Status.resultTrue then .error (.stop .rolledBack)
  else if rc = Status.success then .ok () else .error (.stop (.status rc))

/-- The state that `finish_txn` records. -/
def finishState (commit : Bool) (rc : Status) : TxnState :=
  if commit = true ∧ rc = Status.success then .committed else .aborted

/-- The worlds that `finish_txn` can leave on a live transaction, with how it ends. -/
inductive Finishes (commit : Bool) (e : EnvRef) (h : EnvHandle) (t : TxnRef) (k : TxnHandle)
    (s : TxnSexp) (w : World σ) : Except Exit Unit → World σ → Prop where
  | panicked (info : PanicInfo) (lib : σ) :
    Finishes commit e h t k s w (.error (.stop (.assertionFailed info)))
      (((w.called (finishNative commit ⟨e, t⟩) lib .panicked).setEnv e
        (some { h with poisoned := true })).setTxn t (some { k with poisoned := true }))
  | mismatch (lib : σ) :
    Finishes commit e h t k s w (.error (.stop (.status Status.threadMismatch)))
      (w.called (finishNative commit ⟨e, t⟩) lib (.returned Status.threadMismatch))
  | ended (lib : σ) (rc : Status) (hrc : rc ≠ Status.threadMismatch) (w' : World σ)
      (h' : EnvHandle)
      (hr : Refreshed e h (w.called (finishNative commit ⟨e, t⟩) lib (.returned rc)) w')
      (he' : w'.envs e = some h') :
    Finishes commit e h t k s w (finishResult rc)
      ((w'.detached t k e h' (finishState commit rc)).setTxnSexp t { s with prot := none })

theorem finishCall_run (commit : Bool) (p : TxnPtr) (w : World σ) :
    (∃ rc lib, (finishCall L p commit).run w
      = (.ok rc, w.called (finishNative commit p) lib (.returned rc))) ∨
    ∃ info lib, (finishCall L p commit).run w
      = (.error (.panic info), w.called (finishNative commit p) lib .panicked) := by
  cases commit with
  | true =>
    rcases native_run L (.txnCommit p) w with ⟨r, lib, hr⟩ | ⟨info, lib, hr⟩
    · exact .inl ⟨r.rc, lib, Prog.bind_ok hr⟩
    · exact .inr ⟨info, lib, Prog.bind_error hr⟩
  | false =>
    rcases native_run L (.txnAbort p .finishTxn) w with ⟨r, lib, hr⟩ | ⟨info, lib, hr⟩
    · exact .inl ⟨r.rc, lib, Prog.bind_ok hr⟩
    · exact .inr ⟨info, lib, Prog.bind_error hr⟩

theorem releaseProtected_run (hs : w.txnSexps t = some s) :
    (releaseProtected (.txn t)).run w = (.ok (), w.setTxnSexp t { s with prot := none }) := by
  have hx : (isTxnSexp (.txn t)).run w = (.ok s, w) := by
    simp [isTxnSexp, hs]
  rw [releaseProtected, Prog.bind_ok hx, Prog.run_modify]

theorem Refreshed.txnSexps {h : EnvHandle} {w' : World σ} (R : Refreshed e h w w') (x : ℕ) :
    w'.txnSexps x = w.txnSexps x := by
  rw [R.sexps.2]

/-- `finish_txn` when libmdbx has ended the transaction. -/
theorem finishTxn_returned (G : Graph w) (hx : (txnFromSexp (.txn t)).run w = (.ok t, w))
    (hs : w.txnSexps t = some s) (he : w.envs e = some h) (ht : LiveTxn w e t k) {commit : Bool}
    {rc : Status} {lib : σ} (hr : (finishCall L ⟨e, t⟩ commit).run w
      = (.ok rc, w.called (finishNative commit ⟨e, t⟩) lib (.returned rc)))
    (hrc : rc ≠ Status.threadMismatch) :
    ∃ w' h', Refreshed e h (w.called (finishNative commit ⟨e, t⟩) lib (.returned rc)) w' ∧
      w'.envs e = some h' ∧ (finishTxn L (.txn t) commit).run w = (finishResult rc,
        (w'.detached t k e h' (finishState commit rc)).setTxnSexp t { s with prot := none }) := by
  have G₁ : Graph (w.called (finishNative commit ⟨e, t⟩) lib (.returned rc)) := { G with }
  obtain ⟨w', h', R, he', hmark⟩ := markFinished_run L G₁ (t := t) (k := k) (h := h) ht.at_
    ht.owner he (finishState commit rc)
  have hs' : (w'.detached t k e h' (finishState commit rc)).txnSexps t = some s := by
    have := R.txnSexps t
    exact this.trans hs
  refine ⟨w', h', R, he', ?_⟩
  rw [finishTxn, Prog.bind_ok hx, Prog.bind_ok (derefTxn_run ht.at_), G.txnPtr ht, nonNull_some,
    pure_bind, Prog.bind_ok (guard_ok hr), Prog.bind_ok (refuse_pass hrc), ← finishState,
    Prog.bind_ok hmark, Prog.bind_ok (releaseProtected_run hs')]
  by_cases htrue : rc = Status.resultTrue
  · rw [Prog.bind_error (refuse_run htrue), finishResult, if_pos htrue]
  · rw [Prog.bind_ok (refuse_pass htrue), finishResult, if_neg htrue]
    by_cases hok : rc = Status.success
    · rw [if_pos hok, hok, check_success]
    · rw [if_neg hok, check_failure hok]

/-- `finish_txn` past `txn_from_sexp`. -/
theorem finishTxn_run (G : Graph w) (hx : (txnFromSexp (.txn t)).run w = (.ok t, w))
    (hs : w.txnSexps t = some s) (he : w.envs e = some h) (ht : LiveTxn w e t k)
    (commit : Bool) :
    ∃ r w', (finishTxn L (.txn t) commit).run w = (r, w') ∧ Finishes commit e h t k s w r w' := by
  rcases finishCall_run L commit ⟨e, t⟩ w with ⟨rc, lib, hr⟩ | ⟨info, lib, hr⟩
  · by_cases hrc : rc = Status.threadMismatch
    · subst hrc
      refine ⟨_, _, ?_, .mismatch lib⟩
      rw [finishTxn, Prog.bind_ok hx, Prog.bind_ok (derefTxn_run ht.at_), G.txnPtr ht, nonNull_some,
        pure_bind, Prog.bind_ok (guard_ok hr), Prog.bind_error (refuse_run rfl)]
    · obtain ⟨w', h', R, he', hrun⟩ := finishTxn_returned L G hx hs he ht hr hrc
      exact ⟨_, _, hrun, .ended lib rc hrc w' h' R he'⟩
  · have hpoison := poisonTxn_run (w := w.called (finishNative commit ⟨e, t⟩) lib .panicked)
      ht.at_ ht.owner he
    rw [finishTxn, Prog.bind_ok hx, Prog.bind_ok (derefTxn_run ht.at_), G.txnPtr ht, nonNull_some,
      pure_bind, Prog.bind_error (guard_panic hr hpoison)]
    exact ⟨_, _, rfl, .panicked info lib⟩

theorem finishNative_txn (commit : Bool) (p : TxnPtr) :
    (finishNative commit p).txn? = some p ∧ (finishNative commit p).env? = none ∧
      (finishNative commit p).finishes = some p := by
  cases commit <;> exact ⟨rfl, rfl, rfl⟩

/-- Whatever `finish_txn` does to a live transaction keeps the invariant. -/
theorem Sound.finishes {r : Except Exit Unit} {w' : World σ} {commit : Bool}
    (S : Sound may w₀ { lossy } w) (he : OpenEnv w e h) (ht : LiveTxn w e t k)
    (hs : w.txnSexps t = some s) (haddr : s.addr = some t)
    (hmay : commit = true → may (.txnCommit ⟨e, t⟩)) (F : Finishes commit e h t k s w r w') :
    Sound may w₀ { lossy } w' ∧ ∀ x, r = .error x → IsStop x := by
  obtain ⟨htxn, henv, hfin⟩ := finishNative_txn commit ⟨e, t⟩
  have hbelow : (finishNative commit ⟨e, t⟩).Below w.next :=
    S.below he.at_ (by simp [henv]) (by simp [htxn]; exact ⟨k, ht⟩)
      (by cases commit <;> simp [finishNative]) (by cases commit <;> simp [finishNative])
  have hperm : ∀ o, Permitted w.log ⟨w.pid, finishNative commit ⟨e, t⟩, o⟩ := fun o =>
    S.permitted he (by simp) (by simp [henv]) (by simp [htxn]; exact ⟨k, ht⟩)
  have hclose : ∀ e', finishNative commit ⟨e, t⟩ ≠ .envClose e' := by
    cases commit <;> simp [finishNative]
  have hcreates : ∀ o pid e', ¬ Call.Creates ⟨w.pid, finishNative commit ⟨e, t⟩, o⟩ pid e' := by
    cases commit <;> simp [finishNative, Call.Creates]
  have hbegins : ∀ o pid p, ¬ Call.Begins ⟨w.pid, finishNative commit ⟨e, t⟩, o⟩ pid p := by
    cases commit <;> simp [finishNative, Call.Begins]
  have htears : ∀ {v : Waived} o p, Call.TearsDown ⟨w.pid, finishNative commit ⟨e, t⟩, o⟩ p →
      v.ending = some p.id ∧ ∃ k, w.txns p.id = some k := by
    cases commit <;> simp [finishNative, Call.TearsDown]
  have hshared : (finishNative commit ⟨e, t⟩).alone? = none := by cases commit <;> rfl
  have halone : ∀ o, lossy = false →
      AlonePermitted w.log ⟨w.pid, finishNative commit ⟨e, t⟩, o⟩ := fun o =>
    alonePermitted_of hshared _
  have hnew : ∀ o, NumberUnused w.log ⟨w.pid, finishNative commit ⟨e, t⟩, o⟩ := by
    cases commit <;> simp [finishNative, NumberUnused]
  have hasked : (finishNative commit ⟨e, t⟩).reserved = true →
      may (finishNative commit ⟨e, t⟩) := by
    intro hp
    cases commit with
    | true => exact hmay rfl
    | false => cases hp
  have hnone := fun e' => S.inv.not_committed ht rfl e'
  cases F with
  | panicked info lib =>
    have hcalled : Sound may w₀ { lossy, poison := some e }
        (w.called (finishNative commit ⟨e, t⟩) lib .panicked) := by
      refine (S.waivePoison rfl e).called hbelow (hperm _) (halone _) (hnew _) hclose (hcreates _)
        (fun pid p h => absurd h (hbegins _ pid p)) ?_ (by simp [Call.Ends])
        (by simp [Call.Commits]) (htears _) hasked
      rintro e' ⟨hgroup, -⟩
      simp only [NativeCall.group, htxn, henv, Option.some.injEq] at hgroup
      rw [← hgroup]
    have hpanicked := w.called_panicked (c := finishNative commit ⟨e, t⟩) (e := e)
      (by simp [NativeCall.group, htxn, henv]) lib
    exact ⟨hcalled.poisonTxn he.at_ ⟨ht.at_, ht.owner⟩ hpanicked, by rintro _ ⟨⟩; exact ⟨_, rfl⟩⟩
  | mismatch lib =>
    refine ⟨S.called hbelow (hperm _) (halone _) (hnew _) hclose (hcreates _)
      (fun pid p h => absurd h (hbegins _ pid p)) (by simp [Call.Panics]) (by simp [Call.Ends])
      ?_ (htears _) hasked, by rintro _ ⟨⟩; exact ⟨_, rfl⟩⟩
    rintro p ⟨-, hrc⟩
    simp [Status.threadMismatch, Status.success] at hrc
  | ended lib rc hrc w₁ h₁ R he₁ =>
    have hcalled : Sound may w₀ { lossy, ending := some t }
        (w.called (finishNative commit ⟨e, t⟩) lib (.returned rc)) := by
      refine (S.waiveEnding rfl t).called hbelow (hperm _) (halone _) (hnew _) hclose (hcreates _)
        (fun pid p h => absurd h (hbegins _ pid p)) (by simp [Call.Panics]) ?_ ?_
        (htears _) hasked
      · rintro p ⟨hp, -⟩
        rw [hfin] at hp
        cases hp
        exact ⟨rfl, k, ht.at_⟩
      · rintro p ⟨hp, -⟩
        cases commit with
        | true =>
          cases hp
          rfl
        | false => cases hp
    have S₁ := hcalled.refreshed R he.at_ (by simp)
    have ht₁ : LiveTxn w₁ e t k := ⟨by rw [R.txns]; exact ht.at_, ht.owner⟩
    have hstate : finishState commit rc = .committed ↔ ∃ e', Committed w₁.log ⟨e', t⟩ := by
      simp only [R.committed, World.called_log, committed_cons, hnone, or_false]
      cases commit <;> by_cases hok : rc = Status.success <;>
        simp [finishState, finishNative, Call.Commits, hok]
    have hactive : finishState commit rc ≠ .active := by
      unfold finishState
      split <;> simp
    have hended : Released w₁.log ⟨e, t⟩ := R.released (.inl ((ended_cons _ _ _).mpr
      (.inl ⟨hfin, by simp, by simpa using hrc⟩)))
    have S₂ := Sound.detached (v := { lossy }) S₁ he₁ ht₁ hactive hstate (.inl hended)
    have hfinished : (w₁.detached t k e h₁ (finishState commit rc)).txns t
        = some (k.finished (finishState commit rc)) := by simp [World.detached]
    refine ⟨(S₂.waiveReclaimed rfl t).setTxnSexp (S₂.inv.fresh.txn hfinished) haddr
      (by simp [hfinished]) (.inl ?_), ?_⟩
    · simp [World.detached, R.sexps.2, hs]
    · intro x hx
      unfold finishResult at hx
      split at hx
      · cases hx
        exact ⟨_, rfl⟩
      · split at hx <;> cases hx
        exact ⟨_, rfl⟩

/-- `finish_txn` refuses what it was given, or asks libmdbx to end a live transaction. -/
theorem finishTxn_cases (G : Graph w) (x : Sexp) (commit : Bool) :
    (∃ c, (finishTxn L x commit).run w = (.error (.stop c), w)) ∨
      ∃ e h t k s r w', x = .txn t ∧ w.txnSexps t = some s ∧ s.addr = some t ∧ OpenEnv w e h ∧
        LiveTxn w e t k ∧ (finishTxn L x commit).run w = (r, w') ∧
        Finishes commit e h t k s w r w' := by
  rcases txnFromSexp_run G x with ⟨c, hr⟩ | ⟨e, h, t, k, s, rfl, hs, haddr, hr, he, ht⟩
  · exact .inl ⟨c, by rw [finishTxn, Prog.bind_error hr]⟩
  · obtain ⟨r, w', hrun, F⟩ := finishTxn_run L G hr hs he.at_ ht commit
    exact .inr ⟨e, h, t, k, s, r, w', rfl, hs, haddr, he, ht, hrun, F⟩

theorem finishTxn_entry (x : Sexp) (commit : Bool)
    (hmay : commit = true → ∀ p : TxnPtr, x = .txn p.id → may (.txnCommit p)) :
    Entry lossy may w₀ (finishTxn L x commit) := by
  intro w S _
  rcases finishTxn_cases L S.inv.graph x commit with
    ⟨c, hr⟩ | ⟨e, h, t, k, s, r, w', rfl, hs, haddr, he, ht, hrun, F⟩
  · exact Triple.error hr ⟨S, .stop c⟩
  · obtain ⟨S', hstop⟩ := S.finishes he ht hs haddr (fun hc => hmay hc ⟨e, t⟩ rfl) F
    cases r with
    | ok a => exact Triple.ok hrun ⟨S', trivial⟩
    | error x => exact Triple.error hrun ⟨S', .inl (hstop x rfl)⟩

/-! ### Aborts without libmdbx -/

theorem endedHere_run (G : Graph w) (he : w.envs e = some h) (ht : LiveTxn w e t k) :
    (endedHere k).run w = (.ok (decide (k.pid = w.pid ∧ h.poisoned = true)), w) := by
  obtain ⟨h', he', henv, -, hpois⟩ := G.owner ht.at_ ht.owner
  obtain rfl : h = h' := Option.some.inj (he ▸ he')
  rw [endedHere, Prog.bind_ok currentPid_run]
  by_cases hpid : k.pid = w.pid
  · rw [if_neg (not_not.mpr hpid)]
    cases hk : k.poisoned with
    | true => simp [hpid, hpois hk]
    | false =>
      simp only [ht.owner]
      rw [if_neg (by simp), Prog.bind_ok (derefEnv_run he)]
      simp [henv, hpid]
  · simp [hpid]

/-- The world after `mdbx_txn_abort_` ended a transaction of a poisoned environment. -/
def World.endedHere (w : World σ) (e : EnvRef) (h : EnvHandle) (t : TxnRef) (k : TxnHandle)
    (s : TxnSexp) : World σ :=
  ({ w with abandoned := w.abandoned ++ [Abandoned.txn ⟨e, t⟩] }.detached t k e h
    .aborted).setTxnSexp t { s with prot := none }

theorem mdbxTxnAbort_poisoned (G : Graph w) (hs : w.txnSexps t = some s) (haddr : s.addr = some t)
    (he : w.envs e = some h) (ht : LiveTxn w e t k) (hpid : k.pid = w.pid)
    (hpois : h.poisoned = true) :
    (mdbxTxnAbort_ L (.txn t)).run w = (.ok (), w.endedHere e h t k s) := by
  have hx : (isTxnSexp (.txn t)).run w = (.ok s, w) := by
    simp [isTxnSexp, hs]
  have G₁ : Graph { w with abandoned := w.abandoned ++ [.txn ⟨e, t⟩] } := { G with }
  obtain ⟨w', h', R, he', hmark⟩ := markFinished_run L G₁ ht.at_ ht.owner he .aborted
  have hsame : w' = { w with abandoned := w.abandoned ++ [.txn ⟨e, t⟩] } := by
    cases R with
    | same => rfl
    | asked lib rc roots henv hhealthy => simp [hpois] at hhealthy
  subst hsame
  obtain rfl : h = h' := Option.some.inj (he ▸ he')
  rw [mdbxTxnAbort_, Prog.bind_ok hx, haddr, ifSome_some, Prog.bind_ok (derefTxn_run ht.at_),
    G.txnPtr ht, ifSome_some, Prog.bind_ok (endedHere_run G he ht), decide_eq_true ⟨hpid, hpois⟩,
    if_pos rfl, abandon, Prog.run_modify_bind, Option.toList_some, Prog.bind_ok hmark,
    releaseProtected_run (s := s) (by exact hs)]
  rfl

theorem mdbxTxnAbort_healthy (G : Graph w) (hs : w.txnSexps t = some s) (haddr : s.addr = some t)
    (he : w.envs e = some h) (ht : LiveTxn w e t k)
    (hnot : ¬ (k.pid = w.pid ∧ h.poisoned = true)) :
    (mdbxTxnAbort_ L (.txn t)).run w = (finishTxn L (.txn t) false).run w := by
  have hx : (isTxnSexp (.txn t)).run w = (.ok s, w) := by
    simp [isTxnSexp, hs]
  rw [mdbxTxnAbort_, Prog.bind_ok hx, haddr, ifSome_some, Prog.bind_ok (derefTxn_run ht.at_),
    G.txnPtr ht, ifSome_some, Prog.bind_ok (endedHere_run G he ht), decide_eq_false hnot]
  rfl

/-- An abort of a transaction that has ended, or of a cleared pointer, does nothing. -/
theorem mdbxTxnAbort_idle {n : ℕ} (hs : w.txnSexps n = some s)
    (hidle : ∀ t, s.addr = some t → ∃ k, w.txns t = some k ∧ k.txn = none) :
    (mdbxTxnAbort_ L (.txn n)).run w = (.ok (), w) := by
  have hx : (isTxnSexp (.txn n)).run w = (.ok s, w) := by
    simp [isTxnSexp, hs]
  rw [mdbxTxnAbort_, Prog.bind_ok hx]
  cases haddr : s.addr with
  | none => rfl
  | some t =>
    obtain ⟨k, ht, htxn⟩ := hidle t haddr
    rw [ifSome_some, Prog.bind_ok (derefTxn_run ht), htxn]
    rfl

theorem Sound.endedHere (S : Sound may w₀ { lossy } w) (he : w.envs e = some h)
    (ht : LiveTxn w e t k) (hs : w.txnSexps t = some s) (haddr : s.addr = some t)
    (hpois : h.poisoned = true) :
    Sound may w₀ { lossy } (w.endedHere e h t k s) := by
  have hnone := S.inv.not_committed ht rfl
  have S₁ := S.giveUpTxn rfl he ht (.inl hpois)
  have S₂ := Sound.detached (v := { lossy }) (k := k) S₁ he ⟨ht.at_, ht.owner⟩
    (by simp : TxnState.aborted ≠ .active) (by simp [hnone]) (.inr (by simp))
  refine (S₂.waiveReclaimed rfl t).setTxnSexp
    (S₂.inv.fresh.txn (t := t) (k := k.finished .aborted) (by simp [World.detached])) haddr
    (by simp [World.detached]) (.inl (by simp [World.detached, hs]))

/-- `mdbx_txn_abort_` changes nothing, ends a transaction of a poisoned environment by itself, or
asks libmdbx to end one. -/
theorem mdbxTxnAbort_cases (G : Graph w) (x : Sexp) :
    (∃ r, (mdbxTxnAbort_ L x).run w = (r, w) ∧ (r = .ok () ∨ ∃ c, r = .error (.stop c))) ∨
      (∃ e h t k s, x = .txn t ∧ w.txnSexps t = some s ∧ s.addr = some t ∧ w.envs e = some h ∧
        LiveTxn w e t k ∧ k.pid = w.pid ∧ h.poisoned = true ∧
        (mdbxTxnAbort_ L x).run w = (.ok (), w.endedHere e h t k s)) ∨
      ∃ e h t k s r w', x = .txn t ∧ w.txnSexps t = some s ∧ s.addr = some t ∧ OpenEnv w e h ∧
        LiveTxn w e t k ∧ (mdbxTxnAbort_ L x).run w = (r, w') ∧
        Finishes false e h t k s w r w' := by
  rcases isTxnSexp_run x w with hx | ⟨n, s, rfl, hs, hx⟩
  · exact .inl ⟨_, Prog.bind_error hx, .inr ⟨_, rfl⟩⟩
  by_cases hidle : ∀ t, s.addr = some t → ∃ k, w.txns t = some k ∧ k.txn = none
  · exact .inl ⟨_, mdbxTxnAbort_idle L hs hidle, .inl rfl⟩
  simp only [not_forall] at hidle
  obtain ⟨t, haddr, hlive⟩ := hidle
  obtain ⟨rfl, hsome⟩ := G.txnSexp hs haddr
  obtain ⟨k, hk⟩ := Option.isSome_iff_exists.mp hsome
  cases howner : k.owner with
  | none => exact absurd ⟨k, hk, by rw [G.txn hk, howner]; rfl⟩ hlive
  | some e =>
    obtain ⟨h, he, henv, hpid, -⟩ := G.owner hk howner
    have ht : LiveTxn w e t k := ⟨hk, howner⟩
    by_cases hhere : k.pid = w.pid ∧ h.poisoned = true
    · exact .inr (.inl ⟨e, h, t, k, s, rfl, hs, haddr, he, ht, hhere.1, hhere.2,
        mdbxTxnAbort_poisoned L G hs haddr he ht hhere.1 hhere.2⟩)
    · rw [mdbxTxnAbort_healthy L G hs haddr he ht hhere]
      rcases finishTxn_cases L G (.txn t) false with ⟨c, hr⟩ | hcases
      · exact .inl ⟨_, hr, .inr ⟨c, rfl⟩⟩
      · exact .inr (.inr hcases)

theorem mdbxTxnAbort_entry (x : Sexp) : Entry lossy may w₀ (mdbxTxnAbort_ L x) := by
  intro w S _
  rcases mdbxTxnAbort_cases L S.inv.graph x with ⟨r, hrun, rfl | ⟨c, rfl⟩⟩ |
    ⟨e, h, t, k, s, rfl, hs, haddr, he, ht, hpid, hpois, hrun⟩ |
    ⟨e, h, t, k, s, r, w', rfl, hs, haddr, he, ht, hrun, F⟩
  · exact Triple.ok hrun ⟨S, trivial⟩
  · exact Triple.error hrun ⟨S, .stop c⟩
  · exact Triple.ok hrun ⟨S.endedHere he ht hs haddr hpois, trivial⟩
  · obtain ⟨S', hstop⟩ := S.finishes he ht hs haddr (by simp) F
    cases r with
    | ok a => exact Triple.ok hrun ⟨S', trivial⟩
    | error x => exact Triple.error hrun ⟨S', .inl (hstop x rfl)⟩

end Finish

/-! ### Closing an environment -/

section Close

variable (L : Platform σ)

theorem mdbxEnvClose_entry (x : Sexp) : Entry lossy may w₀ (mdbxEnvClose_ L x) := by
  intro w S _
  rcases isEnvSexp_run x w with hx | ⟨n, s, rfl, hs, hx⟩
  · exact Triple.stopped hx ⟨S, .stop _⟩
  refine Triple.step hx ?_
  cases haddr : s.addr with
  | none => exact ⟨S, trivial⟩
  | some e =>
    obtain ⟨rfl, hsome⟩ := S.inv.graph.envSexp hs haddr
    obtain ⟨h, he⟩ := Option.isSome_iff_exists.mp hsome
    refine Triple.step (derefEnv_run he) ?_
    have hdetach : ∃ w' h', (whenever (h.poisoned = true) (detachTxns L e)).run w = (.ok (), w') ∧
        Sound may w₀ { lossy } w' ∧ w'.envs e = some h' := by
      by_cases hpois : h.poisoned = true
      · obtain ⟨w', h', hrun, S', he', -⟩ := detachTxns_spec L S rfl rfl he
        exact ⟨w', h', by rw [whenever_pos hpois, hrun], S', he'⟩
      · exact ⟨w, h, by rw [whenever_neg hpois]; rfl, S, he⟩
    obtain ⟨w', h', hrun, S', he'⟩ := hdetach
    refine Triple.step hrun (Triple.step (derefEnv_run he') ?_)
    by_cases hlive : h'.liveTxns = []
    · obtain ⟨r, w'', h'', hclose, S'', -, -, -, -, -, hr⟩ :=
        closeHandle_spec L S' rfl he' hlive (by simp) true
      refine Triple.step (refuse_pass (not_not.mpr hlive)) ?_
      rcases hr with rfl | ⟨-, c, rfl⟩
      · exact Triple.ok hclose ⟨S'', trivial⟩
      · exact Triple.error hclose ⟨S'', .stop c⟩
    · exact Triple.stopped (refuse_run hlive) ⟨S', .stop _⟩

end Close

end Mdbx
