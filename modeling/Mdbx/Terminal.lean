import Mdbx.Finalizers

/-! How transactions end: the recorded state of a handle once it has left active, what a commit
that reached libmdbx makes of it, and what later queries answer. -/

namespace Mdbx

open ProofKit

variable {σ : Type} {w w' : World σ} {L : Platform σ}

/-- The recorded state of the transaction handle `t`. -/
def World.stateOf (w : World σ) (t : TxnRef) : Option TxnState := (w.txns t).map TxnHandle.state

theorem World.stateOf_eq {t : TxnRef} {k : TxnHandle} (ht : w.txns t = some k) :
    w.stateOf t = some k.state := by
  rw [stateOf, ht, Option.map_some]

/-! ### Recorded states across a run -/

/-- What a run leaves of the recorded states: handles are neither made anew nor set back. -/
structure Recorded (w w' : World σ) : Prop where
  next : w.next ≤ w'.next
  state : ∀ {t s'}, w'.stateOf t = some s' → t < w.next →
    ∃ s, w.stateOf t = some s ∧ (s ≠ .active → s' = s)

theorem Recorded.refl (w : World σ) : Recorded w w := ⟨le_rfl, fun hs _ => ⟨_, hs, fun _ => rfl⟩⟩

theorem Recorded.trans {w'' : World σ} (R : Recorded w w') (R' : Recorded w' w'') :
    Recorded w w'' where
  next := R.next.trans R'.next
  state hs hlt := by
    obtain ⟨s', hs', hkeep'⟩ := R'.state hs (hlt.trans_le R.next)
    obtain ⟨s, hs, hkeep⟩ := R.state hs' hlt
    refine ⟨s, hs, fun hended => ?_⟩
    have := hkeep hended
    subst this
    exact hkeep' hended

theorem Later.recorded {may : NativeCall → Prop} (H : Later may w w') : Recorded w w' where
  next := H.next
  state {t s'} hs hlt := by
    obtain ⟨k', hk', rfl⟩ := Option.map_eq_some_iff.mp hs
    obtain ⟨k, hk, -, -, hstate⟩ := H.txn hk' hlt
    exact ⟨k.state, World.stateOf_eq hk, hstate⟩

theorem Command.may_commit {command : Command} {p : TxnPtr} :
    command.may (.txnCommit p) ↔ command = .txnCommit (.txn p.id) := by
  constructor
  · intro h
    cases command with
    | txnCommit x =>
      cases x with
      | txn x =>
        have hx : p.id = x := h
        rw [hx]
      | env | other => exact h.elim
    | _ => exact h.elim
  · rintro rfl
    exact rfl

/-- What one event does to the recorded states, and which transactions it may commit. -/
theorem Event.recorded (I : Inv { lossy := true } w) (event : Event) :
    Recorded w (event.next L w) ∧ ∀ {p}, Committed (event.next L w).log p →
      Committed w.log p ∨ event.may (.txnCommit p) := by
  cases event with
  | entry command =>
    have H := (command.spec L (by simp) I).1.later
    exact ⟨H.recorded, H.committed⟩
  | finalize object =>
    have H := (finalize_sound L I object).later
    exact ⟨H.recorded, H.committed⟩
  | fork child => exact ⟨⟨le_rfl, fun hs _ => ⟨_, hs, fun _ => rfl⟩⟩, .inl⟩

theorem Steps.recorded (I : Inv { lossy := true } w) (h : Steps L w w') : Recorded w w' := by
  induction h with
  | refl => exact .refl w
  | tail hsteps hstep ih =>
    obtain ⟨event, -, rfl⟩ := hstep
    exact ih.trans (event.recorded (Steps.inv (by simp) I hsteps)).1

/-! ### Runs without a commit of one transaction -/

/-- One event takes `w` to `w'`, and it is no call of `mdbx_txn_commit_` on the object `t`. -/
def StepSparing (L : Platform σ) (t : TxnRef) (w w' : World σ) : Prop :=
  ∃ event : Event, event ≠ .entry (.txnCommit (.txn t)) ∧ event.Allowed w ∧ w' = event.next L w

/-- A run from `w` to `w'` without calls of `mdbx_txn_commit_` on the object `t`. -/
abbrev StepsSparing (L : Platform σ) (t : TxnRef) : World σ → World σ → Prop :=
  Relation.ReflTransGen (StepSparing L t)

theorem StepSparing.step {t : TxnRef} (h : StepSparing L t w w') : Step L w w' := by
  obtain ⟨event, -, hallowed, rfl⟩ := h
  exact ⟨event, hallowed, rfl⟩

theorem StepSparing.not_committed (I : Inv { lossy := true } w) {t : TxnRef}
    (h : StepSparing L t w w') (hs : w.stateOf t ≠ some .committed) :
    w'.stateOf t ≠ some .committed := by
  intro hs'
  have I' := h.step.inv L (by simp) I
  obtain ⟨event, hother, -, rfl⟩ := h
  obtain ⟨R, hcommitted⟩ := event.recorded I
  obtain ⟨k', hk', hstate'⟩ := Option.map_eq_some_iff.mp hs'
  obtain ⟨e, hc'⟩ := (I'.traced.committed hk' (by simp)).mp hstate'
  -- The commit is older than the event, so the handle it ended has been committed since.
  have hc : Committed w.log ⟨e, t⟩ := by
    refine (hcommitted hc').resolve_right fun hmay => hother ?_
    cases event with
    | finalize | fork => exact hmay.elim
    | entry command => rw [command.may_commit.mp hmay]
  have hlt : t < w.next := by
    obtain ⟨c, hmem, hcall, -⟩ := hc
    exact ((I.fresh.log hmem).2.2.1 ⟨e, t⟩ (by rw [hcall]; rfl)).2
  obtain ⟨s, hs₀, -⟩ := R.state hs' hlt
  obtain ⟨k, hk, rfl⟩ := Option.map_eq_some_iff.mp hs₀
  rw [World.stateOf_eq hk, (I.traced.committed hk (by simp)).mpr ⟨e, hc⟩] at hs
  exact hs rfl

theorem StepsSparing.not_committed (I : Inv { lossy := true } w) {t : TxnRef}
    (h : StepsSparing L t w w') (hs : w.stateOf t ≠ some .committed) :
    Inv { lossy := true } w' ∧ w'.stateOf t ≠ some .committed := by
  induction h with
  | refl => exact ⟨I, hs⟩
  | tail _ hstep ih => exact ⟨hstep.step.inv L (by simp) ih.1, hstep.not_committed ih.1 ih.2⟩

theorem activeState_not_committed (k : TxnHandle) (w : World σ) :
    ((activeState L k).run w).1 ≠ .ok .committed := by
  intro h
  rw [activeState] at h
  rcases hp : (eitherPoisoned k : Pkg σ Bool).run w with ⟨x | poisoned, w₁⟩
  · rw [Prog.bind_error hp] at h
    cases h
  rw [Prog.bind_ok hp] at h
  cases poisoned with
  | true => cases h
  | false =>
    simp only [Bool.false_eq_true, if_false] at h
    rcases hf : (txnFailed L k).run w₁ with ⟨x | failed, w₂⟩
    · rw [Prog.bind_error hf] at h
      cases h
    · rw [Prog.bind_ok hf] at h
      cases failed <;> cases h

/-- `mdbx_txn_state_` answers committed for no other handle than one recorded so. -/
theorem mdbxTxnState_committed (I : Inv { lossy := true } w) {t : TxnRef}
    (h : ((mdbxTxnState_ L (.txn t)).run w).1 = .ok .committed) :
    w.stateOf t = some .committed := by
  rw [mdbxTxnState_] at h
  rcases isTxnSexp_run (.txn t) w with hx | ⟨n, s, hn, hs, hx⟩
  · rw [Prog.bind_error hx] at h
    cases h
  cases hn
  rw [Prog.bind_ok hx] at h
  cases haddr : s.addr with
  | none =>
    rw [haddr] at h
    cases h
  | some t' =>
    obtain ⟨rfl, hsome⟩ := I.graph.txnSexp hs haddr
    obtain ⟨k, hk⟩ := Option.isSome_iff_exists.mp hsome
    rw [haddr] at h
    simp only at h
    rw [Prog.bind_ok (derefTxn_run hk), Prog.bind_ok currentPid_run] at h
    rw [World.stateOf_eq hk]
    split at h
    · cases h
    · cases hstate : k.state with
      | committed => rfl
      | aborted =>
        rw [hstate] at h
        cases h
      | active =>
        rw [hstate] at h
        exact absurd h (activeState_not_committed k w)

/-! ### Commits that reached libmdbx -/

/-- The entry point left by a raised condition. -/
def Raises {α : Type} (r : Except Exit α) : Prop := ∃ c, r = .error (.stop c)

/-- What a call of an entry point that asked libmdbx to commit `p` made of it, by the outcome `o` of
the native commit. -/
structure CommitAnswered (L : Platform σ) (p : TxnPtr) (o : Outcome) (w : World σ)
    (r : Except Exit Answer) (w' : World σ) : Prop where
  asked : ∃ recent, w'.log = recent ++ ⟨w.pid, .txnCommit p, o⟩ :: w.log ∧
    ∀ c ∈ recent, c.call = .envHeapRoots p.env
  success : o = .returned Status.success → r = .ok .null ∧ w'.stateOf p.id = some .committed
  failure : ∀ rc, o = .returned rc → rc ≠ Status.success → rc ≠ Status.threadMismatch →
    Raises r ∧ w'.stateOf p.id = some .aborted
  /-- The transaction may still be committed and aborted. -/
  mismatch : o = .returned Status.threadMismatch → Raises r ∧ w'.StillLive p.env p.id ∧
    ∀ commit, ∃ r' w'' o', (finishEntry L commit (.txn p.id)).run w' = (r', w'') ∧
      ⟨w.pid, finishNative commit p, o'⟩ :: w'.log <:+ w''.log
  panicked : o = .panicked → Raises r ∧ w'.stateOf p.id = some .active

section Commits

variable {e : EnvRef} {h : EnvHandle} {t : TxnRef} {k : TxnHandle} {s : TxnSexp}

/-- A commit and an abort of a live transaction of a usable environment both reach libmdbx. -/
theorem finishEntry_asks (G : Graph w) (hs : w.txnSexps t = some s) (haddr : s.addr = some t)
    (he : OpenEnv w e h) (ht : LiveTxn w e t k) (commit : Bool) :
    ∃ r w' o, (finishEntry L commit (.txn t)).run w = (r, w') ∧
      ⟨w.pid, finishNative commit ⟨e, t⟩, o⟩ :: w.log <:+ w'.log := by
  obtain ⟨r, w', hrun, F⟩ :=
    finishTxn_run L G (txnFromSexp_live G hs haddr he ht) hs he.at_ ht commit
  obtain ⟨o, hlog⟩ := F.log
  refine ⟨r, w', o, ?_, hlog⟩
  cases commit with
  | true => exact hrun
  | false =>
    have hrun' := mdbxTxnAbort_healthy L G hs haddr he.at_ ht (by simp [he.healthy])
    exact hrun'.trans hrun

/-- A commit of a live transaction, by what libmdbx answered. -/
theorem Finishes.commitAnswered (G : Graph w) (hs : w.txnSexps t = some s) (haddr : s.addr = some t)
    (he : OpenEnv w e h) (ht : LiveTxn w e t k) {r : Except Exit Unit}
    (F : Finishes true e h t k s w r w') :
    ∃ o, CommitAnswered L ⟨e, t⟩ o w (r.map fun _ => .null) w' := by
  have hactive : k.state = .active := (G.state ht.at_).mpr (by simp [ht.owner])
  cases F with
  | panicked info lib =>
    refine ⟨.panicked, ⟨[], rfl, by simp⟩, by simp, by simp, by simp, fun _ => ⟨⟨_, rfl⟩, ?_⟩⟩
    simp [World.stateOf, hactive]
  | mismatch lib =>
    have G' : Graph (w.called (finishNative true ⟨e, t⟩) lib (.returned Status.threadMismatch)) :=
      { G with }
    have ht' : LiveTxn (w.called (finishNative true ⟨e, t⟩) lib
      (.returned Status.threadMismatch)) e t k := ⟨ht.at_, ht.owner⟩
    refine ⟨.returned Status.threadMismatch, ⟨[], rfl, by simp⟩, ?_, ?_, fun _ => ⟨⟨_, rfl⟩,
      G'.stillLive ht', fun commit => ?_⟩, by simp⟩
    · intro ho
      cases ho
    · rintro rc ho - hne
      cases ho
      exact absurd rfl hne
    · obtain ⟨r', w'', o', hrun, hlog⟩ :=
        finishEntry_asks (L := L) G' hs haddr ⟨he.at_, he.env, he.healthy, he.pid⟩ ht' commit
      exact ⟨r', w'', o', hrun, hlog⟩
  | ended lib rc hrc w₁ h' R he' =>
    have hstate : ((w₁.detached t k e h' (finishState true rc)).setTxnSexp t
        { s with prot := none }).stateOf t = some (finishState true rc) := by
      simp [World.stateOf, World.detached, TxnHandle.finished]
    refine ⟨.returned rc, ?_, ?_, ?_, ?_, by simp⟩
    · cases R with
      | same => exact ⟨[], rfl, by simp⟩
      | asked lib' rc' => exact ⟨[⟨w.pid, .envHeapRoots e, .returned rc'⟩], rfl, by simp⟩
    · intro ho
      cases ho
      exact ⟨rfl, hstate⟩
    · intro rc' ho hne _
      cases ho
      refine ⟨?_, hstate.trans (by simp [finishState, hne])⟩
      rw [finishResult, if_neg hne]
      split
      · exact ⟨_, rfl⟩
      · exact ⟨_, rfl⟩
    · intro ho
      cases ho
      exact absurd rfl hrc

/-- An entry point that asked libmdbx to commit `p` is `mdbx_txn_commit_` on its object. -/
theorem Command.commitAnswered (I : Inv { lossy := true } w) (command : Command) (p : TxnPtr)
    (hasked : callsOf (.txnCommit p) ((command.run L).run w).2.log ≠ callsOf (.txnCommit p) w.log) :
    command = .txnCommit (.txn p.id) ∧ w.stateOf p.id = some .active ∧
      ∃ o, CommitAnswered L p o w ((command.run L).run w).1 ((command.run L).run w).2 := by
  have hmay : command.may (.txnCommit p) := by
    by_contra hno
    exact hasked ((command.spec L (by simp) I).1.later.reserved rfl hno)
  obtain rfl := command.may_commit.mp hmay
  refine ⟨rfl, ?_⟩
  rcases finishTxn_cases L I.graph (.txn p.id) true with
    ⟨c, hr⟩ | ⟨e, h, t, k, s, r, w', hx, hs, haddr, he, ht, hr, F⟩
  · have hrun : ((Command.txnCommit (.txn p.id)).run L).run w = _ :=
      Prog.map_run (fun _ => Answer.null) hr
    rw [hrun] at hasked
    exact absurd rfl hasked
  · have hrun : ((Command.txnCommit (.txn p.id)).run L).run w = _ :=
      Prog.map_run (fun _ => Answer.null) hr
    rw [hrun] at hasked ⊢
    obtain ⟨o, A⟩ := F.commitAnswered (L := L) I.graph hs haddr he ht
    have hp : p = ⟨e, t⟩ := by
      obtain ⟨recent, hlog, hrecent⟩ := A.asked
      by_contra hne
      refine hasked ?_
      rw [hlog, callsOf, List.countP_append, List.countP_cons,
        List.countP_eq_zero.mpr fun c hc => by simp [hrecent c hc]]
      simp [callsOf, Ne.symm hne]
    subst hp
    refine ⟨?_, o, A⟩
    rw [World.stateOf_eq ht.at_, (I.graph.state ht.at_).mpr (by simp [ht.owner])]

end Commits

/-- A call of `mdbx_txn_commit_` that raised on a transaction not recorded committed leaves it
unrecorded. -/
theorem mdbxTxnCommit_raised (I : Inv { lossy := true } w) {t : TxnRef} {x : Exit}
    (hraised : ((mdbxTxnCommit_ L (.txn t)).run w).1 = .error x)
    (hs : w.stateOf t ≠ some .committed) :
    ((mdbxTxnCommit_ L (.txn t)).run w).2.stateOf t ≠ some .committed := by
  rcases finishTxn_cases L I.graph (.txn t) true with
    ⟨c, hr⟩ | ⟨e, h, t', k, s, r, w', hx, hs', haddr, he, ht, hr, F⟩
  · have hrun : (mdbxTxnCommit_ L (.txn t)).run w = _ := hr
    rw [hrun]
    exact hs
  · cases hx
    have hrun : (mdbxTxnCommit_ L (.txn t)).run w = _ := hr
    rw [hrun] at hraised ⊢
    have hactive : k.state = .active := (I.graph.state ht.at_).mpr (by simp [ht.owner])
    cases F with
    | panicked info lib => simp [World.stateOf, hactive]
    | mismatch lib => exact hs
    | ended lib rc hrc w₁ h' R he' =>
      have hne : rc ≠ Status.success := by
        rintro rfl
        cases hraised
      simp [World.stateOf, World.detached, TxnHandle.finished, finishState, hne]

/-- How transactions end, in every run. -/
theorem Reachable.terminal (hr : Reachable L w) :
    (∀ t s, w.stateOf t = some s → s ≠ .active → ∀ w', Steps L w w' →
      w'.stateOf t = none ∨ w'.stateOf t = some s) ∧
    (∀ t s, w.stateOf t = some s → (s = .committed ↔ ∃ e, Committed w.log ⟨e, t⟩)) ∧
    (∀ (command : Command) p,
      callsOf (.txnCommit p) ((command.run L).run w).2.log ≠ callsOf (.txnCommit p) w.log →
      command = .txnCommit (.txn p.id) ∧ w.stateOf p.id = some .active ∧
        ∃ o, CommitAnswered L p o w ((command.run L).run w).1 ((command.run L).run w).2) ∧
    ∀ t x, w.stateOf t ≠ some .committed → ((mdbxTxnCommit_ L (.txn t)).run w).1 = .error x →
      ∀ w', StepsSparing L t ((mdbxTxnCommit_ L (.txn t)).run w).2 w' →
        ((mdbxTxnState_ L (.txn t)).run w').1 ≠ .ok .committed := by
  have I : Inv { lossy := true } w := hr.invariant (by simp)
  refine ⟨?_, ?_, fun command p => command.commitAnswered I p, ?_⟩
  · intro t s hs hended w' hsteps
    obtain ⟨k, hk, rfl⟩ := Option.map_eq_some_iff.mp hs
    cases hs' : w'.stateOf t with
    | none => exact .inl rfl
    | some s' =>
      obtain ⟨s, hs₀, hkeep⟩ := (hsteps.recorded I).state hs' (I.fresh.txn hk)
      rw [hs] at hs₀
      cases hs₀
      exact .inr (by rw [hkeep hended])
  · intro t s hs
    obtain ⟨k, hk, rfl⟩ := Option.map_eq_some_iff.mp hs
    exact I.traced.committed hk (by simp)
  · intro t x hs hraised w' hsteps hanswer
    have I₁ : Inv { lossy := true } ((mdbxTxnCommit_ L (.txn t)).run w).2 := by
      have := ((Command.txnCommit (.txn t)).spec L (by simp) I).1.inv
      rwa [show ((Command.txnCommit (.txn t)).run L).run w = _ from
        Prog.map_run (fun _ => Answer.null) (Prod.mk.eta).symm] at this
    obtain ⟨I₂, hs₂⟩ := hsteps.not_committed I₁ (mdbxTxnCommit_raised I hraised hs)
    exact hs₂ (mdbxTxnState_committed I₂ hanswer)

/-- A run that opens an environment and commits a transaction. -/
def openAndCommit : List Event := openAndBegin ++ [.entry (.txnCommit (.txn 1))]

/-- The transaction that it committed stays so when the environment is closed. -/
theorem Reachable.terminal_openAndCommit :
    ((World.start () 1).after obliging (openAndCommit ++ [.entry (.envClose (.env 0))])).stateOf 1
      = some .committed := by
  have hr : Reachable obliging ((World.start () 1).after obliging openAndCommit) :=
    ⟨(), 1, World.after_steps (by decide +kernel)⟩
  have hs : ((World.start () 1).after obliging openAndCommit).stateOf 1 = some .committed := by
    decide +kernel
  have hsteps : Steps obliging ((World.start () 1).after obliging openAndCommit)
      (((World.start () 1).after obliging openAndCommit).after obliging
        [.entry (.envClose (.env 0))]) :=
    World.after_steps (by decide +kernel)
  rcases (Reachable.terminal hr).1 1 _ hs (by simp) _ hsteps with
    hnone | hsome
  · exact absurd hnone (by decide +kernel)
  · exact hsome

/-- A second commit of a committed transaction raises, and the state that is reported after it is
committed. -/
theorem commit_raises_when_committed :
    Reachable obliging ((World.start () 1).after obliging openAndCommit) ∧
      ((mdbxTxnCommit_ obliging (.txn 1)).run ((World.start () 1).after obliging openAndCommit)).1
        = .error (.stop (.txnFinished .committed)) ∧
      ((mdbxTxnState_ obliging (.txn 1)).run ((mdbxTxnCommit_ obliging (.txn 1)).run
        ((World.start () 1).after obliging openAndCommit)).2).1 = .ok .committed := by
  refine ⟨⟨(), 1, World.after_steps (by decide +kernel)⟩, ?_, ?_⟩
  · decide +kernel
  · decide +kernel

end Mdbx
