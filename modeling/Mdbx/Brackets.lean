import Mdbx.Sequences
import Mdbx.Upkeep

/-! `mdbx_with_write` and `mdbx_with_read`: whatever their body does and however it ends, the
transaction ends with it, and what it wrote is committed as a whole or not at all. -/

namespace Mdbx

open ProofKit

variable {σ : Type}

/-! ### The R functions -/

section Functions

variable {X β : Type} (L : Platform σ)

/-- The attribute `readonly` of an object of the package. -/
def World.readonlyAttr (w : World σ) : Sexp → Option Bool
  | .env x => (w.envSexps x).map EnvSexp.readonly
  | .txn _ | .other => none

/-- `mdbx_txn_begin`, with its default `flags`. -/
def mdbxTxnBegin (env : Sexp) (write : Bool) : Front σ Sexp := do
  let w ← Prog.get
  Front.refuse (write = true ∧ w.readonlyAttr env = some true) .readonlyEnv
  Front.call (mdbxTxnBegin_ L env write [])

def mdbxTxnCommit (txn : Sexp) : Front σ Unit := Front.call (mdbxTxnCommit_ L txn)

def mdbxTxnAbort (txn : Sexp) : Front σ Unit := Front.call (mdbxTxnAbort_ L txn)

/-- `mdbx_with_write`.  The body may leave in any way, an error, a jump or an interrupt, and `raise`
makes such a way of a condition of the package. -/
def mdbxWithWrite (raise : Signal → X) (env : Sexp) (body : Sexp → Prog (World σ) X β) :
    Prog (World σ) X β := do
  let txn ← (mdbxTxnBegin L env true).mapExit raise
  Prog.onExit ((mdbxTxnAbort L txn).mapExit raise) do
    let result ← body txn
    (mdbxTxnCommit L txn).mapExit raise
    pure result

/-- `mdbx_with_read`. -/
def mdbxWithRead (raise : Signal → X) (env : Sexp) (body : Sexp → Prog (World σ) X β) :
    Prog (World σ) X β := do
  let txn ← (mdbxTxnBegin L env false).mapExit raise
  Prog.onExit ((mdbxTxnAbort L txn).mapExit raise) (body txn)

end Functions

/-! ### Bodies -/

/-- What happens inside a bracket on the transaction `t`: it is not ended there, and the process
does not fork. -/
def Event.OfBody (t : TxnRef) : Event → Prop
  | entry command => command ≠ .txnCommit (.txn t) ∧ command ≠ .txnAbort (.txn t)
  | finalize _ => True
  | fork _ => False

/-- R holds the object of the transaction `t`. -/
def World.HeldTxn (w : World σ) (t : TxnRef) : Prop :=
  ∃ s, w.txnSexps t = some s ∧ s.addr = some t

/-- R holds the objects of the environment `e` and of its transaction `t`. -/
structure World.Held (w : World σ) (e : EnvRef) (t : TxnRef) : Prop where
  env : ∃ s, w.envSexps e = some s ∧ s.addr = some e
  txn : w.HeldTxn t

/-- One event of a body takes `w` to `w'`. -/
def BodyStep (L : Platform σ) (e : EnvRef) (t : TxnRef) (w w' : World σ) : Prop :=
  ∃ event : Event, event.OfBody t ∧ w' = event.next L w ∧ w'.Held e t

/-- A body takes `w` to `w'`. -/
structure BodyRun (L : Platform σ) (e : EnvRef) (t : TxnRef) (w w' : World σ) : Prop where
  holds : w.Held e t
  steps : Relation.ReflTransGen (BodyStep L e t) w w'

section Bodies

variable {L : Platform σ} {w w' : World σ} {e : EnvRef} {t : TxnRef} {lossy : Bool}
  {new past : List Call} {c : Call}

theorem World.Held.envGone (h : w.Held e t) : ¬ w.EnvGone e := by
  obtain ⟨s, hs, haddr⟩ := h.env
  rintro ⟨s', hs', hnone⟩
  obtain rfl : s = s' := Option.some.inj (hs ▸ hs')
  simp [haddr] at hnone

theorem World.Held.txnGone (h : w.Held e t) : ¬ w.TxnGone t := by
  obtain ⟨s, hs, haddr⟩ := h.txn
  rintro ⟨s', hs', hnone⟩
  obtain rfl : s = s' := Option.some.inj (hs ▸ hs')
  simp [haddr] at hnone

/-- The transaction `t` of `e` is live, or the environment has panicked before it was ended. -/
def World.Underway (w : World σ) (e : EnvRef) (t : TxnRef) : Prop :=
  (∃ k, LiveTxn w e t k) ∨ (Panicked w.log e ∧ ¬ Closed w.log e ∧ ¬ Ended w.log ⟨e, t⟩)

theorem World.Underway.unended (I : Inv { lossy := true } w) (h : w.Underway e t) :
    ¬ Closed w.log e ∧ ¬ Ended w.log ⟨e, t⟩ := by
  rcases h with ⟨k, ht⟩ | ⟨-, h⟩
  · obtain ⟨h, he, henv, -⟩ := I.graph.owner ht.at_ ht.owner
    exact ⟨I.traced.notClosed he henv, I.traced.notEnded ht.at_ ht.owner (by simp)⟩
  · exact h

theorem Call.Ends.group {p : TxnPtr} (h : c.Ends p) : c.call.group = some p.env := by
  obtain ⟨hfinishes, -⟩ := h
  rcases c with ⟨pid, call, outcome⟩
  cases call <;> cases hfinishes <;> rfl

/-- Every call of a safe trace was permitted. -/
theorem Safe.permitted (h : Safe lossy (new ++ past)) (hc : c ∈ new) :
    ∃ before, past <:+ before ∧ Permitted before c := by
  obtain ⟨front, back, rfl⟩ := List.append_of_mem hc
  rw [List.append_assoc, List.cons_append] at h
  exact ⟨back ++ past, List.suffix_append _ _, (h.suffix (List.suffix_append _ _)).1⟩

/-- No call works in an environment that has panicked. -/
theorem Panicked.settled (hpanicked : Panicked past e) (h : Safe lossy (new ++ past))
    (hc : c ∈ new) : c.call.group ≠ some e := by
  intro hgroup
  obtain ⟨before, hpast, hpermitted⟩ := h.permitted hc
  obtain ⟨c', hc', hpanics⟩ := hpanicked
  exact (hpermitted.group hgroup).2.2 ⟨c', hpast.subset hc', hpanics⟩

/-- The calls of an end: it asks libmdbx to end the transaction, and then for the roots. -/
theorem Finishes.asked {commit : Bool} {h : EnvHandle} {k : TxnHandle} {s : TxnSexp}
    {r : Except Exit Unit} (F : Finishes commit e h t k s w r w') :
    ∃ o new, w'.log = new ++ ⟨w.pid, finishNative commit ⟨e, t⟩, o⟩ :: w.log ∧
      (∀ c ∈ new, c.call = .envHeapRoots e) ∧ (r = .ok () ↔ o = .returned Status.success) := by
  cases F with
  | panicked info lib => exact ⟨.panicked, [], rfl, by simp, by simp⟩
  | mismatch lib =>
    exact ⟨.returned Status.threadMismatch, [], rfl, by simp,
      by simp [Status.threadMismatch, Status.success]⟩
  | ended lib rc hrc w₁ h' R he' =>
    have hresult : finishResult rc = .ok () ↔ Outcome.returned rc = .returned Status.success := by
      rw [finishResult]
      split
      · simp [*, Status.resultTrue, Status.success]
      · split <;> simp [*]
    cases R with
    | same => exact ⟨.returned rc, [], rfl, by simp, hresult⟩
    | asked lib' rc' =>
      exact ⟨.returned rc, [⟨w.pid, .envHeapRoots e, .returned rc'⟩], rfl, by simp, hresult⟩

/-- Only `mdbx_txn_commit_` commits, and no transaction but the live one. -/
theorem Event.commits (I : Inv { lossy := true } w) {event : Event}
    (hnew : (event.next L w).log = new ++ w.log) (hc : c ∈ new) {p : TxnPtr} (hp : c.Commits p) :
    event = .entry (.txnCommit (.txn p.id)) ∧
      ∃ h k, OpenEnv w p.env h ∧ LiveTxn w p.env p.id k := by
  have hasked : callsOf (.txnCommit p) (event.next L w).log ≠ callsOf (.txnCommit p) w.log := by
    rw [hnew, callsOf, callsOf, List.countP_append]
    have : 0 < List.countP (fun c' => c'.call == .txnCommit p) new :=
      List.countP_pos_iff.mpr ⟨c, hc, by simp [hp.1]⟩
    omega
  have hevent : event = .entry (.txnCommit (.txn p.id)) := by
    cases event with
    | fork child => exact absurd rfl hasked
    | finalize object =>
      exact absurd ((finalize_sound L I object).later.reserved rfl id) hasked
    | entry command =>
      refine congrArg _ (command.may_commit.mp ?_)
      by_contra hno
      exact hasked ((command.spec L (by simp) I).1.later.reserved rfl hno)
  subst hevent
  refine ⟨rfl, ?_⟩
  rw [Event.next, Command.run, Prog.map_final, mdbxTxnCommit_] at hnew
  rcases finishTxn_cases L I.graph (.txn p.id) true with
    ⟨_, hr⟩ | ⟨e, h, t, k, s, r, w', hx, -, -, he, ht, hr, F⟩
  · rw [hr] at hnew
    have hnil : new = [] := by simpa using hnew
    simp [hnil] at hc
  · obtain ⟨o, roots, hlog, hroots, -⟩ := F.asked
    rw [hr, hlog, List.append_cons] at hnew
    obtain rfl := List.append_cancel_right hnew
    rcases List.mem_append.mp hc with hc | hc
    · have hcall := hroots c hc
      rw [hp.1] at hcall
      cases hcall
    · obtain rfl := List.mem_singleton.mp hc
      cases hp.1
      exact ⟨h, k, he, ht⟩

theorem Event.OfBody.allowed {event : Event} (h : event.OfBody t) : event.Allowed w := by
  cases event with
  | fork child => exact h.elim
  | _ => trivial

theorem BodyStep.step (h : BodyStep L e t w w') : Step L w w' := by
  obtain ⟨event, hbody, rfl, -⟩ := h
  exact ⟨event, hbody.allowed, rfl⟩

theorem BodyStep.pid (I : Inv { lossy := true } w) (h : BodyStep L e t w w') : w'.pid = w.pid := by
  obtain ⟨event, hbody, rfl, -⟩ := h
  cases event with
  | fork child => exact hbody.elim
  | entry command => exact (command.spec L (by simp) I).1.later.pid
  | finalize object => exact (finalize_sound L I object).later.pid

/-- A body does not end the transaction. -/
theorem BodyStep.underway (I : Inv { lossy := true } w) (hu : w.Underway e t)
    (h : BodyStep L e t w w') : w'.Underway e t := by
  have I' : Inv { lossy := true } w' := h.step.inv L (by simp) I
  obtain ⟨new, hnew⟩ := Steps.log (.single h.step)
  obtain ⟨event, hbody, rfl, hholds⟩ := h
  rcases hu with ⟨k, ht⟩ | ⟨hpanicked, hopen, hlive⟩
  · have hspared := event.spared (L := L) I (t := t) (e := e) (k := k)
      (by rintro rfl; exact hbody.1 rfl) (by rintro rfl; exact hbody.2 rfl) ht
    rcases hspared with hgone | hgone | hlive | ⟨hpanicked, hsame⟩
    · exact absurd hgone hholds.txnGone
    · exact absurd hgone hholds.envGone
    · exact .inl hlive
    · rw [World.Underway, hsame]
      exact .inr ⟨hpanicked, (World.Underway.unended I (.inl ⟨k, ht⟩))⟩
  · have hsafe : Safe true (new ++ w.log) := hnew ▸ I'.safe
    refine .inr ⟨?_, ?_, ?_⟩ <;> rw [← hnew]
    · obtain ⟨c, hc, hpanics⟩ := hpanicked
      exact ⟨c, List.mem_append_right _ hc, hpanics⟩
    · rintro ⟨c, hc, hcloses⟩
      rcases List.mem_append.mp hc with hc | hc
      · exact hpanicked.settled hsafe hc (by rw [hcloses.1]; rfl)
      · exact hopen ⟨c, hc, hcloses⟩
    · rintro ⟨c, hc, hends⟩
      rcases List.mem_append.mp hc with hc | hc
      · exact hpanicked.settled hsafe hc hends.group
      · exact hlive ⟨c, hc, hends⟩

/-- Nor does it commit another one in the environment. -/
theorem BodyStep.unwritten (I : Inv { lossy := true } w) (hu : w.Underway e t)
    (h : BodyStep L e t w w') : Unwritten w.log w'.log e := by
  have I' : Inv { lossy := true } w' := h.step.inv L (by simp) I
  refine ⟨fun new hnew c hc p hp henv => ?_, ((h.underway I hu).unended I').1⟩
  obtain ⟨event, hbody, rfl, -⟩ := h
  rcases hu with ⟨k, ht⟩ | ⟨hpanicked, -⟩
  · obtain ⟨rfl, h, k', he, ht'⟩ := Event.commits I hnew hc hp
    rw [henv] at he ht'
    have hsame := (I.graph.liveTxns_eq ht.at_ ht.owner he.at_).symm.trans
      (I.graph.liveTxns_eq ht'.at_ ht'.owner he.at_)
    obtain rfl : t = p.id := by simpa using hsame
    exact hbody.1 rfl
  · refine hpanicked.settled (hnew ▸ I'.safe) hc ?_
    rw [hp.1, ← henv]
    rfl

/-- What a whole body leaves of the transaction. -/
theorem BodyRun.underway (hr : Reachable L w) (hu : w.Underway e t) (h : BodyRun L e t w w') :
    Steps L w w' ∧ w'.Underway e t ∧ w'.pid = w.pid ∧ w'.Held e t ∧
      Unwritten w.log w'.log e := by
  obtain ⟨hholds, hsteps⟩ := h
  induction hsteps with
  | refl =>
    have I : Inv { lossy := true } w := hr.invariant (by simp)
    have hopen := (hu.unended I).1
    exact ⟨.refl, hu, rfl, hholds, .refl hopen⟩
  | tail _ hstep ih =>
    obtain ⟨hsteps, hu₁, hpid, -, hnone⟩ := ih
    have I : Inv { lossy := true } _ := (hr.steps hsteps).invariant (by simp)
    obtain ⟨event, -, -, hholds₂⟩ := id hstep
    exact ⟨hsteps.tail hstep.step, hstep.underway I hu₁, (hstep.pid I).trans hpid, hholds₂,
      hnone.trans (hstep.unwritten I hu₁) (Steps.log hsteps) (Steps.log (.single hstep.step))⟩

end Bodies

/-! ### The beginning of a bracket -/

section Begins

variable {V : Type} {S : Bases σ V} {L : Platform σ} {w w' : World σ} {e : EnvRef} {t : TxnRef}
  {write : Bool}

/-- The names of flags are looked up, and nothing else. -/
theorem of_txnFlagsFromNames {flags : List String} {bits : ℕ}
    (hrun : (txnFlagsFromNames flags).run w = (.ok bits, w')) :
    w' = w ∧ (flags = [] → bits = 0) := by
  rw [txnFlagsFromNames, flagsFromNames] at hrun
  rcases hbits : bitsFrom txnFlags flags with name | bits'
  · rw [hbits] at hrun
    cases hrun
  · rw [hbits] at hrun
    cases hrun
    refine ⟨rfl, ?_⟩
    rintro rfl
    cases hbits
    rfl

/-- A begin that returns has begun a transaction under the next number. -/
theorem mdbxTxnBegin_answered (G : Graph w) {flags : List String} {x : Sexp}
    (hrun : (mdbxTxnBegin_ L (.env e) write flags).run w = (.ok x, w')) :
    ∃ bits, (write = true → flags = [] → bits = 0) ∧
      L.outcome (.txnBegin ⟨e, w.next⟩ bits) w.lib = .returned Status.success ∧
      ∀ {R : World σ → World σ → Prop}, L.Frame R →
        R ({ w with next := w.next + 1 }.answered L (.txnBegin ⟨e, w.next⟩ bits)
          (.returned Status.success)) w' := by
  rcases envFromSexp_run G (.env e) with ⟨c, hr⟩ | ⟨e', h, s, hx, -, -, hr, he⟩
  · rw [mdbxTxnBegin_, Prog.bind_error hr] at hrun
    cases hrun
  cases hx
  rw [mdbxTxnBegin_, Prog.bind_ok hr, Prog.bind_ok (derefEnv_run he.at_)] at hrun
  by_cases hlive : h.liveTxns = []
  swap
  · rw [Prog.bind_error (refuse_run hlive)] at hrun
    cases hrun
  rw [Prog.bind_ok (refuse_pass (not_not.mpr hlive)), Prog.bind_ok currentPid_run,
    Prog.bind_ok (fresh_run w)] at hrun
  obtain ⟨extra, u, hflags, hrun⟩ := Prog.of_bind_ok hrun
  obtain ⟨rfl, hextra⟩ := of_txnFlagsFromNames hflags
  rw [he.env, nonNull_some, pure_bind] at hrun
  set bits := (if write then 0 else flagRdonly) ||| extra with hbits
  have hbody : (beginCall L ⟨e, w.next⟩ bits).run { w with next := w.next + 1 } =
      (native L (.txnBegin ⟨e, w.next⟩ bits) >>= fun reply => pure reply.rc).run
        { w with next := w.next + 1 } := rfl
  rcases guard_call (poisonEnv e) _ hbody with ⟨r, hcall, hguard⟩ | ⟨info, x, -, hguard⟩
  swap
  · rw [Prog.bind_error hguard] at hrun
    cases hrun
  rw [Prog.bind_ok hguard] at hrun
  obtain ⟨_, u, hcheck, hrun⟩ := Prog.of_bind_ok hrun
  obtain ⟨hrc, rfl⟩ := of_check hcheck
  refine ⟨bits, fun hwrite hnil => by simp [hbits, hwrite, hextra hnil], ?_, fun F => ?_⟩
  · rw [outcome_ok hcall, hrc]
  · have hnew := F.newTxnSexp w.next (k := beginHandle e w.next write w.pid) rfl rfl
      (fun p hp => by rw [← Option.some.inj hp]) e (Sexp.object (.env e)) write
    have hR := hnew ({ w with next := w.next + 1 }.answered L (.txnBegin ⟨e, w.next⟩ bits)
      (.returned r.rc))
    have hfinal : (newTxnSexp L w.next (beginHandle e w.next write w.pid) e
        (Sexp.object (.env e)) write).run _ = (.ok x, w') := hrun
    rw [hfinal, hrc] at hR
    exact hR

theorem begun_frame (pid : Pid) (p : TxnPtr) :
    L.Frame fun w w' => Begun w.log pid p → Begun w'.log pid p :=
  Platform.frame_of_kept (P := fun log _ => Begun log pid p)
    (fun _ _ h => (begun_cons ..).mpr (.inr h)) id id

/-- The transaction `t` that a bracket has begun in `e`. -/
structure Bracketed (S : Bases σ V) (write : Bool) (e : EnvRef) (t : TxnRef) (w : World σ) :
    Prop where
  live : w.Underway e t
  begun : Begun w.log w.pid ⟨e, t⟩
  opens : Opens S e w.log w.lib
  writes : write = true → Writes S.toStores ⟨e, t⟩ w.log w.lib

/-- What a bracket has begun, and what is committed meanwhile. -/
theorem mdbxTxnBegin_bracketed (hS : L.Publishes S) (hr : Reachable L w)
    (hrun : (mdbxTxnBegin L (.env e) write).run w = (.ok (.txn t), w')) (hheld : w'.Held e t) :
    Steps L w w' ∧ Bracketed S write e t w' ∧ Unwritten w.log w'.log e ∧
      Still S e (S.committed w.lib e) w.log w'.log w'.lib := by
  have I : Inv { lossy := true } w := hr.invariant (by simp)
  have hentry : (mdbxTxnBegin_ L (.env e) write []).run w = (.ok (.txn t), w') := by
    rw [mdbxTxnBegin, Prog.bind_ok (Prog.run_get w)] at hrun
    by_cases hrefused : write = true ∧ w.readonlyAttr (.env e) = some true
    · rw [Prog.bind_error (Front.refuse_run hrefused)] at hrun
      cases hrun
    · rw [Prog.bind_ok (Front.refuse_pass hrefused)] at hrun
      exact Prog.of_mapExit_ok hrun
  have hfinal : (((Command.txnBegin (.env e) write []).run L).run w).2 = w' := by
    rw [Command.run, Prog.map_final, hentry]
  have hpid : w'.pid = w.pid := by
    rw [← hfinal]
    exact ((Command.txnBegin (.env e) write []).spec L (by simp) I).1.later.pid
  have hsteps : Steps L w w' := .single ⟨.entry (.txnBegin (.env e) write []), trivial, hfinal.symm⟩
  have I' : Inv { lossy := true } w' := (hr.steps hsteps).invariant (by simp)
  have halive := mdbxTxnBegin_alive (L := L) I e write []
  rw [Triple, hentry] at halive
  obtain ⟨heq, halive⟩ := halive
  cases heq
  obtain ⟨bits, hbits, ho, hframe⟩ := mdbxTxnBegin_answered I.graph hentry
  have hlive : w'.Underway e w.next := by
    rcases halive with hgone | hgone | hlive
    · exact absurd hgone hheld.txnGone
    · exact absurd hgone hheld.envGone
    · exact .inl hlive
  obtain ⟨hclosed, -⟩ := hlive.unended I'
  have hopened := hS.opens ho
  have hstill := (still_frame hS e _ _).steps hsteps (Still.start hopened w.log)
  refine ⟨hsteps, ⟨hlive, ?_, ?_, fun hwrite => ?_⟩, ⟨fun new hnew c hc p hp => ?_, hclosed⟩,
    hstill⟩
  · rw [hpid]
    refine hframe (begun_frame w.pid ⟨e, w.next⟩) ((begun_cons ..).mpr (.inl ?_))
    exact ⟨rfl, ⟨bits, rfl⟩, rfl⟩
  · exact (opens_frame hS e).steps hsteps fun _ => hopened
  · refine hframe (writes_frame hS.toTransacts ⟨e, w.next⟩) fun _ _ _ => ?_
    exact (hS.begins ho).2 (by rw [hbits hwrite rfl]; rfl)
  · have hlog : ((Event.entry (.txnBegin (.env e) write [])).next L w).log = new ++ w.log := by
      rw [Event.next, hfinal, hnew]
    obtain ⟨hevent, -⟩ := Event.commits I hlog hc hp
    cases hevent

/-- What a body leaves of it. -/
theorem BodyRun.bracketed (hS : L.Publishes S) (hr : Reachable L w) (hb : Bracketed S write e t w)
    (h : BodyRun L e t w w') : Bracketed S write e t w' := by
  obtain ⟨hsteps, hlive, hpid, -, -⟩ := h.underway hr hb.live
  refine ⟨hlive, ?_, (opens_frame hS e).steps hsteps hb.opens, fun hwrite => ?_⟩
  · rw [hpid]
    exact (begun_frame w.pid ⟨e, t⟩).steps hsteps hb.begun
  · exact (writes_frame hS.toTransacts ⟨e, t⟩).steps hsteps (hb.writes hwrite)

end Begins

/-! ### The end of a bracket -/

section Ends

variable {V : Type} {S : Bases σ V} {L : Platform σ} {w w' : World σ} {e : EnvRef} {h : EnvHandle}
  {t : TxnRef} {k : TxnHandle}

/-- A transaction that this process has begun in `e` is live in no other environment, nor is it
another process's. -/
theorem Inv.live_begun (I : Inv { lossy := true } w) (hb : Begun w.log w.pid ⟨e, t⟩)
    {e' : EnvRef} (ht : LiveTxn w e' t k) : e' = e ∧ k.pid = w.pid := by
  obtain ⟨hpid, heq⟩ := I.safe.begun_unique (I.traced.begun ht.at_ ht.owner) hb rfl
  exact ⟨congrArg TxnPtr.env heq, hpid⟩

/-- What the end of a transaction leaves of its object and of the live transactions. -/
theorem Finishes.heldTxn {commit : Bool} {s : TxnSexp} {r : Except Exit Unit}
    (F : Finishes commit e h t k s w r w') (hs : w.txnSexps t = some s) (haddr : s.addr = some t) :
    w'.HeldTxn t := by
  cases F with
  | panicked info lib => exact ⟨s, hs, haddr⟩
  | mismatch lib => exact ⟨s, hs, haddr⟩
  | ended lib rc hrc w₁ h' R he' => exact ⟨{ s with prot := none }, by simp, haddr⟩

/-- An abort that libmdbx has not refused. -/
theorem Finishes.aborted {s : TxnSexp} {r : Except Exit Unit} (F : Finishes false e h t k s w r w')
    (habort : ∀ c ∈ w'.log, c.call = .txnAbort ⟨e, t⟩ .finishTxn →
      c.outcome = .returned Status.success) :
    r = .ok () ∧ ∀ e' k', ¬ LiveTxn w' e' t k' := by
  cases F with
  | panicked info lib => exact absurd (habort _ List.mem_cons_self rfl) (by simp)
  | mismatch lib =>
    exact absurd (habort _ List.mem_cons_self rfl) (by simp [Status.threadMismatch, Status.success])
  | ended lib rc hrc w₁ h' R he' =>
    have hmem : ⟨w.pid, .txnAbort ⟨e, t⟩ .finishTxn, .returned rc⟩ ∈ w₁.log := by
      cases R with
      | same => exact List.mem_cons_self
      | asked => exact List.mem_cons_of_mem _ List.mem_cons_self
    obtain rfl : rc = Status.success := by simpa using habort _ hmem rfl
    refine ⟨rfl, ?_⟩
    rintro e' k' ⟨hk', howner'⟩
    simp [World.detached] at hk'
    simp [← hk', TxnHandle.finished] at howner'

/-- An abort that libmdbx does not refuse leaves the transaction live nowhere, and raises
nothing. -/
theorem mdbxTxnAbort_clears (I : Inv { lossy := true } w) (hholds : w.HeldTxn t)
    (hb : Begun w.log w.pid ⟨e, t⟩)
    (habort : ∀ c ∈ ((mdbxTxnAbort_ L (.txn t)).run w).2.log,
      c.call = .txnAbort ⟨e, t⟩ .finishTxn → c.outcome = .returned Status.success) :
    ∃ w' new, (mdbxTxnAbort_ L (.txn t)).run w = (.ok (), w') ∧ (∀ e' k, ¬ LiveTxn w' e' t k) ∧
      w'.log = new ++ w.log ∧
      ∀ c ∈ new, c.call = .txnAbort ⟨e, t⟩ .finishTxn ∨ c.call = .envHeapRoots e := by
  obtain ⟨s, hs, haddr⟩ := hholds
  obtain ⟨-, hsome⟩ := I.graph.txnSexp hs haddr
  obtain ⟨k, hk⟩ := Option.isSome_iff_exists.mp hsome
  cases howner : k.owner with
  | none =>
    refine ⟨w, [], mdbxTxnAbort_idle L hs fun t' h => ?_, fun e' k' ht => ?_, rfl, by simp⟩
    · obtain rfl : t' = t := by simpa [haddr, eq_comm] using h
      exact ⟨k, hk, by rw [I.graph.txn hk, howner]; rfl⟩
    · obtain rfl : k = k' := Option.some.inj (hk ▸ ht.at_)
      exact absurd (howner.symm.trans ht.owner) (by simp)
  | some e' =>
    have ht : LiveTxn w e' t k := ⟨hk, howner⟩
    obtain ⟨rfl, hpid⟩ := I.live_begun hb ht
    obtain ⟨h, he, henv, hhpid, -⟩ := I.graph.owner hk howner
    cases hpois : h.poisoned with
    | true =>
      refine ⟨_, [], mdbxTxnAbort_poisoned L I.graph hs haddr he ht hpid hpois, ?_, rfl, by simp⟩
      rintro e'' k' ⟨hk', howner'⟩
      simp [World.endedHere, World.detached] at hk'
      simp [← hk', TxnHandle.finished] at howner'
    | false =>
      have he' : OpenEnv w e' h := ⟨he, henv, hpois, hhpid.trans hpid⟩
      have hrun := mdbxTxnAbort_healthy L I.graph hs haddr he ht (by simp [hpois])
      obtain ⟨r, w', hfinish, F⟩ := finishTxn_run L I.graph
        (txnFromSexp_live I.graph hs haddr he' ht) hs he ht false
      rw [hrun, hfinish] at habort
      obtain ⟨o, roots, hlog, hroots, -⟩ := F.asked
      obtain ⟨rfl, hnone⟩ := F.aborted habort
      refine ⟨w', roots ++ [_], hrun.trans hfinish, hnone, by rw [hlog, List.append_cons], ?_⟩
      intro c hc
      rcases List.mem_append.mp hc with hc | hc
      · exact .inr (hroots c hc)
      · exact .inl (by rw [List.mem_singleton.mp hc]; rfl)

/-- What becomes of a transaction that libmdbx was asked to end, and has ended. -/
theorem finishTxn_answered (G : Graph w) (hx : (txnFromSexp (.txn t)).run w = (.ok t, w))
    (ht : LiveTxn w e t k) {commit : Bool}
    (hrun : (finishTxn L (.txn t) commit).run w = (.ok (), w')) :
    L.outcome (finishNative commit ⟨e, t⟩) w.lib = .returned Status.success ∧
      ∀ {R : World σ → World σ → Prop}, L.Frame R →
        R (w.answered L (finishNative commit ⟨e, t⟩) (.returned Status.success)) w' := by
  rw [finishTxn, Prog.bind_ok hx, Prog.bind_ok (derefTxn_run ht.at_), G.txnPtr ht, nonNull_some,
    pure_bind] at hrun
  have hbody : (finishCall L ⟨e, t⟩ commit).run w = (native L (finishNative commit ⟨e, t⟩) >>=
      fun reply => pure reply.rc).run w := by
    cases commit <;> rfl
  rcases guard_call (poisonTxn t) _ hbody with ⟨r, hcall, hguard⟩ | ⟨info, x, -, hguard⟩
  swap
  · rw [Prog.bind_error hguard] at hrun
    cases hrun
  rw [Prog.bind_ok hguard] at hrun
  have hrun' := hrun
  obtain ⟨_, u₁, -, hrun'⟩ := Prog.of_bind_ok hrun'
  obtain ⟨_, u₂, -, hrun'⟩ := Prog.of_bind_ok hrun'
  obtain ⟨_, u₃, -, hrun'⟩ := Prog.of_bind_ok hrun'
  obtain ⟨_, u₄, -, hrun'⟩ := Prog.of_bind_ok hrun'
  obtain ⟨hrc, -⟩ := of_check hrun'
  refine ⟨by rw [outcome_ok hcall, hrc], fun {R} F => ?_⟩
  have := F.toIsPreorder
  have hrest := fun w₁ => ((Within.refuse (R := R) (r.rc = Status.threadMismatch)
    (.status r.rc)).bind fun _ => (F.markFinished t
      (if commit = true ∧ r.rc = Status.success then .committed else .aborted)).bind fun _ =>
        (F.releaseProtected (.txn t)).bind fun _ =>
          (Within.refuse (r.rc = Status.resultTrue) .rolledBack).bind fun _ =>
            Within.check r.rc) w₁
  have hR := hrest (w.answered L (finishNative commit ⟨e, t⟩) (.returned r.rc))
  rw [hrun, hrc] at hR
  exact hR

theorem Reachable.begun (hr : Reachable L w) (command : Command) (hb : Begun w.log w.pid ⟨e, t⟩) :
    Begun ((command.run L).run w).2.log ((command.run L).run w).2.pid ⟨e, t⟩ := by
  have I : Inv { lossy := true } w := hr.invariant (by simp)
  rw [(command.spec L (by simp) I).1.later.pid]
  exact (begun_frame w.pid ⟨e, t⟩).steps (.single ⟨.entry command, trivial, rfl⟩) hb

/-- The calls that a commit makes beside its own neither commit nor close. -/
theorem idle_of_asking {c : Call} (h : c.call = .envHeapRoots e) :
    (∀ p, ¬ c.Commits p) ∧ ∀ e', ¬ c.Closes e' := by
  constructor <;>
  · rintro _ ⟨hcall, -⟩
    rw [h] at hcall
    cases hcall

/-- A commit that returns has published what the transaction saw. -/
theorem mdbxTxnCommit_publishes (hS : L.Publishes S) (hr : Reachable L w)
    (hb : Bracketed S true e t w) (hrun : (mdbxTxnCommit_ L (.txn t)).run w = (.ok (), w')) :
    w'.HeldTxn t ∧ ∃ mid, Committed mid ⟨e, t⟩ ∧ Unwritten mid w'.log e ∧
      Still S e (S.view w.lib ⟨e, t⟩) mid w'.log w'.lib := by
  have I : Inv { lossy := true } w := hr.invariant (by simp)
  rcases finishTxn_cases L I.graph (.txn t) true with
    ⟨c, herror⟩ | ⟨e', h, t', k, s, r, w₁, hx, hs, haddr, he, ht, hfinish, F⟩
  · rw [mdbxTxnCommit_, herror] at hrun
    cases hrun
  cases hx
  obtain ⟨rfl, -⟩ := I.live_begun hb.begun ht
  rw [mdbxTxnCommit_] at hrun
  obtain ⟨rfl, rfl⟩ := Prod.mk.inj (hfinish.symm.trans hrun)
  obtain ⟨o, roots, hlog, hroots, hresult⟩ := F.asked
  obtain rfl := hresult.mp rfl
  have hfrom := txnFromSexp_live I.graph hs haddr he ht
  obtain ⟨ho, hframe⟩ := finishTxn_answered I.graph hfrom ht hrun
  have hclosed := I.traced.notClosed he.at_ he.env
  have hwriting := hb.writes rfl (I.traced.notEnded ht.at_ ht.owner (by simp)) hclosed
    (I.traced.healthy he.at_ he.env he.healthy (by simp))
  have hopened : S.opened (L.call (.txnCommit ⟨e', t⟩) w.lib).2 e' :=
    hS.stays w.pid (hb.opens hclosed) (by simp [Call.Closes])
  refine ⟨F.heldTxn hs haddr, ⟨w.pid, .txnCommit ⟨e', t⟩, .returned Status.success⟩ :: w.log, ?_,
    ?_, ?_⟩
  · exact (committed_cons ..).mpr (.inl ⟨rfl, rfl⟩)
  · rw [hlog]
    refine .calls (fun h => ?_) (fun c hc p hp => ?_) fun c hc => (idle_of_asking (hroots c hc)).2 _
    · exact ((closed_cons ..).mp h).elim (by simp [Call.Closes]) hclosed
    · exact absurd hp ((idle_of_asking (hroots c hc)).1 p)
  · refine hframe (still_frame hS e' _ _) ?_
    rw [← hS.commits ho hwriting]
    exact Still.start hopened _

/-- A commit that raises has committed nothing. -/
theorem mdbxTxnCommit_fails (hr : Reachable L w) (hheld : w.Held e t) (hu : w.Underway e t)
    (hb : Begun w.log w.pid ⟨e, t⟩) {x : Exit}
    (hrun : (mdbxTxnCommit_ L (.txn t)).run w = (.error x, w')) :
    w'.HeldTxn t ∧ Unwritten w.log w'.log e := by
  have I : Inv { lossy := true } w := hr.invariant (by simp)
  have hopen := (hu.unended I).1
  rcases finishTxn_cases L I.graph (.txn t) true with
    ⟨c, herror⟩ | ⟨e', h, t', k, s, r, w₁, hx, hs, haddr, he, ht, hfinish, F⟩
  · obtain ⟨-, rfl⟩ := Prod.mk.inj (herror.symm.trans hrun)
    exact ⟨hheld.txn, .refl hopen⟩
  cases hx
  obtain ⟨rfl, -⟩ := I.live_begun hb ht
  rw [mdbxTxnCommit_] at hrun
  obtain ⟨rfl, rfl⟩ := Prod.mk.inj (hfinish.symm.trans hrun)
  obtain ⟨o, roots, hlog, hroots, hresult⟩ := F.asked
  refine ⟨F.heldTxn hs haddr, ?_⟩
  rw [hlog, List.append_cons]
  refine .calls hopen (fun c hc p hp => ?_) fun c hc hcloses => ?_ <;>
    rcases List.mem_append.mp hc with hc | hc
  · exact absurd hp ((idle_of_asking (hroots c hc)).1 p)
  · rw [List.mem_singleton.mp hc] at hp
    cases hresult.mpr hp.2
  · exact (idle_of_asking (hroots c hc)).2 _ hcloses
  · rw [List.mem_singleton.mp hc] at hcloses
    cases hcloses.1

/-- The abort at the end of a bracket: the transaction is live nowhere, and what was committed
stays. -/
theorem mdbxTxnAbort_leaves (hS : L.Publishes S) (hr : Reachable L w) (hheld : w.HeldTxn t)
    (hb : Begun w.log w.pid ⟨e, t⟩) {mid : List Call} {v : V} (hnone : Unwritten mid w.log e)
    (hstill : Still S e v mid w.log w.lib)
    (habort : ∀ c ∈ ((mdbxTxnAbort_ L (.txn t)).run w).2.log,
      c.call = .txnAbort ⟨e, t⟩ .finishTxn → c.outcome = .returned Status.success) :
    ∃ w', (mdbxTxnAbort_ L (.txn t)).run w = (.ok (), w') ∧ (∀ e' k, ¬ LiveTxn w' e' t k) ∧
      mid <:+ w'.log ∧ Unwritten mid w'.log e ∧ S.committed w'.lib e = v := by
  obtain ⟨w', new, hrun, hgone, hlog, hnew⟩ :=
    mdbxTxnAbort_clears (hr.invariant (by simp)) hheld hb habort
  have hstill' : Still S e v mid w'.log w'.lib := by
    have hF := (still_frame hS e v mid).mdbxTxnAbort (.txn t) w hstill
    rwa [hrun] at hF
  have hquiet : Unwritten w.log w'.log e := by
    rw [hlog]
    refine .calls hnone.open_ (fun c hc p hp => ?_) fun c hc hcloses => ?_
    · rcases hnew c hc with hcall | hcall <;> (rw [hp.1] at hcall; cases hcall)
    · rcases hnew c hc with hcall | hcall <;> (rw [hcloses.1] at hcall; cases hcall)
  have hnone' := hnone.trans hquiet hstill.later ⟨new, hlog.symm⟩
  exact ⟨w', hrun, hgone, hstill'.later, hnone', (hstill'.same hnone').2⟩

end Ends

/-! ### Whole brackets -/

section Brackets

variable {X β V : Type} {S : Bases σ V} {L : Platform σ} {raise : Signal → X}
  {body : Sexp → Prog (World σ) X β} {w w₁ w₂ : World σ} {e : EnvRef} {t : TxnRef} {r : Except X β}
  {log : List Call}

/-- Libmdbx has failed no abort of the transaction. -/
def Aborting (log : List Call) (p : TxnPtr) : Prop :=
  ∀ c ∈ log, c.call = .txnAbort p .finishTxn → c.outcome = .returned Status.success

/-- The transaction `t` is committed, and with it what it saw in `w`. -/
structure Published (S : Bases σ V) (e : EnvRef) (t : TxnRef) (w w' : World σ) : Prop where
  committed : Committed w'.log ⟨e, t⟩
  seen : S.committed w'.lib e = S.view w.lib ⟨e, t⟩

/-- The transaction `t` is not committed, and in its environment is what was there in `w`. -/
structure Undone (S : Bases σ V) (e : EnvRef) (t : TxnRef) (w w' : World σ) : Prop where
  dropped : ¬ Committed w'.log ⟨e, t⟩
  kept : S.committed w'.lib e = S.committed w.lib e

/-- Where nothing is committed, a transaction is not that was not. -/
theorem Unwritten.dropped {past : List Call} (h : Unwritten past log e) (hlog : past <:+ log)
    (ht : ¬ Committed past ⟨e, t⟩) : ¬ Committed log ⟨e, t⟩ := by
  obtain ⟨new, rfl⟩ := hlog
  rintro ⟨c, hc, hcommits⟩
  rcases List.mem_append.mp hc with hc | hc
  · exact h.commits new rfl c hc _ hcommits rfl
  · exact ht ⟨c, hc, hcommits⟩

/-- What a begin and a body leave undone. -/
theorem BodyRun.undone (hS : L.Publishes S) (hr : Reachable L w₁) {write : Bool}
    (hb : Bracketed S write e t w₁) (hbefore : Unwritten w.log w₁.log e)
    (hstill : Still S e (S.committed w.lib e) w.log w₁.log w₁.lib) (h : BodyRun L e t w₁ w₂) :
    ¬ Committed w.log ⟨e, t⟩ ∧ Unwritten w.log w₂.log e ∧
      Still S e (S.committed w.lib e) w.log w₂.log w₂.lib := by
  have I : Inv { lossy := true } w₁ := hr.invariant (by simp)
  obtain ⟨-, hlive⟩ := hb.live.unended I
  obtain ⟨hsteps, -, -, -, hnone⟩ := h.underway hr hb.live
  refine ⟨fun hcommitted => hlive ?_, hbefore.trans hnone hstill.later (Steps.log hsteps),
    (still_frame hS e _ _).steps hsteps hstill⟩
  obtain ⟨c, hc, hcommits⟩ := hcommitted.ended
  exact ⟨c, hstill.later.subset hc, hcommits⟩

/-- The end of a bracket whose inside has ended. -/
theorem bracket_ends (hS : L.Publishes S) (hr : Reachable L w₂) {m : Prog (World σ) X β}
    (hm : m.run w₁ = (r, w₂)) (hheld : w₂.HeldTxn t) (hb : Begun w₂.log w₂.pid ⟨e, t⟩)
    {mid : List Call} {v : V} (hnone : Unwritten mid w₂.log e)
    (hstill : Still S e v mid w₂.log w₂.lib)
    (habort : Aborting ((Prog.onExit ((mdbxTxnAbort L (.txn t)).mapExit raise) m).run w₁).2.log
      ⟨e, t⟩) :
    ∃ w', (Prog.onExit ((mdbxTxnAbort L (.txn t)).mapExit raise) m).run w₁ = (r, w') ∧
      (∀ e' k, ¬ LiveTxn w' e' t k) ∧ mid <:+ w'.log ∧ Unwritten mid w'.log e ∧
        S.committed w'.lib e = v := by
  rw [Prog.onExit_final, hm] at habort
  obtain ⟨w', hrun, hrest⟩ := mdbxTxnAbort_leaves hS hr hheld hb hnone hstill habort
  exact ⟨w', Prog.onExit_run hm (Prog.mapExit_ok raise (Front.call_ok hrun)), hrest⟩

/-- A write bracket that was begun.  Its transaction is live nowhere after it.  It returns what its
body returns, and what the transaction saw then is committed; or the body's error or that of the
commit comes out, and nothing is committed. -/
theorem mdbxWithWrite_atomic (hS : L.Publishes S) (hr : Reachable L w)
    (hbegin : (mdbxTxnBegin L (.env e) true).run w = (.ok (.txn t), w₁))
    (hbody : (body (.txn t)).run w₁ = (r, w₂)) (h : BodyRun L e t w₁ w₂)
    (habort : Aborting ((mdbxWithWrite L raise (.env e) body).run w).2.log ⟨e, t⟩) :
    ∃ r' w', (mdbxWithWrite L raise (.env e) body).run w = (r', w') ∧
      (∀ e' k, ¬ LiveTxn w' e' t k) ∧
      ((∃ b, r = .ok b ∧ r' = .ok b ∧ Published S e t w₂ w') ∨
        (∃ x, r' = .error x ∧ Undone S e t w w' ∧
          (r = .error x ∨ ∃ y, ((mdbxTxnCommit_ L (.txn t)).run w₂).1 = .error y ∧
            x = raise (.native y)))) := by
  obtain ⟨hsteps, hb, hbefore, hkept⟩ := mdbxTxnBegin_bracketed hS hr hbegin h.holds
  have hr₁ := hr.steps hsteps
  obtain ⟨hsteps₂, hu, -, hheld, -⟩ := h.underway hr₁ hb.live
  have hr₂ := hr₁.steps hsteps₂
  have hb₂ := h.bracketed hS hr₁ hb
  obtain ⟨hdropped, hnone, hstill⟩ := h.undone hS hr₁ hb hbefore hkept
  rw [mdbxWithWrite, Prog.bind_ok (Prog.mapExit_ok raise hbegin)] at habort ⊢
  rcases r with x | b
  · obtain ⟨w', hrun, hgone, hlog, hnone', hkept⟩ := bracket_ends hS hr₂
      (Prog.bind_error hbody) hheld.txn hb₂.begun hnone hstill habort
    exact ⟨_, w', hrun, hgone, .inr ⟨x, rfl, ⟨hnone'.dropped hlog hdropped, hkept⟩, .inl rfl⟩⟩
  rcases hcommit : (mdbxTxnCommit_ L (.txn t)).run w₂ with ⟨y | _, w₃⟩
  all_goals
    have hr₃ : Reachable L w₃ := by
      have := hr₂.entry (.txnCommit (.txn t))
      rwa [Command.run, Prog.map_final, hcommit] at this
    have hb₃ : Begun w₃.log w₃.pid ⟨e, t⟩ := by
      have := hr₂.begun (.txnCommit (.txn t)) hb₂.begun
      rwa [Command.run, Prog.map_final, hcommit] at this
  · obtain ⟨hheld₃, hnone₃⟩ := mdbxTxnCommit_fails hr₂ hheld hu hb₂.begun hcommit
    have hstill₃ : Still S e (S.committed w.lib e) w.log w₃.log w₃.lib := by
      have hF := (still_frame hS e (S.committed w.lib e) w.log).finishTxn (.txn t) true w₂ hstill
      rwa [show (finishTxn L (.txn t) true).run w₂ = _ from hcommit] at hF
    have hstep : Step L w₂ w₃ := ⟨.entry (.txnCommit (.txn t)), trivial,
      by rw [Event.next, Command.run, Prog.map_final, hcommit]⟩
    have hnone' := hnone.trans hnone₃ hstill.later (Steps.log (.single hstep))
    have hinner : (body (.txn t) >>= fun result => do
        (mdbxTxnCommit L (.txn t)).mapExit raise
        pure result).run w₁ = (.error (raise (.native y)), w₃) := by
      rw [Prog.bind_ok hbody, mdbxTxnCommit,
        Prog.bind_error (Prog.mapExit_error raise (Front.call_error hcommit))]
    obtain ⟨w', hrun, hgone, hlog, hnone', hkept⟩ :=
      bracket_ends hS hr₃ hinner hheld₃ hb₃ hnone' hstill₃ habort
    refine ⟨_, w', hrun, hgone, .inr ⟨_, rfl, ⟨hnone'.dropped hlog hdropped, hkept⟩, .inr ?_⟩⟩
    exact ⟨y, rfl, rfl⟩
  · obtain ⟨hheld₃, mid, hcommitted, hnone₃, hstill₃⟩ :=
      mdbxTxnCommit_publishes hS hr₂ hb₂ hcommit
    have hinner : (body (.txn t) >>= fun result => do
        (mdbxTxnCommit L (.txn t)).mapExit raise
        pure result).run w₁ = (.ok b, w₃) := by
      rw [Prog.bind_ok hbody, mdbxTxnCommit,
        Prog.bind_ok (Prog.mapExit_ok raise (Front.call_ok hcommit))]
      rfl
    obtain ⟨w', hrun, hgone, hlog, -, hpublished⟩ :=
      bracket_ends hS hr₃ hinner hheld₃ hb₃ hnone₃ hstill₃ habort
    obtain ⟨c, hc, hcommits⟩ := hcommitted
    exact ⟨_, w', hrun, hgone, .inl ⟨b, rfl, rfl, ⟨c, hlog.subset hc, hcommits⟩, hpublished⟩⟩

/-- A read bracket that was begun ends as its body ends.  Its transaction is live nowhere after it,
and nothing is committed. -/
theorem mdbxWithRead_undone (hS : L.Publishes S) (hr : Reachable L w)
    (hbegin : (mdbxTxnBegin L (.env e) false).run w = (.ok (.txn t), w₁))
    (hbody : (body (.txn t)).run w₁ = (r, w₂)) (h : BodyRun L e t w₁ w₂)
    (habort : Aborting ((mdbxWithRead L raise (.env e) body).run w).2.log ⟨e, t⟩) :
    ∃ w', (mdbxWithRead L raise (.env e) body).run w = (r, w') ∧
      (∀ e' k, ¬ LiveTxn w' e' t k) ∧ Undone S e t w w' := by
  obtain ⟨hsteps, hb, hbefore, hkept⟩ := mdbxTxnBegin_bracketed hS hr hbegin h.holds
  have hr₁ := hr.steps hsteps
  obtain ⟨hsteps₂, -, -, hheld, -⟩ := h.underway hr₁ hb.live
  obtain ⟨hdropped, hnone, hstill⟩ := h.undone hS hr₁ hb hbefore hkept
  rw [mdbxWithRead, Prog.bind_ok (Prog.mapExit_ok raise hbegin)] at habort ⊢
  obtain ⟨w', hrun, hgone, hlog, hnone', hkept⟩ := bracket_ends hS (hr₁.steps hsteps₂) hbody
    hheld.txn (h.bracketed hS hr₁ hb).begun hnone hstill habort
  exact ⟨w', hrun, hgone, hnone'.dropped hlog hdropped, hkept⟩

/-- A bracket that was begun leaves its transaction live nowhere, whatever its body does short of
ending it.  A write bracket returns what its body returns, and then all that the transaction saw is
committed; or it raises what its body or the commit raises, and nothing is.  A read bracket ends as
its body ends, and nothing is committed. -/
theorem Reachable.brackets (hS : L.Publishes S) (hr : Reachable L w) :
    (∀ {raise : Signal → X} {body : Sexp → Prog (World σ) X β} {e t r w₁ w₂},
      (mdbxTxnBegin L (.env e) true).run w = (.ok (.txn t), w₁) →
      (body (.txn t)).run w₁ = (r, w₂) → BodyRun L e t w₁ w₂ →
      Aborting ((mdbxWithWrite L raise (.env e) body).run w).2.log ⟨e, t⟩ →
      ∃ r' w', (mdbxWithWrite L raise (.env e) body).run w = (r', w') ∧
        (∀ e' k, ¬ LiveTxn w' e' t k) ∧
        ((∃ b, r = .ok b ∧ r' = .ok b ∧ Published S e t w₂ w') ∨
          (∃ x, r' = .error x ∧ Undone S e t w w' ∧
            (r = .error x ∨ ∃ y, ((mdbxTxnCommit_ L (.txn t)).run w₂).1 = .error y ∧
              x = raise (.native y))))) ∧
    ∀ {raise : Signal → X} {body : Sexp → Prog (World σ) X β} {e t r w₁ w₂},
      (mdbxTxnBegin L (.env e) false).run w = (.ok (.txn t), w₁) →
      (body (.txn t)).run w₁ = (r, w₂) → BodyRun L e t w₁ w₂ →
      Aborting ((mdbxWithRead L raise (.env e) body).run w).2.log ⟨e, t⟩ →
      ∃ w', (mdbxWithRead L raise (.env e) body).run w = (r, w') ∧
        (∀ e' k, ¬ LiveTxn w' e' t k) ∧ Undone S e t w w' :=
  ⟨mdbxWithWrite_atomic hS hr, mdbxWithRead_undone hS hr⟩

end Brackets

/-! ### Brackets on a library with one sequence -/

def ledgerBases : Bases Ledger (Option Bytes → Tally) :=
  { ledgerCounters with opened := fun _ _ => True }

theorem ledger_publishes : ledger.Publishes ledgerBases where
  toTransacts := ledger_keepsCounters.toTransacts
  opens _ := trivial
  stays _ _ _ := trivial
  keeps {c s e} pid _ _ hcommits := by
    have hstep := ledgerCall_step s c
    show ledgerCounters.committed (ledgerCall s c).2 e = ledgerCounters.committed s e
    generalize hs : (ledgerCall s c).2 = s' at hstep
    cases hstep with
    | @commits p hwriting =>
      have hother : e ≠ p.env := by
        refine (hcommits p ⟨rfl, ?_⟩).symm
        rw [ledger_outcome, ledgerCall, if_pos hwriting]
      funext name
      rcases name with _ | name
      swap
      · rfl
      exact Function.update_of_ne hother ..
    | _ => rfl
  growsOpen _ := rfl
  collectsOpen _ := rfl

/-- An environment is open whose main database has a sequence that another program left at 5. -/
def ledgerOpened : World Ledger :=
  (World.start ⟨fun _ => ⟨0, 5⟩, none, ⟨0, 0⟩⟩ 1).after ledger (openAndBegin.take 1)

theorem ledgerOpened_reachable : Reachable ledger ledgerOpened :=
  ⟨_, 1, World.after_steps ⟨trivial, trivial⟩⟩

/-- Three numbers are reserved in a bracket. -/
def reserveThree (txn : Sexp) : Front Ledger Double :=
  mdbxDbiSequence ledger txn .null (.number (.ofNat 3))

theorem exists_held {w : World σ} {e : EnvRef} {t : TxnRef}
    (henv : (w.envSexps e).bind EnvSexp.addr = some e)
    (htxn : (w.txnSexps t).bind TxnSexp.addr = some t) : w.Held e t :=
  ⟨Option.bind_eq_some_iff.mp henv, Option.bind_eq_some_iff.mp htxn⟩

/-- Such a body is one event, or none. -/
theorem reserveThree_body {e : EnvRef} {t : TxnRef} {w : World Ledger} (h : w.Held e t)
    (h' : ((reserveThree (.txn t)).run w).2.Held e t) :
    BodyRun ledger e t w ((reserveThree (.txn t)).run w).2 := by
  refine ⟨h, ?_⟩
  rcases mdbxDbiSequence_event (L := ledger) (.txn t) .null (.number (.ofNat 3)) w with
    hrun | ⟨names, x, hrun⟩
  · rw [reserveThree, hrun]
  · exact .single ⟨.entry (.dbiSequence (.txn t) names x), ⟨by simp, by simp⟩, hrun, h'⟩

theorem aborting_of_all {log : List Call} {p : TxnPtr} (h : (log.all fun c =>
    c.call != .txnAbort p .finishTxn || c.outcome == .returned Status.success) = true) :
    Aborting log p := by
  intro c hc hcall
  have := List.all_eq_true.mp h c hc
  simpa [hcall] using this

/-- Where the body of a bracket starts. -/
def bracketBegun (write : Bool) : World Ledger :=
  ((mdbxTxnBegin ledger (.env 0) write).run ledgerOpened).2

theorem bracketBegun_run (write : Bool) :
    (mdbxTxnBegin ledger (.env 0) write).run ledgerOpened = (.ok (.txn 1), bracketBegun write) := by
  cases write <;> exact run_of_toOption (by decide +kernel)

theorem bracketBegun_held (write : Bool) : (bracketBegun write).Held 0 1 := by
  cases write <;> exact exists_held (by decide +kernel) (by decide +kernel)

theorem reserveThree_held (write : Bool) :
    ((reserveThree (.txn 1)).run (bracketBegun write)).2.Held 0 1 := by
  cases write <;> exact exists_held (by decide +kernel) (by decide +kernel)

/-- In a write bracket the reservation is committed, and in a read bracket it is refused. -/
theorem Reachable.brackets_ledger :
    (∃ w', (mdbxWithWrite ledger id (.env 0) reserveThree).run ledgerOpened = (.ok (.ofNat 5), w') ∧
      (ledgerBases.committed w'.lib 0 none).count = 8) ∧
    ∃ x w', (mdbxWithRead ledger id (.env 0) reserveThree).run ledgerOpened = (.error x, w') ∧
      (ledgerBases.committed w'.lib 0 none).count = 5 := by
  have hbody := fun write => reserveThree_body (bracketBegun_held write) (reserveThree_held write)
  obtain ⟨hwrite, hread⟩ := Reachable.brackets (X := Signal) (β := Double) ledger_publishes
    ledgerOpened_reachable
  constructor
  · have hreturns : (reserveThree (.txn 1)).run (bracketBegun true) = (.ok (.ofNat 5), _) :=
      run_of_toOption (by decide +kernel)
    have hcommit : (mdbxTxnCommit_ ledger (.txn 1)).run
        ((reserveThree (.txn 1)).run (bracketBegun true)).2 = (.ok (), _) :=
      run_of_toOption (by decide +kernel)
    obtain ⟨r', w', hrun, -, h⟩ := @hwrite id reserveThree 0 1 _ _ _ (bracketBegun_run true)
      hreturns (hbody true) (aborting_of_all (by decide +kernel))
    rcases h with ⟨b, hb, rfl, hpublished⟩ | ⟨x, -, -, hx | ⟨y, hy, -⟩⟩
    · cases hb
      refine ⟨w', hrun, (congrArg Tally.count (congrFun hpublished.seen none)).trans ?_⟩
      decide +kernel
    · cases hx
    · rw [hcommit] at hy
      cases hy
  · obtain ⟨w', hrun, -, hundone⟩ := @hread id reserveThree 0 1 _ _ _ (bracketBegun_run false)
      (Eq.refl _) (hbody false) (aborting_of_all (by decide +kernel))
    have hraises : ((reserveThree (.txn 1)).run (bracketBegun false)).1.toOption = none := by
      decide +kernel
    rcases hr : ((reserveThree (.txn 1)).run (bracketBegun false)).1 with x | b
    · refine ⟨x, w', hr ▸ hrun, (congrArg Tally.count (congrFun hundone.kept none)).trans ?_⟩
      decide +kernel
    · rw [hr] at hraises
      cases hraises

end Mdbx
