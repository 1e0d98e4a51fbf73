import Mdbx.Protection

/-! What a process makes of the handles that it has inherited across a fork: every entry point
that uses one refuses it by the name of the process that opened it, and nothing that the process
runs, finalizers included, hands the native object to libmdbx. -/

namespace Mdbx

open ProofKit

variable {σ : Type} {L : Platform σ} {v : Waived} {u w w' : World σ} {e : EnvRef} {p : Pid}

/-! ### Inherited handles -/

namespace World

/-- The process `p` has opened the environment `e`, which is open unless its object is gone. -/
def Inherits (w : World σ) (p : Pid) (e : EnvRef) : Prop :=
  w.EnvGone e ∨ ∃ h, w.envs e = some h ∧ h.env = some e ∧ h.pid = p

/-- The process `p` has begun the transaction `t` on `e`, whose object it protects, and it is live
unless the object of either is gone. -/
def InheritsTxn (w : World σ) (p : Pid) (t : TxnRef) (e : EnvRef) : Prop :=
  w.TxnGone t ∨ (∃ s, w.txnSexps t = some s ∧ s.prot = some e) ∧
    (∀ k, w.txns t = some k → k.pid = p) ∧
      (w.EnvGone e ∨ ∃ k, w.txns t = some k ∧ k.owner = some e)

end World

theorem Move.inherits (h : Move w w') (hp : p ≠ w.pid) (H : w.Inherits p e) :
    w'.Inherits p e := by
  rcases H with hgone | ⟨g, hg, henv, hpid⟩
  · exact .inl (h.envGone hgone)
  cases h with
  | tend h =>
    rcases h.keptEnv hg with (hgone | hown) | ⟨g', hg', henv', hpid'⟩
    · exact .inl ((stable_envGone e).tend h hgone)
    · exact absurd (hpid.symm.trans (hown g hg)) hp
    · exact .inr ⟨g', hg', henv'.trans henv, hpid'.trans hpid⟩
  | @newEnv e' g' new =>
    have hne : e ≠ e' := by
      rintro rfl
      simp [new] at hg
    exact .inr ⟨g, by simpa [hne] using hg, henv, hpid⟩
  | @register e' g' t k at_ =>
    by_cases hee : e = e'
    · subst hee
      obtain rfl : g = g' := Option.some.inj (hg ▸ at_)
      exact .inr ⟨{ g with liveTxns := g.liveTxns ++ [t] }, by simp, henv, hpid⟩
    · exact .inr ⟨g, by simpa [hee] using hg, henv, hpid⟩
  | _ => exact .inr ⟨g, hg, henv, hpid⟩

theorem Tend.inheritsTxn {t : TxnRef} (h : Tend w w') (H : w.InheritsTxn p t e) :
    w'.InheritsTxn p t e := by
  rcases H with hgone | ⟨⟨s, hs, hprot⟩, hpids, hlive⟩
  · exact .inl ((stable_txnGone t).tend h hgone)
  obtain ⟨s', hs', hprot', -⟩ := h.txnSexp hs
  have hpids' : ∀ j, w'.txns t = some j → j.pid = p := fun j hj => by
    obtain ⟨k, hk, hpid, -⟩ := h.oldTxn hj
    exact hpid.trans (hpids k hk)
  have hkept : w'.EnvGone e ∨ (∃ j, w'.txns t = some j ∧ j.owner = some e) →
      w'.InheritsTxn p t e := fun hlive' => .inr ⟨⟨s', hs', hprot'.trans hprot⟩, hpids', hlive'⟩
  rcases hlive with hgone | ⟨k, hk, howner⟩
  · exact hkept (.inl ((stable_envGone e).tend h hgone))
  rcases h.keptTxn hk with hgone | ⟨e', howner', hgone⟩ | ⟨j, hj, howner', -⟩
  · exact .inl ((stable_txnGone t).tend h hgone)
  · obtain rfl : e' = e := Option.some.inj (howner'.symm.trans howner)
    exact hkept (.inl ((stable_envGone e').tend h hgone))
  · exact hkept (.inr ⟨j, hj, howner'.trans howner⟩)

theorem Move.inheritsTxn {t : TxnRef} (h : Move w w') (hp : p ≠ w.pid)
    (H : w.InheritsTxn p t e) : w'.InheritsTxn p t e := by
  have hgone : w.TxnGone t → w'.InheritsTxn p t e := fun hgone => .inl (h.txnGone hgone)
  have hlive : (w.EnvGone e ∨ ∃ k, w.txns t = some k ∧ k.owner = some e) →
      w'.txns t = w.txns t → w'.EnvGone e ∨ ∃ k, w'.txns t = some k ∧ k.owner = some e :=
    fun hlive htxns => hlive.imp h.envGone fun ⟨k, hk, howner⟩ => ⟨k, htxns ▸ hk, howner⟩
  rcases H with hgone' | ⟨⟨s, hs, hprot⟩, hpids, hlives⟩
  · exact hgone hgone'
  cases h with
  | tend h => exact h.inheritsTxn (.inr ⟨⟨s, hs, hprot⟩, hpids, hlives⟩)
  | @newTxn t' k' s' e' vacant =>
    have hne : t ≠ t' := by
      rintro rfl
      simp [vacant.2.2.1] at hs
    exact .inr ⟨⟨s, by simpa [hne] using hs, hprot⟩, by simpa [hne] using hpids,
      hlive hlives (by simp [hne])⟩
  | @ended t' k' j s' at_ own =>
    -- A transaction of this process is another one.
    have hne : t ≠ t' := by
      rintro rfl
      exact hp ((hpids k' at_).symm.trans own)
    exact .inr ⟨⟨s, by simpa [hne] using hs, hprot⟩, by simpa [hne] using hpids,
      hlive hlives (by simp [hne])⟩
  | _ => exact .inr ⟨⟨s, hs, hprot⟩, hpids, hlive hlives rfl⟩

theorem Moves.inherits (h : Moves w w') (hp : p ≠ w.pid) (H : w.Inherits p e) :
    w'.Inherits p e := by
  induction h with
  | refl => exact H
  | tail hmoves hmove ih => exact hmove.inherits (by rwa [(Moves.logs hmoves).1]) ih

theorem Moves.inheritsTxn {t : TxnRef} (h : Moves w w') (hp : p ≠ w.pid)
    (H : w.InheritsTxn p t e) : w'.InheritsTxn p t e := by
  induction h with
  | refl => exact H
  | tail hmoves hmove ih => exact hmove.inheritsTxn (by rwa [(Moves.logs hmoves).1]) ih

theorem Relinquished.inherits {x : EnvRef} (R : Relinquished x w w') (hne : e ≠ x)
    (H : w.Inherits p e) : w'.Inherits p e := by
  rw [World.Inherits, World.EnvGone, R.envSexps, R.envs e hne]
  exact H

theorem Relinquished.inheritsTxn {x : EnvRef} {t : TxnRef} (R : Relinquished x w w')
    (hne : e ≠ x) (H : w.InheritsTxn p t e) : w'.InheritsTxn p t e := by
  rcases H with hgone | ⟨hobject, hpids, hlive⟩
  · exact .inl (by rw [World.TxnGone, R.txnSexps]; exact hgone)
  have hgone : w.EnvGone e → w'.EnvGone e := by
    rw [World.EnvGone, World.EnvGone, R.envSexps]
    exact id
  refine .inr ⟨by rwa [R.txnSexps], ?_⟩
  rcases R.txns with htxns | ⟨h, t₁, k₁, -, -, ht₁, htxns⟩
  · rw [htxns]
    exact ⟨hpids, hlive.imp_left hgone⟩
  · rw [htxns]
    by_cases htt : t = t₁
    · subst htt
      rw [Function.update_self]
      refine ⟨fun j hj => ?_, .inl (hgone (hlive.resolve_right ?_))⟩
      · cases hj
        exact hpids k₁ ht₁.at_
      · rintro ⟨k, hk, howner⟩
        obtain rfl : k = k₁ := Option.some.inj (hk ▸ ht₁.at_)
        exact hne (Option.some.inj (howner.symm.trans ht₁.owner))
    · rw [Function.update_of_ne htt]
      exact ⟨hpids, hlive.imp_left hgone⟩

/-! ### Runs of a child -/

/-- A run of a child that was forked at `u`, or of a child of that child, in which nothing has
closed the environment object `e`. -/
inductive Descends (L : Platform σ) (e : EnvRef) (u : World σ) : World σ → Prop where
  | fork {child : Pid} (new : child ∉ u.pid :: u.forebears) : Descends L e u (u.forked child)
  | step {w : World σ} (run : Descends L e u w) {event : Event} (allowed : event.Allowed w)
      (unclosed : event ≠ .entry (.envClose (.env e))) : Descends L e u (event.next L w)

/-- A process that descends from that of `u`, and its trace, to which no process of `u` has
added. -/
structure Heir (u w : World σ) : Prop where
  pid : w.pid ∉ u.pid :: u.forebears
  forebears : u.pid :: u.forebears ⊆ w.forebears
  log : ∃ calls, w.log = calls ++ u.log ∧ ∀ c ∈ calls, c.pid ∉ u.pid :: u.forebears

theorem Heir.logs (H : Heir u w) (hpid : w'.pid = w.pid) (hforebears : w'.forebears = w.forebears)
    (h : w.Logs w') : Heir u w' where
  pid := by rw [hpid]; exact H.pid
  forebears := by rw [hforebears]; exact H.forebears
  log := by
    obtain ⟨calls, hlog, hcalls⟩ := H.log
    obtain ⟨calls', hlog', hcalls'⟩ := h
    refine ⟨calls' ++ calls, by rw [hlog', hlog, List.append_assoc], fun c hc => ?_⟩
    rcases List.mem_append.mp hc with hc | hc
    · rw [hcalls' c hc]
      exact H.pid
    · exact hcalls c hc

theorem Event.forebears (I : Inv { lossy := true } w) {event : Event}
    (hfork : ∀ child, event ≠ .fork child) : (event.next L w).forebears = w.forebears := by
  cases event with
  | entry command => exact (command.spec L (by simp) I).1.later.forebears
  | finalize object => exact (finalize_sound L I object).later.forebears
  | fork child => exact absurd rfl (hfork child)

/-- One event of a child. -/
theorem Heir.step (H : Heir u w) (I : Inv { lossy := true } w) {event : Event}
    (hallowed : event.Allowed w) : Heir u (event.next L w) := by
  by_cases hfork : ∃ child, event = .fork child
  · obtain ⟨child, rfl⟩ := hfork
    have hnew : child ∉ w.pid :: w.forebears := hallowed
    refine ⟨fun hmem => ?_, fun q hq => ?_, H.log⟩
    · exact hnew (List.mem_cons_of_mem _ (H.forebears hmem))
    · exact List.mem_cons_of_mem _ (H.forebears hq)
  · have hforebears := event.forebears (L := L) I (not_exists.mp hfork)
    rcases event.effect (L := L) I with hmoves | ⟨x, rfl, R⟩ | hfork'
    · exact H.logs hmoves.logs.1 hforebears hmoves.logs.2
    · exact H.logs R.pid hforebears R.logs
    · exact absurd hfork' hfork

theorem Event.inherits (I : Inv v w) {event : Event} (hp : p ≠ w.pid)
    (hunclosed : event ≠ .entry (.envClose (.env e))) (H : w.Inherits p e) :
    (event.next L w).Inherits p e := by
  rcases event.effect (L := L) I with hmoves | ⟨x, rfl, R⟩ | ⟨child, rfl⟩
  · exact hmoves.inherits hp H
  · exact R.inherits (by rintro rfl; exact hunclosed rfl) H
  · exact H

theorem Event.inheritsTxn (I : Inv v w) {event : Event} {t : TxnRef} (hp : p ≠ w.pid)
    (hunclosed : event ≠ .entry (.envClose (.env e))) (H : w.InheritsTxn p t e) :
    (event.next L w).InheritsTxn p t e := by
  rcases event.effect (L := L) I with hmoves | ⟨x, rfl, R⟩ | ⟨child, rfl⟩
  · exact hmoves.inheritsTxn hp H
  · exact R.inheritsTxn (by rintro rfl; exact hunclosed rfl) H
  · exact H

theorem Descends.reachable (hr : Reachable L u) (hd : Descends L e u w) : Reachable L w := by
  induction hd with
  | @fork child new =>
    obtain ⟨lib, pid, hsteps⟩ := hr
    exact ⟨lib, pid, hsteps.tail ⟨.fork child, new, rfl⟩⟩
  | step _ allowed unclosed ih =>
    obtain ⟨lib, pid, hsteps⟩ := ih
    exact ⟨lib, pid, hsteps.tail ⟨_, allowed, rfl⟩⟩

theorem Descends.heir (hr : Reachable L u) (hd : Descends L e u w) : Heir u w := by
  induction hd with
  | fork new => exact ⟨new, List.Subset.refl _, [], rfl, by simp⟩
  | step run allowed unclosed ih =>
    exact ih.step ((run.reachable hr).invariant (by simp)) allowed

theorem Descends.inherits (hr : Reachable L u) (hd : Descends L e u w)
    (hp : p ∈ u.pid :: u.forebears) (H : u.Inherits p e) : w.Inherits p e := by
  induction hd with
  | fork new => exact H
  | @step w run event allowed unclosed ih =>
    have hne : p ≠ w.pid := by
      rintro rfl
      exact (run.heir hr).pid hp
    have I : Inv { lossy := true } _ := (run.reachable hr).invariant (by simp)
    exact Event.inherits I hne unclosed ih

theorem Descends.inheritsTxn {t : TxnRef} (hr : Reachable L u) (hd : Descends L e u w)
    (hp : p ∈ u.pid :: u.forebears) (H : u.InheritsTxn p t e) : w.InheritsTxn p t e := by
  induction hd with
  | fork new => exact H
  | @step w run event allowed unclosed ih =>
    have hne : p ≠ w.pid := by
      rintro rfl
      exact (run.heir hr).pid hp
    have I : Inv { lossy := true } _ := (run.reachable hr).invariant (by simp)
    exact Event.inheritsTxn I hne unclosed ih

/-! ### Entry points on inherited handles -/

/-- The environment object that an entry point uses; the two state queries use none. -/
def Command.env? : Command → Option Sexp
  | envClose x | envReaderCheck x | envPath x | envGetFlags x | envSetFlags x _ _ | envSync x _ _
  | envStat x | envInfo x | txnBegin x _ _ => some x
  | _ => none

/-- The transaction object that an entry point uses. -/
def Command.txn? : Command → Option Sexp
  | txnCommit x | txnAbort x | txnId x | txnStat x _ | txnInfo x | get x _ _ | put x _ _ _ _
  | del x _ _ | scan x _ _ _ _ _ | dbiOpen x _ _ | dbiDrop x _ _ | dbiList x
  | dbiSequence x _ _ => some x
  | _ => none

/-- The entry point refuses an argument of its own before it looks at a handle. -/
def Command.Misuses (L : Platform σ) : Command → Prop
  | scan _ limit _ _ _ _ => ¬ limit.le (maxNativeInteger L)
  | _ => False

/-- The condition names the process that opened a handle and the one that uses it. -/
def Condition.NamesFork (opener current : Pid) : Condition → Prop
  | foreignEnv p q | foreignEnvClose p q | foreignTxn p q => p = opener ∧ q = current
  | _ => False

/-- The entry point raises a condition that names the fork, unless it misses another argument, and
libmdbx is not called. -/
def RefusedByName (L : Platform σ) (w : World σ) (opener : Pid) (command : Command) : Prop :=
  ∃ c w', (command.run L).run w = (.error (.stop c), w') ∧ w'.log = w.log ∧ w'.lib = w.lib ∧
    (c.NamesFork opener w.pid ∨ command.Misuses L ∧ c = .limitTooLarge)

section Refusals

variable {h : EnvHandle} {t : TxnRef} {k : TxnHandle} {x : Sexp} {exit : Exit}

theorem envFromSexp_foreign {s : EnvSexp} (hs : w.envSexps e = some s) (haddr : s.addr = some e)
    (he : w.envs e = some h) (hpid : h.pid ≠ w.pid) :
    (envFromSexp (.env e)).run w = (.error (.stop (.foreignEnv h.pid w.pid)), w) := by
  have hx : (isEnvSexp (.env e)).run w = (.ok s, w) := by
    simp [isEnvSexp, hs]
  rw [envFromSexp, Prog.bind_ok hx, haddr]
  simp only
  rw [Prog.bind_ok (derefEnv_run he), Prog.bind_ok currentPid_run,
    Prog.bind_error (refuse_run hpid)]

theorem txnFromSexp_foreign {s : TxnSexp} (hs : w.txnSexps t = some s) (haddr : s.addr = some t)
    (ht : w.txns t = some k) (hpid : k.pid ≠ w.pid) :
    (txnFromSexp (.txn t)).run w = (.error (.stop (.foreignTxn k.pid w.pid)), w) := by
  have hx : (isTxnSexp (.txn t)).run w = (.ok s, w) := by
    simp [isTxnSexp, hs]
  rw [txnFromSexp, Prog.bind_ok hx, haddr]
  simp only
  rw [Prog.bind_ok (derefTxn_run ht), Prog.bind_ok currentPid_run,
    Prog.bind_error (refuse_run hpid)]

/-- All of them but the close ask `env_from_sexp` first. -/
theorem Command.run_env (command : Command) (henv : command.env? = some x)
    (hclose : command ≠ .envClose x) (hx : (envFromSexp x).run w = (.error exit, w)) :
    (command.run L).run w = (.error exit, w) := by
  have hfirst : ∀ {α : Type} {f : EnvRef → Pkg σ α} {g : α → Answer},
      (g <$> (envFromSexp x >>= f)).run w = (.error exit, w) := fun {α f g} =>
    Prog.map_error g (Prog.bind_error hx)
  cases command with
  | envClose y =>
    cases henv
    exact absurd rfl hclose
  | envReaderCheck | envPath | envGetFlags | envSetFlags | envSync | envStat | envInfo
  | txnBegin =>
    cases henv
    exact hfirst
  | _ => cases henv

/-- All of them but the abort ask `txn_from_sexp`, a scan after its own check. -/
theorem Command.run_txn (command : Command) (htxn : command.txn? = some x)
    (habort : command ≠ .txnAbort x) (hx : (txnFromSexp x).run w = (.error exit, w)) :
    (command.run L).run w = (.error exit, w) ∨
      command.Misuses L ∧ (command.run L).run w = (.error (.stop .limitTooLarge), w) := by
  have hfirst : ∀ {α : Type} {f : TxnRef → Pkg σ α} {g : α → Answer},
      (g <$> (txnFromSexp x >>= f)).run w = (.error exit, w) := fun {α f g} =>
    Prog.map_error g (Prog.bind_error hx)
  have hwritable : ∀ {α : Type} {f : TxnRef → Pkg σ α} {g : α → Answer},
      (g <$> (writableTxn x >>= f)).run w = (.error exit, w) := fun {α f g} =>
    Prog.map_error g (Prog.bind_error (Prog.bind_error hx))
  cases command with
  | txnAbort y =>
    cases htxn
    exact absurd rfl habort
  | scan y limit values db start reverse =>
    cases htxn
    by_cases hlimit : limit.le (maxNativeInteger L) = true
    · refine .inl (Prog.map_error _ ?_)
      rw [mdbxScan_, Prog.bind_ok (refuse_pass (not_not.mpr hlimit)), Prog.bind_error hx]
    · exact .inr ⟨hlimit, Prog.map_error _ (Prog.bind_error (refuse_run hlimit))⟩
  | put | del | dbiDrop =>
    cases htxn
    exact .inl hwritable
  | dbiSequence y db increment =>
    cases htxn
    have hsequence : (sequenceTxn x increment).run w = (.error exit, w) := by
      rw [sequenceTxn]
      split
      · exact Prog.bind_error hx
      · exact hx
    exact .inl (Prog.map_error _ (Prog.bind_error hsequence))
  | txnCommit | txnId | txnStat | txnInfo | get | dbiOpen | dbiList =>
    cases htxn
    exact .inl hfirst
  | _ => cases htxn

/-- The close of an environment of another process: unless its transactions come first. -/
theorem mdbxEnvClose_foreign (I : Inv v w) {s : EnvSexp} (hs : w.envSexps e = some s)
    (haddr : s.addr = some e) (he : w.envs e = some h) (henv : h.env = some e)
    (hpid : h.pid ≠ w.pid) (hclose : h.poisoned = true ∨ h.liveTxns = []) :
    ∃ w', (mdbxEnvClose_ L (.env e)).run w =
      (.error (.stop (.foreignEnvClose h.pid w.pid)), w') ∧ w'.log = w.log ∧ w'.lib = w.lib := by
  by_cases hlive : h.liveTxns = []
  · rw [mdbxEnvClose_shut L hs haddr he hlive, closeHandle_foreign L he henv hpid true]
    exact ⟨_, rfl, rfl, rfl⟩
  · have hpois := hclose.resolve_right hlive
    obtain ⟨t, k, ht⟩ := I.graph.live_of_ne_nil he hlive
    obtain ⟨w₁, hclose₁, he₁, hlib, hlog, hpid₁, -⟩ :=
      mdbxEnvClose_unusable (L := L) I.graph hs haddr he hpois ht
    have hforeign := closeHandle_foreign L he₁ henv (by rwa [hpid₁]) true
    rw [hpid₁] at hforeign
    exact ⟨_, hclose₁.trans hforeign, hlog, hlib⟩

/-- An entry point on an environment of another process. -/
theorem Command.env_refused (I : Inv v w) {s : EnvSexp} (hs : w.envSexps e = some s)
    (haddr : s.addr = some e) (he : w.envs e = some h) (henv : h.env = some e)
    (hpid : h.pid ≠ w.pid) (command : Command) (hcommand : command.env? = some (.env e)) :
    RefusedByName L w h.pid command ↔
      ¬ (command = .envClose (.env e) ∧ h.poisoned = false ∧ h.liveTxns ≠ []) := by
  by_cases hclose : command = .envClose (.env e)
  · subst hclose
    constructor
    · rintro ⟨c, w', hrun, -, -, hc⟩ ⟨-, hhealthy, hlive⟩
      rw [Command.run, Prog.map_error _ (mdbxEnvClose_stillOpen hs haddr he hhealthy hlive)] at hrun
      cases hrun
      exact hc.elim id fun hc => hc.1
    · intro hnot
      obtain ⟨w', hrun, hlog, hlib⟩ := mdbxEnvClose_foreign (L := L) I hs haddr he henv hpid
        (by by_contra hboth; simp_all)
      exact ⟨_, w', Prog.map_error _ hrun, hlog, hlib, .inl ⟨rfl, rfl⟩⟩
  · refine iff_of_true ?_ fun hboth => hclose hboth.1
    exact ⟨_, w, command.run_env hcommand hclose (envFromSexp_foreign hs haddr he hpid), rfl, rfl,
      .inl ⟨rfl, rfl⟩⟩

/-- An entry point on a live transaction of another process. -/
theorem Command.txn_refused (I : Inv v w) {s : TxnSexp} (hs : w.txnSexps t = some s)
    (haddr : s.addr = some t) (ht : LiveTxn w e t k) (hpid : k.pid ≠ w.pid) (command : Command)
    (hcommand : command.txn? = some (.txn t)) : RefusedByName L w k.pid command := by
  have hforeign := txnFromSexp_foreign hs haddr ht.at_ hpid
  by_cases habort : command = .txnAbort (.txn t)
  · subst habort
    obtain ⟨h, he, -⟩ := I.graph.owner ht.at_ ht.owner
    have hrun : (mdbxTxnAbort_ L (.txn t)).run w = _ :=
      (mdbxTxnAbort_healthy L I.graph hs haddr he ht fun hown => hpid hown.1).trans
        (Prog.bind_error hforeign)
    exact ⟨_, w, Prog.map_error _ hrun, rfl, rfl, .inl ⟨rfl, rfl⟩⟩
  · rcases command.run_txn (L := L) hcommand habort hforeign with hrun | ⟨hmisuse, hrun⟩
    · exact ⟨_, w, hrun, rfl, rfl, .inl ⟨rfl, rfl⟩⟩
    · exact ⟨_, w, hrun, rfl, rfl, .inr ⟨hmisuse, rfl⟩⟩

end Refusals

/-! ### Every child -/

/-- The entry point closes the environment `e` where its handle lists a live transaction and is
not panicked. -/
def Command.ClosesBusy (w : World σ) (e : EnvRef) (command : Command) : Prop :=
  command = .envClose (.env e) ∧
    ∃ h, w.envs e = some h ∧ h.poisoned = false ∧ h.liveTxns ≠ []

/-- A process that inherits an open environment, and that has not closed it, is refused by name at
every entry point that uses the environment or its transaction, but at the close of an environment
that still lists the transaction, and never hands either of them to libmdbx. -/
theorem inherited_refused (hr : Reachable L u) {h : EnvHandle} (he : u.envs e = some h)
    (henv : h.env ≠ none) (hd : Descends L e u w) :
    (∀ s, w.envSexps e = some s → s.addr ≠ none → ∀ command : Command,
      command.env? = some (.env e) →
        (RefusedByName L w h.pid command ↔ ¬ command.ClosesBusy w e)) ∧
    (∀ t k, u.txns t = some k → k.owner = some e → ∀ s, w.Keeps t s → ∀ command : Command,
      command.txn? = some (.txn t) → RefusedByName L w k.pid command) ∧
    ∃ calls, w.log = calls ++ u.log ∧ ∀ c ∈ calls, c.call.group ≠ some e := by
  have Iu : Inv { lossy := true } u := hr.invariant (by simp)
  have hrw := hd.reachable hr
  have I : Inv { lossy := true } w := hrw.invariant (by simp)
  have H := hd.heir hr
  have henv' : h.env = some e := by
    obtain ⟨p, hp⟩ := Option.ne_none_iff_exists'.mp henv
    rw [hp, Iu.graph.env he hp]
  refine ⟨fun s hs haddr command hcommand => ?_, fun t k ht howner s hs command hcommand => ?_, ?_⟩
  · have hpid := Iu.fresh.envPid he
    rcases hd.inherits hr hpid (.inr ⟨h, he, henv', rfl⟩) with
      ⟨s', hs', hgone⟩ | ⟨g, hg, hgenv, hgpid⟩
    · obtain rfl : s = s' := Option.some.inj (hs ▸ hs')
      exact absurd hgone haddr
    · obtain ⟨e', he'⟩ := Option.ne_none_iff_exists'.mp haddr
      obtain rfl := (I.graph.envSexp hs he').1
      have hne : g.pid ≠ w.pid := by
        rw [hgpid]
        exact fun heq => H.pid (heq ▸ hpid)
      rw [← hgpid, command.env_refused I hs he' hg hgenv hne hcommand]
      simp [Command.ClosesBusy, hg]
  · have hpid := Iu.fresh.txnPid ht
    obtain ⟨t', ht'⟩ := Option.ne_none_iff_exists'.mp hs.addr
    obtain rfl := (I.graph.txnSexp hs.at_ ht').1
    obtain ⟨s₀, hs₀, haddr₀⟩ := Iu.conserved.txnObject ht howner (by simp)
    have hprot₀ := hr.protects t' s₀ k e hs₀ (by simp [haddr₀]) ht howner
    have hinherits : u.InheritsTxn k.pid t' e :=
      .inr ⟨⟨s₀, hs₀, hprot₀⟩, by simp [ht], .inr ⟨k, ht, howner⟩⟩
    rcases hd.inheritsTxn hr hpid hinherits with ⟨s', hs', hgone⟩ | ⟨⟨s', hs', hprot⟩, hpids, hlive⟩
    · obtain rfl : s = s' := Option.some.inj (hs.at_ ▸ hs')
      exact absurd hgone hs.addr
    obtain rfl : s = s' := Option.some.inj (hs.at_ ▸ hs')
    obtain ⟨j, hj, hjowner⟩ := hlive.resolve_left (hs.prot e hprot)
    have hne : j.pid ≠ w.pid := by
      rw [hpids j hj]
      exact fun heq => H.pid (heq ▸ hpid)
    rw [← hpids j hj]
    exact command.txn_refused I hs.at_ ht' ⟨hj, hjowner⟩ hne hcommand
  · obtain ⟨calls, hlog, hcalls⟩ := H.log
    have hcreated : Created w.log h.pid e := by
      obtain ⟨c, hc, hcreates⟩ := Iu.traced.created he henv'
      exact ⟨c, by simp [hlog, hc], hcreates⟩
    refine ⟨calls, hlog, fun c hc hgroup => hcalls c hc ?_⟩
    obtain ⟨before, past, rfl⟩ := List.append_of_mem hc
    have hsuffix : c :: (past ++ u.log) <:+ w.log := ⟨before, by simp [hlog]⟩
    have hused := (I.safe.suffix hsuffix).1.group hgroup
    have hpid : c.pid = h.pid := by
      obtain ⟨c', hc', hcreates⟩ := hused.1
      refine I.safe.created_unique ⟨c', ?_, hcreates⟩ hcreated
      exact hsuffix.subset (List.mem_cons_of_mem _ hc')
    rw [hpid]
    exact Iu.fresh.envPid he

/-- The parent at the fork: it has an environment open and a transaction live. -/
abbrev atFork : World Unit := (World.start () 1).after obliging openAndBegin

theorem atFork_reachable : Reachable obliging atFork :=
  ⟨(), 1, World.after_steps (by decide +kernel)⟩

theorem atFork_env : atFork.envs 0 = some ⟨some 0, false, 1, "key", "db", [1], (none, none)⟩ := by
  decide +kernel

/-- In a child the inherited transaction is refused by name, and so is the environment. -/
theorem inherited_refused_atFork :
    RefusedByName obliging (atFork.forked 2) 1 (.get (.txn 1) [] []) ∧
      RefusedByName obliging (atFork.forked 2) 1 (.envSync (.env 0) true false) := by
  have hd : Descends obliging 0 atFork (atFork.forked 2) := .fork (by decide +kernel)
  have hs : (atFork.forked 2).envSexps 0 = some ⟨some 0, "db", false, true⟩ := by
    decide +kernel
  have hst : (atFork.forked 2).txnSexps 1 = some ⟨some 1, some 0, true, "db"⟩ := by
    decide +kernel
  have ht : atFork.txns 1
      = some ⟨some ⟨0, 1⟩, some 0, .active, true, false, 1, 0, 0, false, []⟩ := by
    decide +kernel
  have hkeeps : (atFork.forked 2).Keeps 1 ⟨some 1, some 0, true, "db"⟩ := by
    refine ⟨hst, by simp, ?_⟩
    rintro x hx ⟨s, hs', hgone⟩
    cases hx
    rw [hs] at hs'
    cases hs'
    cases hgone
  have hall := inherited_refused atFork_reachable atFork_env (by simp) hd
  exact ⟨hall.2.1 1 _ ht rfl _ hkeeps _ rfl,
    (hall.1 _ hs (by simp) _ rfl).mpr fun hbusy => by cases hbusy.1⟩

/-- The close complains of the transaction instead. -/
theorem inherited_close_stillOpen :
    Reachable obliging atFork ∧ Descends obliging 0 atFork (atFork.forked 2) ∧
      (∃ h, atFork.envs 0 = some h ∧ h.env = some 0 ∧ h.pid = 1) ∧
      (∃ s, (atFork.forked 2).envSexps 0 = some s ∧ s.addr = some 0) ∧
      (((Command.envClose (.env 0)).run obliging).run (atFork.forked 2)).1
        = .error (.stop (.txnsStillOpen 1)) ∧
      ¬ RefusedByName obliging (atFork.forked 2) 1 (.envClose (.env 0)) := by
  have hrun : (((Command.envClose (.env 0)).run obliging).run (atFork.forked 2)).1
      = .error (.stop (.txnsStillOpen 1)) := by
    decide +kernel
  refine ⟨atFork_reachable, .fork (by decide +kernel), ⟨_, atFork_env, rfl, rfl⟩,
    ⟨⟨some 0, "db", false, true⟩, by decide +kernel, rfl⟩, hrun, ?_⟩
  rintro ⟨c, w', hc, -, -, hnames⟩
  rw [hc] at hrun
  cases hrun
  exact hnames.elim id fun hmisuse => hmisuse.1

end Mdbx
