import Mdbx.Soundness

/-! Ending what finalizers end: the ways in which a live transaction is parted with and an
environment shut, and the invariant across a collection of R. -/

namespace Mdbx

open ProofKit

variable {σ : Type} {w w₀ : World σ} {v : Waived} {may : NativeCall → Prop}

/-! ### Parting with a live transaction -/

/-- The ways in which a finalizer parts with the live transaction `t` of the environment `e`,
before it detaches the handle. -/
inductive Parted (L : Platform σ) (e : EnvRef) (h : EnvHandle) (t : TxnRef) (k : TxnHandle)
    (w : World σ) :
    World σ → EnvHandle → TxnHandle → Prop where
  /-- libmdbx has aborted it. -/
  | aborted (lib : σ) (rc : Status) (hhealthy : h.poisoned = false) (hk : k.poisoned = false)
      (hpid : h.pid = w.pid)
      (hcall : ∃ r, (L.call (.txnAbort ⟨e, t⟩ .teardown) w.lib).1 = .ok r) :
    Parted L e h t k w (w.called (.txnAbort ⟨e, t⟩ .teardown) lib (.returned rc)) h k
  /-- The abort panicked. -/
  | panicked (lib : σ) (hhealthy : h.poisoned = false) (hk : k.poisoned = false)
      (hpid : h.pid = w.pid) (w' : World σ)
      (hw' : w' = ((w.called (.txnAbort ⟨e, t⟩ .teardown) lib .panicked).setEnv e
        (some { h with poisoned := true })).setTxn t (some { k with poisoned := true }))
      (hcall : ∃ info, (L.call (.txnAbort ⟨e, t⟩ .teardown) w.lib).1 = .error info) :
    Parted L e h t k w { w' with abandoned := w'.abandoned ++ [.txn ⟨e, t⟩] }
      { h with poisoned := true } { k with poisoned := true }
  /-- It may not be handed to libmdbx. -/
  | givenUp (hunusable : h.poisoned = true ∨ h.pid ≠ w.pid) :
    Parted L e h t k w { w with abandoned := w.abandoned ++ [.txn ⟨e, t⟩] } h k

namespace Parted

variable {L : Platform σ} {e : EnvRef} {h h' : EnvHandle} {t : TxnRef} {k k' : TxnHandle}
  {w' : World σ}

theorem env (P : Parted L e h t k w w' h' k') (he : w.envs e = some h) : w'.envs e = some h' := by
  cases P with
  | aborted | givenUp => exact he
  | panicked lib hhealthy hk hpid w'' hw => simp [hw]

theorem liveTxn (P : Parted L e h t k w w' h' k') (ht : LiveTxn w e t k) : LiveTxn w' e t k' := by
  cases P with
  | aborted | givenUp => exact ⟨ht.at_, ht.owner⟩
  | panicked lib hhealthy hk hpid w'' hw => exact ⟨by simp [hw], ht.owner⟩

theorem graph (P : Parted L e h t k w w' h' k') (G : Graph w) (he : w.envs e = some h)
    (ht : LiveTxn w e t k) : Graph w' := by
  cases P with
  | aborted | givenUp => exact { G with }
  | panicked lib hhealthy hk hpid w'' hw =>
    subst hw
    have G' := G.setEnv (g := { h with poisoned := true }) he rfl rfl rfl (fun _ => rfl) (.inl rfl)
    have G'' := G'.setTxn (j := { k with poisoned := true }) (k := k) ht.at_ rfl rfl rfl rfl
      (.inr fun e' h'' howner he' => by
        obtain rfl : e = e' := Option.some.inj (ht.owner ▸ howner)
        simp at he'
        simp [← he'])
    exact { G'' with }

end Parted

section Run

variable (L : Platform σ) {e : EnvRef} {h : EnvHandle} {t : TxnRef} {k : TxnHandle}

theorem tearDown_run (he : w.envs e = some h) (ht : LiveTxn w e t k) (p : TxnPtr) :
    (∃ rc lib, (tearDown L t p).run w
      = (.ok true, w.called (.txnAbort p .teardown) lib (.returned rc)) ∧
      ∃ r, (L.call (.txnAbort p .teardown) w.lib).1 = .ok r) ∨
    ∃ lib, (tearDown L t p).run w
      = (.ok false, ((w.called (.txnAbort p .teardown) lib .panicked).setEnv e
          (some { h with poisoned := true })).setTxn t (some { k with poisoned := true })) ∧
      ∃ info, (L.call (.txnAbort p .teardown) w.lib).1 = .error info := by
  rw [tearDown]
  rcases native_answered L (.txnAbort p .teardown) w with ⟨r, lib, hr, hc⟩ | ⟨info, lib, hr, hc⟩
  · exact .inl ⟨r.rc, lib, by rw [Prog.bind_ok (runGuarded_ok hr)]; rfl, r, hc⟩
  · have hpoison := poisonTxn_run (w := w.called (.txnAbort p .teardown) lib .panicked)
      ht.at_ ht.owner he
    exact .inr ⟨lib, by rw [Prog.bind_ok (runGuarded_panic hr hpoison)]; rfl, info, hc⟩

/-- The abort of either finalizer and the entry in `abandoned` that stands in for it. -/
theorem part_run (G : Graph w) (he : w.envs e = some h) (ht : LiveTxn w e t k)
    {usable : Prop} [Decidable usable]
    (husable : usable ↔ h.poisoned = false ∧ k.poisoned = false ∧ h.pid = w.pid)
    {a : Pkg σ Bool}
    (habort : a.run w = (if usable then tearDown L t ⟨e, t⟩ else pure false).run w) :
    ∃ w' h' k', Parted L e h t k w w' h' k' ∧ ∃ ended w₁, a.run w = (.ok ended, w₁) ∧
      (whenever (ended = false) (abandon (some (.txn ⟨e, t⟩)))).run w₁ = (.ok (), w') := by
  by_cases hu : usable
  · obtain ⟨hhealthy, hk, hpid⟩ := husable.mp hu
    rw [if_pos hu] at habort
    rcases tearDown_run L he ht ⟨e, t⟩ with ⟨rc, lib, hr, hc⟩ | ⟨lib, hr, hc⟩
    · exact ⟨_, _, _, .aborted lib rc hhealthy hk hpid hc, _, _, habort.trans hr, rfl⟩
    · exact ⟨_, _, _, .panicked lib hhealthy hk hpid _ rfl hc, _, _, habort.trans hr, rfl⟩
  · rw [if_neg hu] at habort
    refine ⟨_, _, _, .givenUp ?_, _, _, habort.trans rfl, rfl⟩
    obtain ⟨h', he', -, -, hpois⟩ := G.owner ht.at_ ht.owner
    rw [he] at he'
    cases he'
    by_contra hno
    rw [not_or, Bool.not_eq_true, not_not] at hno
    exact hu (husable.mpr ⟨hno.1, by by_contra h; simp_all, hno.2⟩)

theorem finalizeAbort_run (he : w.envs e = some h) (henv : h.env = some e) (ht : LiveTxn w e t k)
    (hpid : k.pid = h.pid) (p : TxnPtr) : (finalizeAbort L t k p).run w =
      (if h.poisoned = false ∧ k.poisoned = false ∧ h.pid = w.pid then tearDown L t p
        else pure false).run w := by
  rw [finalizeAbort, ht.owner]
  cases hk : k.poisoned with
  | true => simp
  | false =>
    simp only
    rw [Prog.bind_ok (derefEnv_run he), Prog.bind_ok currentPid_run]
    simp [henv, hpid]

/-- What `finalize_txn` does with a live transaction. -/
theorem finalizeHandle_run (G : Graph w) (he : w.envs e = some h) (ht : LiveTxn w e t k) :
    ∃ w₁ h₁ k₁ w₂ h₂, Parted L e h t k w w₁ h₁ k₁ ∧ Refreshed e h₁ w₁ w₂ ∧ w₂.envs e = some h₂ ∧
      (finalizeHandle L t k).run w = (.ok (), w₂.detached t k₁ e h₂ .aborted) := by
  have htxn : k.txn = some ⟨e, t⟩ := by rw [G.txn ht.at_, ht.owner]; rfl
  obtain ⟨h', he', henv, hpid, -⟩ := G.owner ht.at_ ht.owner
  obtain rfl : h = h' := Option.some.inj (he ▸ he')
  obtain ⟨w₁, h₁, k₁, P, ended, wa, habort, hwhen⟩ := part_run L G he ht Iff.rfl
    (finalizeAbort_run L he henv ht hpid.symm ⟨e, t⟩)
  have ht₁ := P.liveTxn ht
  obtain ⟨w₂, h₂, R, he₂, hmark⟩ := markFinished_run L (P.graph G he ht) ht₁.at_ ht₁.owner
    (P.env he) .aborted
  refine ⟨w₁, h₁, k₁, w₂, h₂, P, R, he₂, ?_⟩
  rw [finalizeHandle, htxn]
  simp only
  rw [Prog.bind_ok habort, Prog.bind_ok hwhen, hmark]

/-- What `detach_txns` does with a live transaction. -/
theorem detachTxns_live (G : Graph w) (he : w.envs e = some h) (ht : LiveTxn w e t k) :
    ∃ w₁ h₁ k₁, Parted L e h t k w w₁ h₁ k₁ ∧
      (detachTxns L e).run w = (.ok (), w₁.detached t k₁ e h₁ .aborted) := by
  have htxn : k.txn = some ⟨e, t⟩ := by rw [G.txn ht.at_, ht.owner]; rfl
  obtain ⟨h', he', henv, hpid, -⟩ := G.owner ht.at_ ht.owner
  obtain rfl : h = h' := Option.some.inj (he ▸ he')
  have husable : ((h.env.isSome && !h.poisoned && h.pid == w.pid) = true ∧ k.poisoned = false) ↔
      h.poisoned = false ∧ k.poisoned = false ∧ h.pid = w.pid := by
    simp only [henv, Option.isSome_some, Bool.true_and, Bool.and_eq_true, Bool.not_eq_true',
      beq_iff_eq]
    tauto
  obtain ⟨w₁, h₁, k₁, P, ended, wa, habort, hwhen⟩ := part_run L G he ht husable
    (a := detachAbort L (h.env.isSome && !h.poisoned && h.pid == w.pid) t k)
    (by rw [detachAbort, htxn])
  have ht₁ := P.liveTxn ht
  have hnone : ∀ w', (detachEach L (h.env.isSome && !h.poisoned && h.pid == w.pid) []).run w'
      = (.ok (), w') := fun _ => rfl
  refine ⟨w₁, h₁, k₁, P, ?_⟩
  rw [detachTxns, Prog.bind_ok (derefEnv_run he), Prog.bind_ok currentPid_run,
    G.liveTxns_eq ht.at_ ht.owner he, detachEach]
  simp only [bind_assoc]
  rw [Prog.bind_ok (derefTxn_run ht.at_), Prog.bind_ok habort, htxn, Option.map_some,
    Prog.bind_ok hwhen, Prog.bind_ok (updateTxn_run ht₁.at_ _), Prog.bind_ok (hnone _),
    updateEnv_run (by exact P.env he)]
  rfl

theorem detachTxns_none (he : w.envs e = some h) (hlive : h.liveTxns = []) :
    (detachTxns L e).run w = (.ok (), w) := by
  have hnone : (detachEach L (h.env.isSome && !h.poisoned && h.pid == w.pid) []).run w
      = (.ok (), w) := rfl
  rw [detachTxns, Prog.bind_ok (derefEnv_run he), Prog.bind_ok currentPid_run, hlive,
    Prog.bind_ok hnone, updateEnv_run he]
  rcases h with ⟨env, poisoned, pid, key, path, liveTxns, heapRoots⟩
  cases hlive
  simp [World.setEnv, ← he]

end Run

section Parted

variable {L : Platform σ} {e : EnvRef} {h : EnvHandle} {t : TxnRef} {k : TxnHandle}

/-- An active transaction has not been committed. -/
theorem Inv.not_committed (I : Inv v w) (ht : LiveTxn w e t k) (hv : v.ending = none)
    (e' : EnvPtr) : ¬ Committed w.log ⟨e', t⟩ := by
  intro hc
  have hactive : k.state = .active := (I.graph.state ht.at_).mpr (by simp [ht.owner])
  have := (I.traced.committed ht.at_ (by simp [hv])).mpr ⟨e', hc⟩
  simp [hactive] at this

/-- Whichever way a transaction is parted with, its handle is ready to be detached. -/
theorem Sound.parted {w' : World σ} {h' : EnvHandle} {k' : TxnHandle} (S : Sound may w₀ v w)
    (hvp : v.poison = none) (hve : v.ending = none) (he : w.envs e = some h)
    (ht : LiveTxn w e t k) (P : Parted L e h t k w w' h' k') :
    Sound may w₀ { v with ending := some t } w' ∧
      (Released w'.log ⟨e, t⟩ ∨ .txn ⟨e, t⟩ ∈ w'.abandoned) ∧
      ∀ e', ¬ Committed w'.log ⟨e', t⟩ := by
  have hactive := fun e' => S.inv.not_committed ht hve e'
  obtain ⟨h₀, he₀, henv, hpid₀, -⟩ := S.inv.graph.owner ht.at_ ht.owner
  obtain rfl : h = h₀ := Option.some.inj (he ▸ he₀)
  have hbelow := S.below (c := .txnAbort ⟨e, t⟩ .teardown) he (by simp [NativeCall.env?])
    (by simp [NativeCall.txn?]; exact ⟨k, ht⟩) (by simp) (by simp)
  have hpermitted : h.poisoned = false → h.pid = w.pid → ∀ o,
      Permitted w.log ⟨w.pid, .txnAbort ⟨e, t⟩ .teardown, o⟩ := fun hhealthy hpid o =>
    S.permitted ⟨he, henv, hhealthy, hpid⟩ (by simp [hvp]) (by simp [NativeCall.env?])
      (by simp [NativeCall.txn?, hve]; exact ⟨k, ht⟩)
  cases P with
  | aborted lib rc hhealthy hk hpid =>
    refine ⟨(S.waiveEnding hve t).called hbelow (hpermitted hhealthy hpid _)
      (alonePermitted_of rfl _) (by simp [NumberUnused]) (by simp)
      (by simp [Call.Creates]) (by simp [Call.Begins]) (by simp [Call.Panics]) ?_
      (by simp [Call.Commits]) ?_ (by simp [NativeCall.reserved]), .inl (.inr ?_), fun e' => ?_⟩
    · rintro p ⟨hp, -⟩
      obtain rfl : ⟨e, t⟩ = p := Option.some.inj hp
      exact ⟨rfl, k, ht.at_⟩
    · rintro p ⟨hp, -⟩
      cases hp
      exact ⟨rfl, k, ht.at_⟩
    · rw [World.called_log, tornDown_cons]
      exact .inl ⟨rfl, by simp⟩
    · simpa [Call.Commits] using hactive e'
  | panicked lib hhealthy hk hpid w₁ hw₁ =>
    have hcalled : Sound may w₀ { v with poison := some e }
        (w.called (.txnAbort ⟨e, t⟩ .teardown) lib .panicked) :=
      (S.waivePoison hvp e).called hbelow (hpermitted hhealthy hpid _)
      (alonePermitted_of rfl _) (by simp [NumberUnused]) (by simp)
        (by simp [Call.Creates]) (by simp [Call.Begins])
        (by simp [Call.Panics, NativeCall.group, NativeCall.env?, NativeCall.txn?])
        (by simp [Call.Ends]) (by simp [Call.Commits]) (by simp [Call.TearsDown])
        (by simp [NativeCall.reserved])
    have hpoisoned : Sound may w₀ v w₁ := hw₁ ▸ hcalled.poisonTxn he ⟨ht.at_, ht.owner⟩
      (w.called_panicked (by simp [NativeCall.group, NativeCall.env?, NativeCall.txn?]) lib)
    have he₁ : w₁.envs e = some { h with poisoned := true } := by simp [hw₁]
    have ht₁ : LiveTxn w₁ e t { k with poisoned := true } := ⟨by simp [hw₁], ht.owner⟩
    refine ⟨hpoisoned.giveUpTxn hve he₁ ht₁ (.inl rfl), .inr (by simp), fun e' => ?_⟩
    have : w₁.log = (w.called (.txnAbort ⟨e, t⟩ .teardown) lib .panicked).log := by simp [hw₁]
    simpa [this, Call.Commits] using hactive e'
  | givenUp hunusable =>
    exact ⟨S.giveUpTxn hve he ht hunusable, .inr (by simp), hactive⟩

end Parted

/-! ### Shutting an environment -/

/-- The `heap_roots` that `abandon_env` keeps. -/
def EnvHandle.roots (h : EnvHandle) : List Abandoned :=
  (h.heapRoots.1.map Abandoned.root).toList ++ (h.heapRoots.2.map Abandoned.root).toList

/-- The world after an environment was given up. -/
def World.givenUpEnv (w : World σ) (e : EnvRef) (h : EnvHandle) : World σ :=
  { w with
    openEnvs := w.openEnvs.filter (· ≠ e)
    abandoned := w.abandoned ++ Abandoned.env e :: h.roots }.setEnv e (some { h with env := none })

/-- The world after an environment was handed to `mdbx_env_close`. -/
def World.closedEnv (w : World σ) (e : EnvRef) (h : EnvHandle) (lib : σ) (o : Outcome) : World σ :=
  ({ w with openEnvs := w.openEnvs.filter (· ≠ e) }.called (.envClose e) lib o).setEnv
    e (some { h with env := none, poisoned := o = Outcome.panicked })

/-- What `close_handle` makes of an open environment without transactions: it keeps the environment
in `abandoned`, or it closes it. -/
inductive Shut (e : EnvRef) (h : EnvHandle) (w : World σ) : World σ → Prop where
  | givenUp (hunusable : h.poisoned = true ∨ h.pid ≠ w.pid) : Shut e h w (w.givenUpEnv e h)
  | closed (lib : σ) (o : Outcome) (hhealthy : h.poisoned = false) (hpid : h.pid = w.pid) :
    Shut e h w (w.closedEnv e h lib o)

section Shut

variable (L : Platform σ) {e : EnvRef} {h : EnvHandle}

theorem EnvHandle.mem_roots {a : Abandoned} (ha : a ∈ h.roots) : ∃ r, a = .root r := by
  rcases List.mem_append.mp ha with ha | ha <;>
  · simp only [Option.mem_toList, Option.map_eq_some_iff] at ha
    obtain ⟨r, -, rfl⟩ := ha
    exact ⟨r, rfl⟩

theorem abandonEnv_run (he : w.envs e = some h) (henv : h.env = some e) :
    (abandonEnv e).run w
      = (.ok (), { w with abandoned := w.abandoned ++ Abandoned.env e :: h.roots }) := by
  rw [abandonEnv, Prog.bind_ok (derefEnv_run he), henv]
  simp [abandon, EnvHandle.roots, List.append_assoc]

/-- Of a handle that never had an environment there is nothing to keep. -/
theorem abandonEnv_none (he : w.envs e = some h) (henv : h.env = none)
    (hroots : h.heapRoots = (none, none)) : (abandonEnv e).run w = (.ok (), w) := by
  rw [abandonEnv, Prog.bind_ok (derefEnv_run he), henv, hroots]
  simp [abandon]

theorem closeHandle_detached (he : w.envs e = some h) (henv : h.env = none) (propagate : Bool) :
    (closeHandle L e propagate).run w = (.ok (), w) := by
  rw [closeHandle, Prog.bind_ok (derefEnv_run he), henv]
  rfl

theorem closeHandle_foreign (he : w.envs e = some h) (henv : h.env = some e)
    (hpid : h.pid ≠ w.pid) (propagate : Bool) : (closeHandle L e propagate).run w =
      (if propagate = true then .error (.stop (.foreignEnvClose h.pid w.pid)) else .ok (),
        w.givenUpEnv e h) := by
  rw [closeHandle, Prog.bind_ok (derefEnv_run he), henv, ifSome_some, unregisterEnv,
    Prog.run_modify_bind, Prog.bind_ok currentPid_run]
  simp only
  rw [if_pos hpid, Prog.bind_ok (abandonEnv_run (by exact he) henv),
    Prog.bind_ok (updateEnv_run (by exact he) _)]
  cases propagate <;> simp [refuse, stop, World.givenUpEnv]

theorem closeHandle_poisoned (he : w.envs e = some h) (henv : h.env = some e)
    (hpid : h.pid = w.pid) (hpoisoned : h.poisoned = true) (propagate : Bool) :
    (closeHandle L e propagate).run w = (.ok (), w.givenUpEnv e h) := by
  rw [closeHandle, Prog.bind_ok (derefEnv_run he), henv, ifSome_some, unregisterEnv,
    Prog.run_modify_bind, Prog.bind_ok currentPid_run]
  simp only
  rw [if_neg (by simpa using hpid), if_pos hpoisoned,
    Prog.bind_ok (abandonEnv_run (by exact he) henv), updateEnv_run (by exact he)]
  rfl

/-- How `close_handle` ends once libmdbx has ended the close by `o`. -/
def closeResult (propagate : Bool) : Except PanicInfo Status → Except Exit Unit
  | .error info => if propagate then .error (.stop (.assertionFailed info)) else .ok ()
  | .ok rc => if propagate = true ∧ rc ≠ Status.success then .error (.stop (.status rc)) else .ok ()

theorem closeHandle_returned (he : w.envs e = some h) (henv : h.env = some e)
    (hpid : h.pid = w.pid) (hhealthy : h.poisoned = false) {r : Reply (.envClose e)} {lib : σ}
    (hr : (native L (.envClose e)).run { w with openEnvs := w.openEnvs.filter (· ≠ e) } =
      (.ok r, { w with openEnvs := w.openEnvs.filter (· ≠ e) }.called (.envClose e) lib
        (.returned r.rc))) (propagate : Bool) : (closeHandle L e propagate).run w =
      (closeResult propagate (.ok r.rc), w.closedEnv e h lib (.returned r.rc)) := by
  rw [closeHandle, Prog.bind_ok (derefEnv_run he), henv, ifSome_some, unregisterEnv,
    Prog.run_modify_bind, Prog.bind_ok currentPid_run]
  simp only
  rw [if_neg (by simpa using hpid), if_neg (by simp [hhealthy]),
    Prog.bind_ok (runGuarded_ok hr), Prog.bind_ok (updateEnv_run (h := h) (by exact he) _)]
  cases propagate <;> by_cases hrc : r.rc = Status.success <;>
    simp [closeResult, whenever, check, refuse, stop, hrc, World.closedEnv, hhealthy]

theorem closeHandle_own (he : w.envs e = some h) (henv : h.env = some e)
    (hpid : h.pid = w.pid) (hhealthy : h.poisoned = false) (propagate : Bool) :
    (∃ rc lib, (closeHandle L e propagate).run w =
      (closeResult propagate (.ok rc), w.closedEnv e h lib (.returned rc))) ∨
    ∃ info lib, (closeHandle L e propagate).run w =
      (closeResult propagate (.error info), w.closedEnv e h lib .panicked) := by
  rcases native_run L (.envClose e) { w with openEnvs := w.openEnvs.filter (· ≠ e) } with
    ⟨r, lib, hr⟩ | ⟨info, lib, hr⟩
  · exact .inl ⟨r.rc, lib, closeHandle_returned L he henv hpid hhealthy hr propagate⟩
  · refine .inr ⟨info, lib, ?_⟩
    rw [closeHandle, Prog.bind_ok (derefEnv_run he), henv, ifSome_some, unregisterEnv,
      Prog.run_modify_bind, Prog.bind_ok currentPid_run]
    simp only
    rw [if_neg (by simpa using hpid), if_neg (by simp [hhealthy]),
      Prog.bind_ok (runGuarded_panic hr (poisonEnv_run (h := h) (by exact he))),
      Prog.bind_ok (updateEnv_run (h := { h with poisoned := true }) (by simp) _)]
    cases propagate <;> simp [closeResult, whenever, stop, World.closedEnv, World.setEnv]

theorem closeHandle_run (he : w.envs e = some h) (henv : h.env = some e) (propagate : Bool) :
    ∃ r w', (closeHandle L e propagate).run w = (r, w') ∧ Shut e h w w' ∧
      (r = .ok () ∨ propagate = true ∧ ∃ c, r = .error (.stop c)) := by
  by_cases hpid : h.pid = w.pid
  · cases hpoisoned : h.poisoned with
    | true =>
      exact ⟨_, _, closeHandle_poisoned L he henv hpid hpoisoned propagate,
        .givenUp (.inl hpoisoned), .inl rfl⟩
    | false =>
      rcases closeHandle_own L he henv hpid hpoisoned propagate with
        ⟨rc, lib, hr⟩ | ⟨info, lib, hr⟩
      · refine ⟨_, _, hr, .closed _ _ hpoisoned hpid, ?_⟩
        cases propagate <;> by_cases hrc : rc = Status.success <;> simp [closeResult, hrc]
      · refine ⟨_, _, hr, .closed _ _ hpoisoned hpid, ?_⟩
        cases propagate <;> simp [closeResult]
  · refine ⟨_, _, closeHandle_foreign L he henv hpid propagate, .givenUp (.inr hpid), ?_⟩
    cases propagate <;> simp

end Shut

section Shut

variable {e : EnvRef} {h : EnvHandle}

theorem Inv.unregisterEnv (I : Inv v w) (e : EnvRef) :
    Inv v { w with openEnvs := w.openEnvs.filter (· ≠ e) } where
  fresh := { I.fresh with }
  graph := I.graph.unregisterEnv e
  traced := { I.traced with }
  conserved := { I.conserved with }
  safe := I.safe

/-- An environment that is closed leaves the registry. -/
theorem Later.unlist (H : Later may w₀ w) (he : w.envs e = some h) (henv : h.env = none) :
    Later may w₀ { w with openEnvs := w.openEnvs.filter (· ≠ e) } := by
  refine H.openEnvs' (fun _ h _ => List.mem_of_mem_filter h) fun e' hmem h' he' henv' => ?_
  refine List.mem_filter.mpr ⟨hmem, decide_eq_true ?_⟩
  rintro rfl
  rw [he] at he'
  cases he'
  exact henv' henv

namespace Sound

variable (S : Sound may w₀ v w)
include S

/-- Every transaction of a usable environment without live transactions is released. -/
theorem released (hv : v.lossy = false) (he : OpenEnv w e h) (hlive : h.liveTxns = [])
    (hbegun : ∀ t, v.begun ≠ some ⟨e, t⟩) {pid : Pid} {t : ℕ} (hb : Begun w.log pid ⟨e, t⟩) :
    Released w.log ⟨e, t⟩ := by
  by_contra hrel
  rcases S.inv.conserved.txnKept hb hrel (hbegun t) (by simp [hv]) with ⟨k, ht, howner⟩ | habandoned
  · exact S.inv.graph.noOwner he.at_ hlive ht howner
  · rcases S.inv.conserved.givenUp habandoned he.at_ he.env with h | h
    · simp [he.healthy] at h
    · exact h he.pid

theorem givenUpEnv (he : w.envs e = some h) (henv : h.env = some e) (hlive : h.liveTxns = []) :
    Sound may w₀ v (w.givenUpEnv e h) := by
  have I' := S.inv.unregisterEnv e
  have hopen : e ∉ w.openEnvs.filter (· ≠ e) := by simp
  have hbelow : ∀ a ∈ .env e :: h.roots, a.Below w.next := by
    intro a ha
    rcases List.mem_cons.mp ha with rfl | ha
    · exact S.inv.fresh.env he
    · obtain ⟨r, rfl⟩ := EnvHandle.mem_roots ha
      trivial
  refine ⟨⟨(I'.fresh.abandon hbelow).setEnv (h := h) he rfl, ?_, ?_,
    I'.conserved.giveUpEnv he henv rfl fun a => EnvHandle.mem_roots, S.inv.safe⟩, ?_⟩
  · refine Graph.detachEnv ?_ he hlive hopen rfl hlive
    exact { I'.graph with }
  · refine Traced.setEnv ?_ he (.inr rfl) rfl rfl
    exact { I'.traced with }
  · have hlater : Later may w₀ (w.setEnv e (some { h with env := none })) :=
      S.later.setEnv fun _ => ⟨h, he, rfl, fun _ => rfl, id, fun _ => rfl⟩
    exact { hlater.unlist (h := { h with env := none }) (by simp) rfl with }

theorem closedEnv (hv : v.poison = none) (he : OpenEnv w e h) (hlive : h.liveTxns = [])
    (hbegun : ∀ t, v.begun ≠ some ⟨e, t⟩) (lib : σ) (o : Outcome) :
    Sound may w₀ v (w.closedEnv e h lib o) := by
  have I' := S.inv.unregisterEnv e
  have hopen : e ∉ w.openEnvs.filter (· ≠ e) := by simp
  have hbelow : (NativeCall.envClose e).Below w.next :=
    S.below he.at_ (by simp [NativeCall.env?]) (by simp [NativeCall.txn?]) (by simp) (by simp)
  have hperm : Permitted w.log ⟨w.pid, .envClose e, o⟩ :=
    S.permitted he (by simp [hv]) (by simp [NativeCall.env?]) (by simp [NativeCall.txn?])
  have hclose : v.lossy = false → AlonePermitted w.log ⟨w.pid, .envClose e, o⟩ := by
    intro hlossy e' heq pid t hb
    cases heq
    exact S.released hlossy he hlive hbegun hb
  have hdone : Closed (⟨w.pid, .envClose e, o⟩ :: w.log) e ∨
      ClosePanicked (⟨w.pid, .envClose e, o⟩ :: w.log) e := by
    by_cases ho : o = .panicked
    · exact .inr ((closePanicked_cons _ _ _).mpr (.inl ⟨rfl, ho⟩))
    · exact .inl ((closed_cons _ _ _).mpr (.inl ⟨rfl, ho⟩))
  have hconserved : Conserved v ({ w with openEnvs := w.openEnvs.filter (· ≠ e) }.called
      (.envClose e) lib o) :=
    I'.conserved.called (by simp [Call.Creates]) (by simp [Call.Begins])
  have hcalled : Later may w₀ (w.called (.envClose e) lib o) :=
    S.later.called (by simp [NativeCall.reserved])
      (by simp [Call.Ends, Call.TearsDown, NativeCall.finishes])
  refine ⟨⟨(I'.fresh.called hbelow lib o).setEnv (h := h) he.at_ rfl, ?_,
    I'.traced.closeEnv rfl, hconserved.dropEnv hdone rfl, hperm, hclose, by simp [NumberUnused],
    S.inv.safe⟩, ?_⟩
  · refine Graph.detachEnv ?_ he.at_ hlive hopen rfl hlive
    exact { I'.graph with }
  · have hlater := hcalled.setEnv (e := e)
      (g := { h with env := none, poisoned := o = Outcome.panicked }) fun _ =>
        ⟨h, he.at_, rfl, fun _ => rfl, by simp [he.healthy], fun _ => rfl⟩
    exact { hlater.unlist (h := { h with env := none, poisoned := o = Outcome.panicked }) (by simp)
      rfl with }

/-- However an environment without live transactions is shut. -/
theorem shut {w' : World σ} (hv : v.poison = none) (he : w.envs e = some h)
    (henv : h.env = some e) (hlive : h.liveTxns = []) (hbegun : ∀ t, v.begun ≠ some ⟨e, t⟩)
    (hs : Shut e h w w') : Sound may w₀ v w' := by
  cases hs with
  | givenUp => exact S.givenUpEnv he henv hlive
  | closed lib o hhealthy hpid =>
    exact S.closedEnv hv ⟨he, henv, hhealthy, hpid⟩ hlive hbegun lib o

end Sound

theorem Shut.env {w' : World σ} (hs : Shut e h w w') : ∃ h', w'.envs e = some h' ∧
    h'.env = none ∧ h'.liveTxns = h.liveTxns := by
  cases hs with
  | givenUp => exact ⟨{ h with env := none }, by simp [World.givenUpEnv], rfl, rfl⟩
  | closed lib o =>
    exact ⟨{ h with env := none, poisoned := o = .panicked }, by simp [World.closedEnv], rfl, rfl⟩

end Shut

/-! ### Finalizers -/

/-- What the finalizers of `objects` leave alone. -/
structure Spared (objects : List Object) (w w' : World σ) : Prop where
  env : ∀ {e h}, w.envs e = some h → h.liveTxns = [] →
    .env e ∉ objects ∨ w.envSexps e = none → w'.envs e = some h
  envSexp : ∀ {x}, w.envSexps x = none → w'.envSexps x = none
  next : w'.next = w.next

theorem Spared.refl (objects : List Object) (w : World σ) : Spared objects w w :=
  ⟨fun he _ _ => he, id, rfl⟩

theorem Spared.trans {object : Object} {objects : List Object} {w₁ w₂ w₃ : World σ}
    (H : Spared [object] w₁ w₂) (H' : Spared objects w₂ w₃) :
    Spared (object :: objects) w₁ w₃ where
  env he hlive hnot := by
    refine H'.env (H.env he hlive ?_) hlive ?_
    · exact hnot.imp (fun h => by simp_all) id
    · exact hnot.imp (fun h => by simp_all) H.envSexp
  envSexp h := H'.envSexp (H.envSexp h)
  next := H'.next.trans H.next

theorem Sound.trans {v' : Waived} {w' : World σ} (S : Sound may w₀ v w)
    (S' : Sound may w v' w') : Sound may w₀ v' w' :=
  ⟨S'.inv, S.later.trans S'.later⟩

theorem Inv.sound (I : Inv v w) : Sound may w v w := ⟨I, Later.refl w⟩

/-- The world after `delete` of an environment handle. -/
def World.deletedEnv (w : World σ) (e : EnvRef) : World σ :=
  { w.setEnv e none with liveEnvHandles := w.liveEnvHandles - 1 }

/-- The world after `delete` of a transaction handle. -/
def World.deletedTxn (w : World σ) (t : TxnRef) : World σ :=
  { w.setTxn t none with liveTxnHandles := w.liveTxnHandles - 1 }

section Finalizers

variable (L : Platform σ)

theorem deleteEnv_run {e : EnvRef} {h : EnvHandle} (he : w.envs e = some h) :
    (deleteEnv e).run w = (.ok (), w.deletedEnv e) := by
  rw [deleteEnv, Prog.bind_ok (derefEnv_run he)]
  rfl

theorem deleteTxn_run {t : TxnRef} {k : TxnHandle} (ht : w.txns t = some k) :
    (deleteTxn t).run w = (.ok (), w.deletedTxn t) := by
  rw [deleteTxn, Prog.bind_ok (derefTxn_run ht)]
  rfl

/-- A finalizer finds nothing to do. -/
theorem finalizeTxn_idle {x : ℕ} (hx : ∀ s, w.txnSexps x = some s → s.addr = none) :
    (finalizeTxn L x).run w = (.ok (), w) := by
  rw [finalizeTxn, Prog.run_get_bind]
  cases hs : w.txnSexps x with
  | none => rfl
  | some s => rw [ifSome_some, hx s hs]; rfl

theorem finalizeEnv_idle {x : ℕ} (hx : ∀ s, w.envSexps x = some s → s.addr = none) :
    (finalizeEnv L x).run w = (.ok (), w) := by
  rw [finalizeEnv, Prog.run_get_bind]
  cases hs : w.envSexps x with
  | none => rfl
  | some s => rw [ifSome_some, hx s hs]; rfl

/-- The finalizer of a transaction that has ended. -/
theorem finalizeTxn_ended {x : ℕ} {s : TxnSexp} {k : TxnHandle} (hx : w.txnSexps x = some s)
    (haddr : s.addr = some x) (ht : w.txns x = some k) (howner : k.owner = none)
    (htxn : k.txn = none) :
    (finalizeTxn L x).run w
      = (.ok (), (w.setTxnSexp x { s with addr := none }).deletedTxn x) := by
  have ht₁ : (w.setTxnSexp x { s with addr := none }).txns x = some k := ht
  rw [finalizeTxn, Prog.run_get_bind, hx, ifSome_some, haddr, ifSome_some, Prog.run_modify_bind,
    Prog.bind_ok (derefTxn_run ht₁), finalizeHandle, htxn]
  simp only
  rw [Prog.bind_ok (unregisterTxn_run ht₁ howner), deleteTxn_run ht₁]

/-- The finalizer of a live transaction. -/
theorem finalizeTxn_live (G : Graph w) {x : ℕ} {s : TxnSexp} {k : TxnHandle} {e : EnvRef}
    {h : EnvHandle} (hx : w.txnSexps x = some s) (haddr : s.addr = some x)
    (ht : LiveTxn w e x k) (he : w.envs e = some h) :
    ∃ w₁ h₁ k₁ w₂ h₂, Parted L e h x k (w.setTxnSexp x { s with addr := none }) w₁ h₁ k₁ ∧
      Refreshed e h₁ w₁ w₂ ∧ w₂.envs e = some h₂ ∧
      (finalizeTxn L x).run w = (.ok (), (w₂.detached x k₁ e h₂ .aborted).deletedTxn x) := by
  have G₁ : Graph (w.setTxnSexp x { s with addr := none }) := G.setTxnSexp (by simp)
  have ht₁ : LiveTxn (w.setTxnSexp x { s with addr := none }) e x k := ⟨ht.at_, ht.owner⟩
  obtain ⟨w₁, h₁, k₁, w₂, h₂, P, R, he₂, hrun⟩ := finalizeHandle_run L G₁ he ht₁
  refine ⟨w₁, h₁, k₁, w₂, h₂, P, R, he₂, ?_⟩
  rw [finalizeTxn, Prog.run_get_bind, hx, ifSome_some, haddr, ifSome_some, Prog.run_modify_bind,
    Prog.bind_ok (derefTxn_run ht₁.at_), Prog.bind_ok hrun, deleteTxn_run]
  · simp [World.detached]
    rfl

/-- The finalizer of an environment object, from the detachment of its transactions on. -/
theorem finalizeEnv_run {x : ℕ} {s : EnvSexp} {h₂ : EnvHandle} {w₁ w₂ : World σ}
    (hx : w.envSexps x = some s) (haddr : s.addr = some x)
    (hdetach : (detachTxns L x).run (w.setEnvSexp x { s with addr := none }) = (.ok (), w₁))
    (hclose : (closeHandle L x false).run w₁ = (.ok (), w₂))
    (he₂ : w₂.envs x = some h₂) :
    (finalizeEnv L x).run w = (.ok (), w₂.deletedEnv x) := by
  rw [finalizeEnv, Prog.run_get_bind, hx, ifSome_some, haddr, ifSome_some, Prog.run_modify_bind,
    Prog.bind_ok hdetach, Prog.bind_ok hclose, deleteEnv_run he₂]

/-! ### The invariant across finalizers -/

namespace Sound

variable (S : Sound may w₀ v w)
include S

theorem waiveReclaimed (hv : v.reclaimed = none) (t : TxnRef) :
    Sound may w₀ { v with reclaimed := some t } w where
  inv :=
    { fresh := S.inv.fresh
      graph := S.inv.graph
      traced := { S.inv.traced with }
      conserved := S.inv.conserved.waiveReclaimed hv _
      safe := S.inv.safe }
  later := S.later

/-- The finalizer of an object takes the handle from it. -/
theorem reclaimTxn (hv : v.reclaimed = none) {x : ℕ} {s : TxnSexp} (hx : w.txnSexps x = some s) :
    Sound may w₀ { v with reclaimed := some x } (w.setTxnSexp x { s with addr := none }) where
  inv :=
    { fresh := S.inv.fresh.setTxnSexp (S.inv.fresh.txnSexp hx) _
      graph := S.inv.graph.setTxnSexp (by simp)
      traced := { S.inv.traced with }
      conserved := S.inv.conserved.reclaimTxn hv hx
      safe := S.inv.safe }
  later := S.later.setTxnSexp (.inl ⟨s, hx, rfl⟩)

omit S in
theorem unwaiveReclaimed {t : TxnRef} (S : Sound may w₀ { v with reclaimed := some t } w)
    (hgone : w.txns t = none) : Sound may w₀ v w where
  inv :=
    { fresh := S.inv.fresh
      graph := S.inv.graph
      traced := { S.inv.traced with }
      conserved := Conserved.unwaiveReclaimed S.inv.conserved hgone
      safe := S.inv.safe }
  later := S.later

omit S in
/-- Give a live transaction its object, or assign to an object. -/
theorem setTxnSexp {x : ℕ} {s : TxnSexp} (S : Sound may w₀ { v with reclaimed := some x } w)
    (hlt : x < w.next) (haddr : s.addr = some x) (hsome : (w.txns x).isSome)
    (hknown : (∃ s₁, w.txnSexps x = some s₁ ∧ s.path = s₁.path) ∨
      w₀.next ≤ x ∧ ∃ k e, LiveTxn w e x k) :
    Sound may w₀ v (w.setTxnSexp x s) where
  inv :=
    { fresh := S.inv.fresh.setTxnSexp hlt s
      graph := S.inv.graph.setTxnSexp fun t ht => ⟨Option.some.inj (ht.symm.trans haddr), hsome⟩
      traced := { S.inv.traced with }
      conserved := by
        refine Conserved.setTxnSexp S.inv.conserved (fun hnone pid e hb => ?_) fun _ _ _ _ => haddr
        have hno : ¬ ∃ s₁, w.txnSexps x = some s₁ ∧ s.path = s₁.path := by simp [hnone]
        obtain ⟨-, k, e', hk⟩ := hknown.resolve_left hno
        have heq := (S.inv.safe.begun_unique (S.inv.traced.begun hk.at_ hk.owner) hb rfl).2
        exact ⟨k, hk.at_, hk.owner.trans (congrArg (some ∘ TxnPtr.env) heq)⟩
      safe := S.inv.safe }
  later := S.later.setTxnSexp (hknown.imp id And.left)

theorem setEnvSexp {x : ℕ} {s : EnvSexp} (hlt : x < w.next)
    (hs : ∀ e, s.addr = some e → e = x ∧ (w.envs x).isSome)
    (hknown : (∃ s₁, w.envSexps x = some s₁ ∧ s.path = s₁.path) ∨ w₀.next ≤ x) :
    Sound may w₀ v (w.setEnvSexp x s) where
  inv :=
    { fresh := S.inv.fresh.setEnvSexp hlt s
      graph := S.inv.graph.setEnvSexp hs
      traced := { S.inv.traced with }
      conserved := { S.inv.conserved with }
      safe := S.inv.safe }
  later := S.later.setEnvSexp hknown

/-- The counters are in no invariant. -/
theorem counters (m n : ℤ) :
    Sound may w₀ v { w with liveEnvHandles := m, liveTxnHandles := n } where
  inv :=
    { fresh := { S.inv.fresh with }
      graph := { S.inv.graph with }
      traced := { S.inv.traced with }
      conserved := { S.inv.conserved with }
      safe := S.inv.safe }
  later := { S.later with }

theorem dropTxn {t : TxnRef} {k : TxnHandle} (ht : w.txns t = some k) (howner : k.owner = none)
    (hsexp : ∀ x s, w.txnSexps x = some s → s.addr ≠ some t) :
    Sound may w₀ v (w.setTxn t none) where
  inv :=
    { fresh := S.inv.fresh.deleteTxn t
      graph := S.inv.graph.deleteTxn ht howner hsexp
      traced := S.inv.traced.deleteTxn t
      conserved := S.inv.conserved.deleteTxn ht howner
      safe := S.inv.safe }
  later := S.later.deleteTxn t

theorem deletedTxn {t : TxnRef} {k : TxnHandle} (ht : w.txns t = some k) (howner : k.owner = none)
    (hsexp : ∀ x s, w.txnSexps x = some s → s.addr ≠ some t) :
    Sound may w₀ v (w.deletedTxn t) :=
  (S.dropTxn ht howner hsexp).counters _ _

theorem dropEnv {e : EnvRef} {h : EnvHandle} (he : w.envs e = some h) (henv : h.env = none)
    (hsexp : ∀ x s, w.envSexps x = some s → s.addr ≠ some e) :
    Sound may w₀ v (w.setEnv e none) where
  inv :=
    { fresh := S.inv.fresh.deleteEnv e
      graph := S.inv.graph.deleteEnv he henv hsexp
      traced := S.inv.traced.deleteEnv e
      conserved := S.inv.conserved.deleteEnv he henv
      safe := S.inv.safe }
  later := S.later.deleteEnv e

theorem deletedEnv {e : EnvRef} {h : EnvHandle} (he : w.envs e = some h) (henv : h.env = none)
    (hsexp : ∀ x s, w.envSexps x = some s → s.addr ≠ some e) :
    Sound may w₀ v (w.deletedEnv e) :=
  (S.dropEnv he henv hsexp).counters _ _

end Sound

theorem Parted.envs_ne {L : Platform σ} {e e' : EnvRef} {h h' : EnvHandle} {t : TxnRef}
    {k k' : TxnHandle}
    {w' : World σ} (P : Parted L e h t k w w' h' k') (hne : e' ≠ e) : w'.envs e' = w.envs e' := by
  cases P with
  | aborted | givenUp => rfl
  | panicked lib hhealthy hk hpid w'' hw => simp [hw, hne]

theorem Parted.envSexps {L : Platform σ} {e : EnvRef} {h h' : EnvHandle} {t : TxnRef}
    {k k' : TxnHandle}
    {w' : World σ} (P : Parted L e h t k w w' h' k') : w'.envSexps = w.envSexps := by
  cases P with
  | aborted | givenUp => rfl
  | panicked lib hhealthy hk hpid w'' hw => subst hw; rfl

theorem Parted.txnSexps {L : Platform σ} {e : EnvRef} {h h' : EnvHandle} {t : TxnRef}
    {k k' : TxnHandle}
    {w' : World σ} (P : Parted L e h t k w w' h' k') : w'.txnSexps = w.txnSexps := by
  cases P with
  | aborted | givenUp => rfl
  | panicked lib hhealthy hk hpid w'' hw => subst hw; rfl

theorem Parted.next {L : Platform σ} {e : EnvRef} {h h' : EnvHandle} {t : TxnRef} {k k' : TxnHandle}
    {w' : World σ} (P : Parted L e h t k w w' h' k') : w'.next = w.next := by
  cases P with
  | aborted | givenUp => rfl
  | panicked lib hhealthy hk hpid w'' hw => subst hw; rfl

theorem Refreshed.openEnvs {e : EnvRef} {h : EnvHandle} {w' : World σ} (R : Refreshed e h w w') :
    w'.openEnvs = w.openEnvs := by
  cases R <;> rfl

theorem Refreshed.pid {e : EnvRef} {h : EnvHandle} {w' : World σ} (R : Refreshed e h w w') :
    w'.pid = w.pid := by
  cases R <;> rfl

theorem Refreshed.next {e : EnvRef} {h : EnvHandle} {w' : World σ} (R : Refreshed e h w w') :
    w'.next = w.next := by
  cases R <;> rfl

theorem Refreshed.envs_ne {e e' : EnvRef} {h : EnvHandle} {w' : World σ}
    (R : Refreshed e h w w') (hne : e' ≠ e) : w'.envs e' = w.envs e' := by
  cases R <;> simp [hne]

theorem Refreshed.sexps {e : EnvRef} {h : EnvHandle} {w' : World σ} (R : Refreshed e h w w') :
    w'.envSexps = w.envSexps ∧ w'.txnSexps = w.txnSexps := by
  cases R <;> exact ⟨rfl, rfl⟩

theorem Refreshed.released {e : EnvRef} {h : EnvHandle} {w' : World σ} (R : Refreshed e h w w')
    {p : TxnPtr} (hp : Released w.log p) : Released w'.log p := by
  cases R with
  | same => exact hp
  | asked =>
    rw [Released, World.setEnv_log, World.called_log, ended_cons, tornDown_cons]
    exact hp.imp .inr .inr

theorem Refreshed.committed {e : EnvRef} {h : EnvHandle} {w' : World σ} (R : Refreshed e h w w')
    (p : TxnPtr) : Committed w'.log p ↔ Committed w.log p := by
  cases R <;> simp [Call.Commits]

theorem Refreshed.abandoned {e : EnvRef} {h : EnvHandle} {w' : World σ}
    (R : Refreshed e h w w') : w'.abandoned = w.abandoned := by
  cases R <;> rfl

theorem finalizeTxn_spec (I : Inv v w) (hvp : v.poison = none) (hve : v.ending = none)
    (hvr : v.reclaimed = none) (x : ℕ) :
    ∃ w', (finalizeTxn L x).run w = (.ok (), w') ∧ Sound may w v w' ∧ Spared [.txn x] w w' := by
  by_cases hidle : ∀ s, w.txnSexps x = some s → s.addr = none
  · exact ⟨w, finalizeTxn_idle L hidle, I.sound, .refl _ w⟩
  simp only [not_forall] at hidle
  obtain ⟨s, hx, haddr⟩ := hidle
  obtain ⟨t, haddr⟩ := Option.ne_none_iff_exists'.mp haddr
  obtain ⟨rfl, hsome⟩ := I.graph.txnSexp hx haddr
  obtain ⟨k, ht⟩ := Option.isSome_iff_exists.mp hsome
  have S₁ : Sound may w { v with reclaimed := some t } (w.setTxnSexp t { s with addr := none }) :=
    I.sound.reclaimTxn hvr hx
  have hsexp : ∀ w' : World σ, w'.txnSexps = (w.setTxnSexp t { s with addr := none }).txnSexps →
      ∀ x s, w'.txnSexps x = some s → s.addr ≠ some t := by
    intro w' heq x s' hx' haddr'
    rw [heq, World.setTxnSexp_txnSexps, Function.update_apply] at hx'
    split at hx'
    · cases hx'
      simp at haddr'
    · exact ‹¬ x = t› (I.graph.txnSexp hx' haddr').1.symm
  cases howner : k.owner with
  | none =>
    have htxn : k.txn = none := by rw [I.graph.txn ht, howner]; rfl
    exact ⟨_, finalizeTxn_ended L hx haddr ht howner htxn,
      (S₁.deletedTxn (k := k) ht howner (hsexp _ rfl)).unwaiveReclaimed
        (by simp [World.deletedTxn]), ⟨fun he _ _ => he, id, rfl⟩⟩
  | some e =>
    obtain ⟨h, he, -⟩ := I.graph.owner ht howner
    have hlive : LiveTxn w e t k := ⟨ht, howner⟩
    obtain ⟨w₁, h₁, k₁, w₂, h₂, P, R, he₂, hrun⟩ := finalizeTxn_live L I.graph hx haddr hlive he
    have hlive₁ := P.liveTxn ⟨ht, howner⟩
    obtain ⟨S₂, hgone, hcommitted⟩ := S₁.parted hvp hve he ⟨ht, howner⟩ P
    have S₃ := S₂.refreshed R (P.env he) (by simp [hvp])
    have hlive₂ : LiveTxn w₂ e t k₁ := ⟨by rw [R.txns]; exact hlive₁.at_, hlive₁.owner⟩
    have S₄ := S₃.detached he₂ hlive₂ (by simp : TxnState.aborted ≠ .active)
      (by simp [R.committed, hcommitted]) (R.abandoned ▸ hgone.imp R.released id)
    have S₅ := S₄.deletedTxn (t := t) (k := k₁.finished .aborted) (by simp [World.detached]) rfl
      (hsexp _ (R.sexps.2.trans P.txnSexps))
    refine ⟨_, hrun, S₅.unwaiveReclaimed (by simp [World.deletedTxn]),
      ⟨?_, ?_, R.next.trans P.next⟩⟩
    · intro e' h' he' hlive' _
      have hne : e' ≠ e := by
        rintro rfl
        exact I.graph.noOwner he' hlive' ht howner
      simp [World.deletedTxn, World.detached, hne, R.envs_ne hne, P.envs_ne hne, he']
    · intro x hx
      simp [World.deletedTxn, World.detached, R.sexps.1, P.envSexps, hx]

/-- What `detach_txns` leaves: nothing registered, and other environments as they were. -/
theorem detachTxns_spec (S : Sound may w₀ v w) (hvp : v.poison = none) (hve : v.ending = none)
    {e : EnvRef} {h : EnvHandle} (he : w.envs e = some h) :
    ∃ w' h', (detachTxns L e).run w = (.ok (), w') ∧ Sound may w₀ v w' ∧ w'.envs e = some h' ∧
      h'.liveTxns = [] ∧ w'.envSexps = w.envSexps ∧ w'.next = w.next ∧
      ∀ e' ≠ e, w'.envs e' = w.envs e' := by
  cases hl : h.liveTxns with
  | nil => exact ⟨w, h, detachTxns_none L he hl, S, he, hl, rfl, rfl, fun _ _ => rfl⟩
  | cons t rest =>
    obtain ⟨k, ht, howner⟩ := (S.inv.graph.live he t).mp (by simp [hl])
    have hlive : LiveTxn w e t k := ⟨ht, howner⟩
    obtain ⟨w₁, h₁, k₁, P, hrun⟩ := detachTxns_live L S.inv.graph he hlive
    obtain ⟨S₁, hgone, hcommitted⟩ := S.parted hvp hve he hlive P
    have S₂ := S₁.detached (P.env he) (P.liveTxn hlive) (by simp : TxnState.aborted ≠ .active)
      (by simp [hcommitted]) hgone
    refine ⟨_, { h₁ with liveTxns := [] }, hrun, S₂, by simp [World.detached], rfl,
      P.envSexps, P.next, fun e' hne => ?_⟩
    simp [World.detached, hne, P.envs_ne hne]

/-- What `close_handle` leaves of an environment without transactions. -/
theorem closeHandle_spec (S : Sound may w₀ v w) (hvp : v.poison = none) {e : EnvRef}
    {h : EnvHandle} (he : w.envs e = some h) (hlive : h.liveTxns = [])
    (hbegun : ∀ t, v.begun ≠ some ⟨e, t⟩) (propagate : Bool) :
    ∃ r w' h', (closeHandle L e propagate).run w = (r, w') ∧ Sound may w₀ v w' ∧
      w'.envs e = some h' ∧ h'.env = none ∧ w'.envSexps = w.envSexps ∧ w'.next = w.next ∧
      (∀ e' ≠ e, w'.envs e' = w.envs e') ∧
      (r = .ok () ∨ propagate = true ∧ ∃ c, r = .error (.stop c)) := by
  cases henv : h.env with
  | none => exact ⟨_, w, h, closeHandle_detached L he henv propagate, S, he, henv, rfl, rfl,
      fun _ _ => rfl, .inl rfl⟩
  | some p =>
    obtain rfl := S.inv.graph.env he henv
    obtain ⟨r, w', hrun, hshut, hr⟩ := closeHandle_run L he henv propagate
    obtain ⟨h', he', henv', -⟩ := hshut.env
    refine ⟨r, w', h', hrun, S.shut hvp he henv hlive hbegun hshut, he', henv', ?_, ?_, ?_, hr⟩
    · cases hshut <;> rfl
    · cases hshut <;> rfl
    · intro e' hne
      cases hshut <;> simp [World.givenUpEnv, World.closedEnv, hne]

theorem finalizeEnv_spec (I : Inv v w) (hvp : v.poison = none) (hve : v.ending = none) (x : ℕ)
    (hbegun : ∀ t, v.begun ≠ some ⟨x, t⟩) :
    ∃ w', (finalizeEnv L x).run w = (.ok (), w') ∧ Sound may w v w' ∧ Spared [.env x] w w' := by
  by_cases hidle : ∀ s, w.envSexps x = some s → s.addr = none
  · exact ⟨w, finalizeEnv_idle L hidle, I.sound, .refl _ w⟩
  simp only [not_forall] at hidle
  obtain ⟨s, hx, haddr⟩ := hidle
  obtain ⟨e, haddr⟩ := Option.ne_none_iff_exists'.mp haddr
  obtain ⟨rfl, hsome⟩ := I.graph.envSexp hx haddr
  obtain ⟨h, he⟩ := Option.isSome_iff_exists.mp hsome
  have S₁ : Sound may w v (w.setEnvSexp e { s with addr := none }) :=
    I.sound.setEnvSexp (I.fresh.env he) (by simp) (.inl ⟨s, hx, rfl⟩)
  obtain ⟨w₁, h₁, hdetach, S₂, he₁, hlive, hsexps, hnext, hothers⟩ :=
    detachTxns_spec L S₁ hvp hve (h := h) he
  obtain ⟨r, w₂, h₂, hclose, S₃, he₂, henv₂, hsexps₂, hnext₂, hothers₂, hr⟩ :=
    closeHandle_spec L S₂ hvp he₁ hlive hbegun false
  obtain rfl : r = .ok () := by simpa using hr
  refine ⟨_, finalizeEnv_run L hx haddr hdetach hclose he₂, S₃.deletedEnv he₂ henv₂ ?_, ?_, ?_,
    hnext₂.trans hnext⟩
  · intro x s' hx' haddr'
    rw [hsexps₂, hsexps, World.setEnvSexp_envSexps, Function.update_apply] at hx'
    split at hx'
    · cases hx'
      simp at haddr'
    · exact ‹¬ x = e› (I.graph.envSexp hx' haddr').1.symm
  · intro e' h' he' _ hnot
    have hne : e' ≠ e := by
      rintro rfl
      simp [hx] at hnot
    simp [World.deletedEnv, hne, hothers₂ _ hne, hothers _ hne, he']
  · intro x hx'
    have hne : x ≠ e := by
      rintro rfl
      simp [hx] at hx'
    have : w₂.envSexps x = none := by
      rw [hsexps₂, hsexps, World.setEnvSexp_envSexps, Function.update_of_ne hne, hx']
    exact this

/-- The finalizer of an object other than the environment of a begun transaction. -/
theorem finalize_spec (I : Inv v w) (hvp : v.poison = none) (hve : v.ending = none)
    (hvr : v.reclaimed = none) (object : Object)
    (hbegun : ∀ e t, object = .env e → v.begun ≠ some ⟨e, t⟩) :
    ∃ w', (finalize L object).run w = (.ok (), w') ∧ Sound may w v w' ∧ Spared [object] w w' := by
  cases object with
  | env x => exact finalizeEnv_spec L I hvp hve x fun t => hbegun x t rfl
  | txn x => exact finalizeTxn_spec L I hvp hve hvr x

theorem finalizeAll_spec (hvp : v.poison = none) (hve : v.ending = none)
    (hvr : v.reclaimed = none) (objects : List Object)
    (hbegun : ∀ e t, .env e ∈ objects → v.begun ≠ some ⟨e, t⟩) {w : World σ} (I : Inv v w) :
    ∃ w', (finalizeAll L objects).run w = (.ok (), w') ∧ Sound may w v w' ∧
      Spared objects w w' := by
  induction objects generalizing w with
  | nil => exact ⟨w, rfl, I.sound, .refl _ w⟩
  | cons object rest ih =>
    obtain ⟨w₁, hrun, S₁, H₁⟩ : ∃ w', _ ∧ Sound may w v w' ∧ _ :=
      finalize_spec L I hvp hve hvr object fun e t h => hbegun e t (by simp [h])
    obtain ⟨w₂, hrun₂, S₂, H₂⟩ := ih (fun e t h => hbegun e t (by simp [h])) S₁.inv
    exact ⟨w₂, by rw [finalizeAll, Prog.bind_ok hrun, hrun₂], S₁.trans S₂, H₁.trans H₂⟩

/-- An allocation keeps the invariant, and what its collection must not touch. -/
theorem allocate_spec (hL : v.lossy = false → L.Allocates) (I : Inv v w) (hvp : v.poison = none)
    (hve : v.ending = none) (hvr : v.reclaimed = none) (keep : List Object)
    (hbegun : ∀ e t, v.begun = some ⟨e, t⟩ → .env e ∈ keep) :
    ∃ r w', (allocate L keep).run w = (r, w') ∧
      (r = .ok () ∨ v.lossy = true ∧ r = .error .longjmp) ∧ Sound may w v w' ∧
      (∀ e h, w.envs e = some h → h.liveTxns = [] → .env e ∈ keep ∨ w.envSexps e = none →
        w'.envs e = some h) ∧ (∀ x, w.envSexps x = none → w'.envSexps x = none) ∧
      w'.next = w.next := by
  have S : Sound may w v { w with lib := (L.allocate w.lib).2 } := I.sound.setLib _
  obtain ⟨w', hrun, S', H⟩ : ∃ w', _ ∧ Sound may _ v w' ∧ _ :=
    finalizeAll_spec L hvp hve hvr ((L.allocate w.lib).1.finalized.filter (· ∉ keep))
      (fun e t hmem h => by simp_all) S.inv
  have hrun₁ : (allocate L keep).run w = (whenever ((L.allocate w.lib).1.fails = true)
      (Prog.exit .longjmp)).run w' := by
    rw [allocate, Prog.run_get_bind]
    simp only
    rw [Prog.run_modify_bind, Prog.bind_ok hrun]
  refine ⟨_, w', hrun₁.trans (Prod.ext rfl ?_), ?_, S.trans S', fun e h he hlive hor =>
    H.env he hlive ?_, fun x hx => H.envSexp hx, H.next⟩
  · cases hfails : (L.allocate w.lib).1.fails <;> rfl
  · cases hfails : (L.allocate w.lib).1.fails with
    | false => exact .inl rfl
    | true =>
      refine .inr ⟨?_, rfl⟩
      by_contra hv
      simp [hL (by simpa using hv) _] at hfails
  · exact hor.imp (fun h => by simp [h]) id

end Finalizers

end Mdbx
