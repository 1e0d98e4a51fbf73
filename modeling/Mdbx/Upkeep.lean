import Mdbx.Cache
import Mdbx.Custody
import Mdbx.Recovery

/-! Every finalizer and every entry point but `mdbx_env_close_` makes a sequence of the moves of
`Mdbx.Custody`, and what a close can change. -/

namespace Mdbx

open ProofKit

variable {σ α β : Type} {L : Platform σ} {v : Waived} {w w' : World σ}

/-! ### What finalizers do -/

/-- From a world with `S`, a run of assignments of the first kind. -/
def Upon (S : World σ → Prop) (w w' : World σ) : Prop := S w → Tends w w'

theorem Stable.upon {S : World σ → Prop} (hS : Stable S) : IsPreorder (World σ) (Upon S) where
  refl w _ := .refl
  trans w w₁ w₂ h h' hs := by
    have htends : Tends w w₁ := h hs
    exact htends.trans (h' (hS.tends htends hs))

section Finalizers

variable {S : World σ → Prop} {m : Pkg σ α} (hS : Stable S)

theorem upon_modify {f : World σ → World σ} (h : ∀ w, S w → Tend w (f w)) :
    Within (Upon S) (Prog.modify f : Pkg σ Unit) := fun w hs => .single (h w hs)

theorem upon_aside {f : World σ → World σ} (hpid : ∀ w, (f w).pid = w.pid)
    (hnext : ∀ w, w.next ≤ (f w).next) (henvs : ∀ w, (f w).envs = w.envs)
    (htxns : ∀ w, (f w).txns = w.txns) (henvSexps : ∀ w, (f w).envSexps = w.envSexps)
    (htxnSexps : ∀ w, (f w).txnSexps = w.txnSexps) (hlog : ∀ w, (f w).log = w.log) :
    Within (Upon S) (Prog.modify f : Pkg σ Unit) := by
  refine upon_modify fun w _ => ?_
  exact .aside (hpid w) (hnext w) (henvs w) (htxns w) (henvSexps w) (htxnSexps w) (.same (hlog w))

theorem upon_native (c : NativeCall) : Within (Upon S) (native L c) := by
  intro w _
  rw [native_final]
  exact .single (.aside rfl le_rfl rfl rfl rfl rfl (.call rfl rfl))

theorem upon_grow : Within (Upon S) (grow L) := fun _ _ =>
  .single (.aside rfl le_rfl rfl rfl rfl rfl (.same rfl))

theorem upon_updateEnv [IsPreorder (World σ) (Upon S)] (e : EnvRef) {f : EnvHandle → EnvHandle}
    (hf : ∀ w h, S w → w.envs e = some h → (f h).pid = h.pid ∧
      ((f h).env = h.env ∨ w.Loose e) ∧ (f h).liveTxns ⊆ h.liveTxns) :
    Within (Upon S) (updateEnv e f : Pkg σ Unit) := by
  refine Within.updateEnv e fun w h he hs => ?_
  obtain ⟨hpid, henv, hlive⟩ := hf w h hs he
  exact .single (.env he hpid henv hlive)

theorem upon_updateTxn [IsPreorder (World σ) (Upon S)] (t : TxnRef) {f : TxnHandle → TxnHandle}
    (hf : ∀ w k, S w → w.txns t = some k → (f k).pid = k.pid ∧ ((f k).owner = k.owner ∨
      (f k).owner = none ∧ (w.TxnGone t ∨ ∃ e, k.owner = some e ∧ w.EnvGone e))) :
    Within (Upon S) (updateTxn t f : Pkg σ Unit) := by
  refine Within.updateTxn t fun w k ht hs => ?_
  obtain ⟨hpid, howner⟩ := hf w k hs ht
  exact .single (.txn ht hpid howner)

theorem upon_poisonEnv [IsPreorder (World σ) (Upon S)] (e : EnvRef) :
    Within (Upon S) (poisonEnv e : Pkg σ Unit) :=
  upon_updateEnv e fun _ _ _ _ => ⟨rfl, .inl rfl, List.Subset.refl _⟩

theorem upon_unregisterEnv (e : EnvRef) : Within (Upon S) (unregisterEnv e : Pkg σ Unit) :=
  upon_aside (fun _ => rfl) (fun _ => le_rfl) (fun _ => rfl) (fun _ => rfl) (fun _ => rfl)
    (fun _ => rfl) fun _ => rfl

include hS

theorem upon_poisonTxn (t : TxnRef) : Within (Upon S) (poisonTxn t : Pkg σ Unit) := by
  have := hS.upon
  refine Within.bind (upon_updateTxn t fun _ _ _ _ => ⟨rfl, .inl rfl⟩) fun _ => ?_
  exact (Within.derefTxn t).bind fun k => .ifSome _ fun e => upon_poisonEnv e

theorem upon_abandon (pointer : Option Abandoned) :
    Within (Upon S) (abandon pointer : Pkg σ Unit) := by
  have := hS.upon
  exact upon_aside (fun _ => rfl) (fun _ => le_rfl) (fun _ => rfl) (fun _ => rfl) (fun _ => rfl)
    (fun _ => rfl) fun _ => rfl

theorem upon_abandonEnv (e : EnvRef) : Within (Upon S) (abandonEnv e : Pkg σ Unit) := by
  have := hS.upon
  exact (Within.derefEnv e).bind fun h => (upon_abandon hS _).bind fun _ =>
    (upon_abandon hS _).bind fun _ => upon_abandon hS _

theorem upon_recordHeapRoots (e : EnvRef) : Within (Upon S) (recordHeapRoots L e) := by
  have := hS.upon
  refine (Within.derefEnv e).bind fun h => Within.currentPid.bind fun pid => ?_
  refine .ifSome _ fun env => .whenever ((upon_native _).bind fun roots => ?_)
  exact upon_updateEnv e fun _ _ _ _ => ⟨rfl, .inl rfl, List.Subset.refl _⟩

theorem upon_unregisterTxn (t : TxnRef) : Within (Upon S) (unregisterTxn t : Pkg σ Unit) := by
  have := hS.upon
  refine (Within.derefTxn t).bind fun k => .ifSome _ fun e => ?_
  exact upon_updateEnv e fun _ _ _ _ => ⟨rfl, .inl rfl, List.filter_subset_self _⟩

theorem upon_markFinished (t : TxnRef) (hgone : ∀ {w}, S w → w.TxnGone t) (state : TxnState) :
    Within (Upon S) (markFinished L t state) := by
  have := hS.upon
  refine (Within.derefTxn t).bind fun k => ?_
  refine (Within.ifSome _ fun e => .whenever (upon_recordHeapRoots hS e)).bind fun _ => ?_
  refine Within.bind (upon_updateTxn t fun _ _ _ _ => ⟨rfl, .inl rfl⟩) fun _ => ?_
  refine (upon_unregisterTxn hS t).bind fun _ => ?_
  exact upon_updateTxn t fun _ _ hs _ => ⟨rfl, .inr ⟨rfl, .inl (hgone hs)⟩⟩

theorem upon_closeHandle (e : EnvRef) (hloose : ∀ {w}, S w → w.Loose e) (propagate : Bool) :
    Within (Upon S) (closeHandle L e propagate) := by
  have := hS.upon
  have hclose : Within (Upon S) (updateEnv e fun h => { h with env := none } : Pkg σ Unit) :=
    upon_updateEnv e fun _ _ hs _ => ⟨rfl, .inr (hloose hs), List.Subset.refl _⟩
  refine (Within.derefEnv e).bind fun h => .ifSome _ fun env => ?_
  refine (upon_unregisterEnv e).bind fun _ => Within.currentPid.bind fun pid => ?_
  refine .ite ?_ (.ite ?_ ?_)
  · exact (upon_abandonEnv hS e).bind fun _ => hclose.bind fun _ => .refuse _ _
  · exact (upon_abandonEnv hS e).bind fun _ => hclose
  · refine (Within.runGuarded (upon_native _) (upon_poisonEnv e)).bind fun result => ?_
    refine hclose.bind fun _ => .whenever ?_
    split
    · exact .check _
    · exact .stop _

theorem upon_tearDown (t : TxnRef) (txn : TxnPtr) : Within (Upon S) (tearDown L t txn) := by
  have := hS.upon
  refine (Within.runGuarded (upon_native _) (upon_poisonTxn hS t)).bind fun r => ?_
  split
  · exact .pure _
  · exact .pure _

theorem upon_detachEach (e : EnvRef) (usable : Bool) (entries : List TxnRef)
    (hgone : ∀ {w}, S w → w.EnvGone e) (hbelong : ∀ {w}, S w → w.Belong e entries) :
    Within (Upon S) (detachEach L usable entries) := by
  have := hS.upon
  induction entries with
  | nil => exact .pure _
  | cons t rest ih =>
    have habort : ∀ k, Within (Upon S) (detachAbort L usable t k) := by
      intro k
      rw [detachAbort]
      split
      · exact .ite (upon_tearDown hS _ _) (.pure _)
      · exact .pure _
    refine (Within.derefTxn t).bind fun k => (habort k).bind fun ended => ?_
    refine Within.bind (.whenever (upon_abandon hS _)) fun _ => ?_
    refine Within.bind (upon_updateTxn t fun w k hs ht => ⟨rfl, ?_⟩) fun _ => ?_
    · rcases hbelong hs t (by simp) k ht with howner | howner
      · exact .inr ⟨rfl, .inr ⟨e, howner, hgone hs⟩⟩
      · exact .inl howner.symm
    · exact ih fun hs t ht => hbelong hs t (by simp [ht])

theorem upon_detachTxns (e : EnvRef) (hgone : ∀ {w}, S w → w.EnvGone e)
    (hnumbered : ∀ {w}, S w → Numbered w) : Within (Upon S) (detachTxns L e) := by
  intro w hs
  cases he : w.envs e with
  | none =>
    have hrun : (detachTxns L e).run w = (.error (.undefined .danglingPointer), w) := by
      rw [detachTxns, derefEnv, Prog.bind_error]
      simp [he]
    rw [hrun]
  | some h =>
    have hT := hS.and (stable_belong e h.liveTxns)
    have := hT.upon
    rw [detachTxns, Prog.bind_ok (derefEnv_run he), Prog.bind_ok currentPid_run]
    refine Within.bind (R := Upon fun w => S w ∧ w.Belong e h.liveTxns)
      (upon_detachEach hT e _ _ (fun hs => hgone hs.1) fun hs => hs.2) (fun _ => ?_) w
      ⟨hs, (hnumbered hs).live he⟩
    exact upon_updateEnv e fun _ _ _ _ => ⟨rfl, .inl rfl, List.nil_subset _⟩

theorem upon_deleteEnv (e : EnvRef) (hloose : ∀ {w}, S w → w.Loose e) :
    Within (Upon S) (deleteEnv e : Pkg σ Unit) := by
  have := hS.upon
  refine (Within.derefEnv e).bind fun _ => .modify fun w hs => ?_
  exact .head (.dropEnv (hloose hs)) (.single (.aside rfl le_rfl rfl rfl rfl rfl (.same rfl)))

theorem upon_deleteTxn (t : TxnRef) (hgone : ∀ {w}, S w → w.TxnGone t) :
    Within (Upon S) (deleteTxn t : Pkg σ Unit) := by
  have := hS.upon
  refine (Within.derefTxn t).bind fun _ => .modify fun w hs => ?_
  exact .head (.dropTxn (hgone hs)) (.single (.aside rfl le_rfl rfl rfl rfl rfl (.same rfl)))

theorem upon_finalizeEnv (hnumbered : ∀ {w}, S w → Numbered w) (x : ℕ) :
    Within (Upon S) (finalizeEnv L x) := by
  intro w hs
  rw [finalizeEnv, Prog.run_get_bind]
  cases hx : w.envSexps x with
  | none => exact .refl
  | some s =>
    rw [ifSome_some]
    cases haddr : s.addr with
    | none => exact .refl
    | some e =>
      obtain rfl := (hnumbered hs).envAddr hx haddr
      have hT := hS.and (stable_envGone e)
      have := hT.upon
      rw [ifSome_some, Prog.run_modify_bind]
      have hlost : Tend w (w.setEnvSexp e { s with addr := none }) := .loseEnv hx
      refine .head hlost (Within.bind (R := Upon fun w => S w ∧ w.EnvGone e)
        (upon_detachTxns hT e (fun hs => hs.2) fun hs => hnumbered hs.1) (fun _ => ?_) _
        ⟨hS.tend hlost hs, ⟨{ s with addr := none }, by simp, rfl⟩⟩)
      exact (upon_closeHandle hT e (fun hs => .inl hs.2) false).bind fun _ =>
        upon_deleteEnv hT e fun hs => .inl hs.2

theorem upon_finalizeTxn (hnumbered : ∀ {w}, S w → Numbered w) (x : ℕ) :
    Within (Upon S) (finalizeTxn L x) := by
  intro w hs
  rw [finalizeTxn, Prog.run_get_bind]
  cases hx : w.txnSexps x with
  | none => exact .refl
  | some s =>
    rw [ifSome_some]
    cases haddr : s.addr with
    | none => exact .refl
    | some t =>
      obtain rfl := (hnumbered hs).txnAddr hx haddr
      have hT := hS.and (stable_txnGone t)
      have := hT.upon
      have habort : ∀ k txn, Within (Upon fun w => S w ∧ w.TxnGone t)
          (finalizeAbort L t k txn) := by
        intro k txn
        rw [finalizeAbort]
        split
        · exact (Within.derefEnv _).bind fun _ => Within.currentPid.bind fun _ =>
            .ite (upon_tearDown hT _ _) (.pure _)
        · exact .pure _
      rw [ifSome_some, Prog.run_modify_bind]
      have hlost : Tend w (w.setTxnSexp t { s with addr := none }) := .loseTxn hx
      refine .head hlost (Within.bind (R := Upon fun w => S w ∧ w.TxnGone t)
        (Within.derefTxn t) (fun k => ?_) _
        ⟨hS.tend hlost hs, ⟨{ s with addr := none }, by simp, rfl⟩⟩)
      refine Within.bind ?_ fun _ => upon_deleteTxn hT t fun hs => hs.2
      rw [finalizeHandle]
      split
      · refine (habort _ _).bind fun ended => ?_
        exact Within.bind (.whenever (upon_abandon hT _)) fun _ =>
          upon_markFinished hT t (fun hs => hs.2) _
      · exact upon_unregisterTxn hT _

theorem upon_finalize (hnumbered : ∀ {w}, S w → Numbered w) (object : Object) :
    Within (Upon S) (finalize L object) := by
  cases object with
  | env x => exact upon_finalizeEnv hS hnumbered x
  | txn x => exact upon_finalizeTxn hS hnumbered x

theorem upon_allocate (hnumbered : ∀ {w}, S w → Numbered w) (keep : List Object) :
    Within (Upon S) (allocate L keep) := by
  have := hS.upon
  have hall : ∀ objects, Within (Upon S) (finalizeAll L objects) := by
    intro objects
    induction objects with
    | nil => exact .pure _
    | cons object rest ih => exact (upon_finalize hS hnumbered object).bind fun _ => ih
  refine Within.get.bind fun w => Within.bind ?_ fun _ => (hall _).bind fun _ =>
    .whenever (.exit _)
  exact upon_aside (fun _ => rfl) (fun _ => le_rfl) (fun _ => rfl) (fun _ => rfl) (fun _ => rfl)
    (fun _ => rfl) fun _ => rfl

/-! ### What the work inside a transaction does -/

theorem upon_works : L.Works (Upon S) := by
  have := hS.upon
  refine Platform.works_of upon_native upon_grow upon_poisonEnv (upon_poisonTxn hS) fun t f hf => ?_
  refine upon_updateTxn t fun _ k _ _ => ?_
  rw [hf k]
  exact ⟨rfl, .inl rfl⟩

end Finalizers

/-! ### What entry points add -/

theorem Tend.drawn (w : World σ) : Tend w { w with next := w.next + 1 } :=
  .aside rfl (Nat.le_succ _) rfl rfl rfl rfl (.same rfl)

/-- From a world with `S`, a run of assignments of both kinds that ends no transaction. -/
def Adding (S : World σ → Prop) (w w' : World σ) : Prop := S w → Adds w w'

theorem adding_numbered : IsPreorder (World σ) (Adding (Numbered (σ := σ))) where
  refl w _ := .refl w
  trans w w₁ w₂ h h' hs := by
    have hadds : Adds w w₁ := h hs
    exact hadds.trans (h' (hadds.moves.numbered hs))

section EntryPoints

variable {S T : World σ → Prop} {m : Pkg σ α} {f : α → Pkg σ β}

theorem ProofKit.Within.adding (hm : Within (Upon S) m) : Within (Adding S) m :=
  fun w hs => (hm w hs).adds

/-- After assignments of the first kind `S` still holds. -/
theorem ProofKit.Within.followed (hS : Stable S) (hm : Within (Upon S) m)
    (hf : ∀ a, Within (Adding S) (f a)) : Within (Adding S) (m >>= f) := by
  intro w hs
  have htends := hm w hs
  rw [Prog.run_bind]
  rcases hr : m.run w with ⟨x | a, w₁⟩
  · rw [hr] at htends
    exact htends.adds
  · rw [hr] at htends
    exact htends.adds.trans (hf a w₁ (hS.tends htends hs))

/-- So it does for those who only look at what holds then. -/
theorem ProofKit.Within.holds (hS : Stable S) (hm : Within (Upon S) m) (hs : S w) :
    Triple m w (fun _ => S) (fun _ _ => True) :=
  (Triple.of_final (hS.tends (hm w hs) hs)).mono (fun _ _ => id) fun _ _ _ => trivial

/-- After assignments of both kinds the numbers are still in order. -/
theorem ProofKit.Within.ensued (hm : Within (Adding S) m) (hnumbered : ∀ {w}, S w → Numbered w)
    (hf : ∀ a, Within (Adding Numbered) (f a)) : Within (Adding S) (m >>= f) := by
  intro w hs
  have hadds := hm w hs
  rw [Prog.run_bind]
  rcases hr : m.run w with ⟨x | a, w₁⟩
  · rw [hr] at hadds
    exact hadds
  · rw [hr] at hadds
    exact hadds.trans (hf a w₁ (hadds.moves.numbered (hnumbered hs)))

theorem adding_newEnvSexp (e : EnvRef) (path : String) (readonly subdir : Bool) :
    Within (Adding fun w => Numbered w ∧ w.EnvVacant e)
      (newEnvSexp L e path readonly subdir) := by
  have hS := stable_numbered.and (stable_envVacant (σ := σ) e)
  have hallocate := upon_allocate (L := L) hS (fun hs => hs.1)
  refine (hallocate _).followed hS fun _ => (hallocate _).followed hS fun _ => ?_
  rintro w ⟨N, hvacant⟩
  have := adding_numbered (σ := σ)
  rw [Prog.run_modify_bind]
  have hnew : Move w (w.setEnvSexp e ⟨some e, path, readonly, subdir⟩) :=
    .newEnvObject hvacant rfl
  have haside : Tend (w.setEnvSexp e ⟨some e, path, readonly, subdir⟩)
      { w.setEnvSexp e ⟨some e, path, readonly, subdir⟩ with
        liveEnvHandles := w.liveEnvHandles + 1 } :=
    .aside rfl le_rfl rfl rfl rfl rfl (.same rfl)
  refine (hnew.adds id).trans (haside.adds.trans (Within.bind (R := Adding Numbered) ?_
    (fun _ => .pure _) _ (stable_numbered.tend haside (hnew.numbered N))))
  exact (upon_allocate stable_numbered id _).adding

theorem upon_openCall (hS : Stable S) (e : EnvRef) (hloose : ∀ {w}, S w → w.Loose e)
    (path : String) (flags maxDbs maxReaders mapSize : ℕ) (mode : ℤ) :
    Within (Upon S) (openCall L e path flags maxDbs maxReaders mapSize mode) := by
  have := hS.upon
  have heach : ∀ calls, Within (Upon S) (callEach L calls) := by
    intro calls
    induction calls with
    | nil => exact .pure _
    | cons c rest ih => exact (upon_native c).bind fun reply => .ite ih (.pure _)
  refine (upon_native _).bind fun created => .ite (.pure _) ?_
  refine Within.bind (upon_updateEnv e fun _ _ hs _ => ?_) fun _ => ?_
  · exact ⟨rfl, .inr (hloose hs), List.Subset.refl _⟩
  · exact (heach _).bind fun rc => .ite (.pure _) ((upon_native _).bind fun _ => .pure _)

theorem adding_openHandle (path key : String) (readonly : Bool)
    (flags maxDbs maxReaders mapSize : ℕ) (mode : ℤ) : Within (Adding Numbered)
      (openHandle L path key readonly flags maxDbs maxReaders mapSize mode) := by
  intro w N
  rw [openHandle, Prog.bind_ok currentPid_run, Prog.bind_ok (fresh_run w), Prog.run_modify_bind]
  set e := w.next with he
  set S : World σ → Prop := fun w => (Numbered w ∧ w.EnvVacant e) ∧ w.OwnEnv e with hS'
  have hS : Stable S := (stable_numbered.and (stable_envVacant e)).and (stable_ownEnv e)
  have := hS.upon
  have := adding_numbered (σ := σ)
  have hdrop : ∀ {α : Type} (c : Condition), Within (Upon S) (do
      Prog.modify fun w => w.setEnv e none
      stop c : Pkg σ α) := fun c =>
    Within.bind (upon_modify fun w hs => .dropEnv (.inr hs.2)) fun _ => .stop c
  -- The number is new, and nothing but the handle made under it can come by it.
  have hdrawn := Tend.drawn w
  have hnone : w.envs e = none :=
    Option.eq_none_iff_forall_ne_some.mpr fun h hsome => absurd (N.env hsome) (lt_irrefl _)
  have hsexp : w.envSexps e = none :=
    Option.eq_none_iff_forall_ne_some.mpr fun s hsome => absurd (N.envSexp hsome) (lt_irrefl _)
  have hmade : Move { w with next := w.next + 1 }
      ({ w with next := w.next + 1 }.setEnv e
        (some ⟨none, false, w.pid, "", "", [], (none, none)⟩)) :=
    .newEnv hnone (Nat.lt_succ_self _) rfl rfl
  have N₁ := hmade.numbered (stable_numbered.tend hdrawn N)
  refine hdrawn.adds.trans ((hmade.adds id).trans (Within.followed hS (Within.runGuarded
    (upon_openCall hS e (fun hs => .inr hs.2) path flags maxDbs maxReaders mapSize mode)
    (upon_poisonEnv e)) (fun result => ?_) _ ⟨⟨N₁, Nat.lt_succ_self _, hsexp⟩, ?_⟩))
  · split
    · exact (Within.bind (upon_abandonEnv hS e) fun _ => hdrop _).adding
    · refine .ite (Within.bind (upon_closeHandle hS e (fun hs => .inr hs.2) false)
        fun _ => hdrop _).adding ?_
      refine Within.followed hS (upon_updateEnv e fun _ _ _ _ =>
        ⟨rfl, .inl rfl, List.Subset.refl _⟩) fun _ => ?_
      refine (upon_recordHeapRoots hS e).followed hS fun _ => ?_
      intro w hs
      refine (adding_newEnvSexp e path readonly _).ensued (fun hs => hs.1) (fun x => ?_) w hs.1
      refine Within.bind (Within.adding ?_) fun _ => .pure _
      exact upon_aside (fun _ => rfl) (fun _ => le_rfl) (fun _ => rfl) (fun _ => rfl)
        (fun _ => rfl) (fun _ => rfl) fun _ => rfl
  · intro h hsome
    rw [World.setEnv_envs, Function.update_self] at hsome
    cases hsome
    rfl

theorem adding_mdbxEnvOpen (path key : String) (readonly subdir : Bool)
    (maxDbs mapSize maxReaders : Double) (mode : ℤ) (extraFlags : List String) :
    Within (Adding Numbered) (mdbxEnvOpen_ L path key readonly subdir maxDbs mapSize maxReaders
      mode extraFlags) := by
  have := adding_numbered (σ := σ)
  refine Within.bind (.flagsFromNames _ _) fun extra => ?_
  refine (Within.refuse _ _).bind fun _ => (Within.refuse _ _).bind fun _ => ?_
  refine (Within.refuse _ _).bind fun _ => (Within.refuseOpen path key).bind fun _ => ?_
  refine (Within.narrow _ _).bind fun _ => (Within.narrow _ _).bind fun _ => ?_
  exact (Within.narrow _ _).bind fun _ => adding_openHandle _ _ _ _ _ _ _ _

/-- The transaction `t` of `e` is live, or R has collected its object or the environment's. -/
def World.Alive (w : World σ) (e : EnvRef) (t : TxnRef) : Prop :=
  w.TxnGone t ∨ w.EnvGone e ∨ ∃ k, LiveTxn w e t k

theorem Adds.alive (h : Adds w w') {e : EnvRef} {t : TxnRef} {k : TxnHandle}
    (ht : LiveTxn w e t k) : w'.Alive e t :=
  (h.spares ht.at_ ht.owner).imp id (.imp id fun ⟨j, hj, howner⟩ => ⟨j, hj, howner⟩)

/-- `new_txn_sexp` past the allocation of the object. -/
theorem newTxnSexp_registers {t : TxnRef} {k : TxnHandle} {e : EnvRef} (N : Numbered w)
    (hvacant : w.TxnVacant t) (hpid : k.pid = w.pid) (howner : k.owner = some e)
    {s : TxnSexp} (haddr : s.addr = some t) (hprot : s.prot = some e) (keep : List Object) :
    Triple (do
      Prog.modify fun w => { (w.setTxn t (some k)).setTxnSexp t s with
        liveTxnHandles := w.liveTxnHandles + 1 }
      updateEnv e fun h => { h with liveTxns := h.liveTxns ++ [t] }
      allocate L keep
      pure (.txn t) : Pkg σ Sexp) w
      (fun x w' => x = .txn t ∧ Adds w w' ∧ w'.Alive e t) (fun _ w' => Adds w w') := by
  have hnew : Move w ((w.setTxn t (some k)).setTxnSexp t s) :=
    .newTxn hvacant hpid howner haddr hprot
  have hsame : ∀ {t' k'}, w.txns t' = some k' →
      ((w.setTxn t (some k)).setTxnSexp t s).txns t' = some k' := by
    intro t' k' hk'
    have hne : t' ≠ t := by
      rintro rfl
      simp [hvacant.2.1] at hk'
    simpa [hne] using hk'
  set w₁ : World σ := { (w.setTxn t (some k)).setTxnSexp t s with
    liveTxnHandles := w.liveTxnHandles + 1 } with hw₁
  have hcounted : Tend ((w.setTxn t (some k)).setTxnSexp t s) w₁ :=
    .aside rfl le_rfl rfl rfl rfl rfl (.same rfl)
  have A₁ := (hnew.adds hsame).trans hcounted.adds
  have N₁ := stable_numbered.tend hcounted (hnew.numbered N)
  refine Triple.step (Prog.run_modify _ _) ?_
  cases he : w.envs e with
  | none =>
    refine Triple.stopped (x := .undefined .danglingPointer) ?_ A₁
    simp [updateEnv, derefEnv, he, Prog.run_bind, hw₁]
  | some h =>
    refine Triple.step (updateEnv_run (h := h) (by exact he) _) ?_
    have hregister := Move.register (w := w₁) (h := h) (t := t) he (by simp [hw₁]) howner
    have A₂ := A₁.trans (hregister.adds id)
    set w₂ := w₁.setEnv e (some { h with liveTxns := h.liveTxns ++ [t] }) with hw₂
    have hlive : LiveTxn w₂ e t k := ⟨by simp [hw₂, hw₁], howner⟩
    refine Triple.bind (Q := fun _ w' => Adds w₂ w') ?_ fun _ w' hadds => ?_
    · exact (Triple.of_final (upon_allocate stable_numbered id keep w₂
        (hregister.numbered N₁)).adds).mono (fun _ _ => id) fun _ _ => A₂.trans
    · exact Triple.pure ⟨rfl, A₂.trans hadds, hadds.alive hlive⟩

theorem adding_newTxnSexp (t : TxnRef) {k : TxnHandle} {e : EnvRef} (pid : Pid)
    (hk : k.pid = pid) (howner : k.owner = some e) (write : Bool) :
    Within (Adding fun w => (Numbered w ∧ w.TxnVacant t) ∧ w.pid = pid)
      (newTxnSexp L t k e e write) := by
  have hS := (stable_numbered.and (stable_txnVacant (σ := σ) t)).and (stable_pid pid)
  have hallocate := upon_allocate (L := L) hS (fun hs => hs.1.1)
  refine (hallocate _).followed hS fun _ => (hallocate _).followed hS fun _ => ?_
  rintro w ⟨⟨N, hvacant⟩, hpid⟩
  exact ((newTxnSexp_registers N hvacant (hk.trans hpid.symm) howner rfl rfl _).mono
    (fun _ _ h => h.2.1) fun _ _ => id).final

/-- A number that has just been drawn bears no transaction. -/
theorem Numbered.drawn (N : Numbered w) :
    Numbered { w with next := w.next + 1 } ∧
      World.TxnVacant { w with next := w.next + 1 } w.next := by
  refine ⟨stable_numbered.tend (.drawn w) N, Nat.lt_succ_self _, ?_, ?_, ?_⟩
  · exact Option.eq_none_iff_forall_ne_some.mpr fun k hk => absurd (N.txn hk) (lt_irrefl _)
  · exact Option.eq_none_iff_forall_ne_some.mpr fun s hs => absurd (N.txnSexp hs) (lt_irrefl _)
  · exact fun e h he hmem => absurd (N.below he _ hmem) (lt_irrefl _)

/-- `mdbx_txn_begin_`. -/
theorem adds_mdbxTxnBegin (I : Inv v w) (x : Sexp) (write : Bool) (flags : List String) :
    Adds w ((mdbxTxnBegin_ L x write flags).run w).2 := by
  rcases envFromSexp_run I.graph x with ⟨c, hr⟩ | ⟨e, h, s, rfl, hs, haddr, hr, he⟩
  · rw [mdbxTxnBegin_, Prog.bind_error hr]
    exact .refl w
  rw [mdbxTxnBegin_, Prog.bind_ok hr, Prog.bind_ok (derefEnv_run he.at_)]
  by_cases hlive : h.liveTxns = []
  swap
  · rw [Prog.bind_error (refuse_run hlive)]
    exact .refl w
  rw [Prog.bind_ok (refuse_pass (not_not.mpr hlive)), Prog.bind_ok currentPid_run,
    Prog.bind_ok (fresh_run w)]
  have hS := (stable_numbered.and (stable_txnVacant (σ := σ) w.next)).and (stable_pid w.pid)
  have := hS.upon
  refine (Tend.drawn w).adds.trans (Within.followed hS (.flagsFromNames _ _) (fun extra => ?_) _
    ⟨I.numbered.drawn, rfl⟩)
  refine Within.followed hS (.nonNull _) fun env => ?_
  refine Within.followed hS (Within.guard ?_ (upon_poisonEnv e)) fun rc => ?_
  · exact (upon_native _).bind fun reply => .pure _
  · exact Within.followed hS (.check rc) fun _ =>
      adding_newTxnSexp w.next w.pid (by rfl) (by rfl) write

/-- What a begin that returns has begun. -/
theorem mdbxTxnBegin_alive (I : Inv v w) (e : EnvRef) (write : Bool) (flags : List String) :
    Triple (mdbxTxnBegin_ L (.env e) write flags) w
      (fun x w' => x = .txn w.next ∧ w'.Alive e w.next) (fun _ _ => True) := by
  rcases envFromSexp_run I.graph (.env e) with ⟨c, hr⟩ | ⟨e', h, s, hx, hs, haddr, hr, he⟩
  · exact Triple.stopped hr trivial
  cases hx
  refine Triple.step hr (Triple.step (derefEnv_run he.at_) ?_)
  by_cases hlive : h.liveTxns = []
  swap
  · exact Triple.stopped (refuse_run hlive) trivial
  refine Triple.step (refuse_pass (not_not.mpr hlive)) (Triple.step currentPid_run
    (Triple.step (fresh_run w) ?_))
  have hS := (stable_numbered.and (stable_txnVacant (σ := σ) w.next)).and (stable_pid w.pid)
  have := hS.upon
  have hallocate := upon_allocate (L := L) hS (fun hs => hs.1.1)
  refine Triple.bind (Within.holds hS (.flagsFromNames _ _) ⟨I.numbered.drawn, rfl⟩)
    fun extra w₁ h₁ => Triple.bind (Within.holds hS (.nonNull _) h₁) fun env w₂ h₂ => ?_
  refine Triple.bind (Within.holds hS (Within.guard ?_ (upon_poisonEnv e)) h₂) fun rc w₃ h₃ => ?_
  · exact (upon_native _).bind fun reply => .pure _
  refine Triple.bind (Within.holds hS (.check rc) h₃) fun _ w₄ h₄ => ?_
  refine Triple.bind ((hallocate _).holds hS h₄) fun _ w₅ h₅ =>
    Triple.bind ((hallocate _).holds hS h₅) fun _ w₆ h₆ => Triple.step (Prog.run_get _) ?_
  obtain ⟨⟨N, hvacant⟩, hpid⟩ := h₆
  exact (newTxnSexp_registers N hvacant hpid.symm rfl rfl rfl _).mono (fun _ _ h => ⟨h.1, h.2.2⟩)
    fun _ _ _ => trivial

theorem Refreshed.tends {e : EnvRef} {h : EnvHandle} (R : Refreshed e h w w')
    (he : w.envs e = some h) : Tends w w' := by
  cases R with
  | same => exact .refl
  | asked lib rc roots =>
    have hcalled : Tend w (w.called (.envHeapRoots e) lib (.returned rc)) :=
      .aside rfl le_rfl rfl rfl rfl rfl (.call rfl rfl)
    exact .head hcalled (.single (.env (h := h) he rfl (.inl rfl) (List.Subset.refl _)))

/-- A transaction of this process is detached and its object lets go of the environment. -/
theorem moves_detached {e : EnvRef} {h : EnvHandle} {t : TxnRef} {k : TxnHandle} {s : TxnSexp}
    (he : w.envs e = some h) (ht : w.txns t = some k) (hpid : k.pid = w.pid)
    (hs : w.txnSexps t = some s) (state : TxnState) :
    Moves w ((w.detached t k e h state).setTxnSexp t { s with prot := none }) := by
  have hunlisted : Move w (w.setEnv e (some { h with liveTxns := [] })) :=
    .tend (.env he rfl (.inl rfl) (List.nil_subset _))
  have hended : Move (w.setEnv e (some { h with liveTxns := [] }))
      ((w.detached t k e h state).setTxnSexp t { s with prot := none }) :=
    .ended (k := k) (j := k.finished state) ht hpid rfl rfl hs
  exact .head hunlisted (.single hended)

/-- `finish_txn` on a live transaction. -/
theorem Finishes.moves {commit : Bool} {e : EnvRef} {h : EnvHandle} {t : TxnRef} {k : TxnHandle}
    {s : TxnSexp} {r : Except Exit Unit} (F : Finishes commit e h t k s w r w')
    (he : w.envs e = some h) (ht : w.txns t = some k) (hs : w.txnSexps t = some s)
    (hpid : k.pid = w.pid) : Moves w w' := by
  cases F with
  | panicked info lib =>
    have hcalled : Tend w (w.called (finishNative commit ⟨e, t⟩) lib .panicked) :=
      .aside rfl le_rfl rfl rfl rfl rfl (.call rfl rfl)
    have hpoisoned : Tends (w.called (finishNative commit ⟨e, t⟩) lib .panicked)
        ((w.called (finishNative commit ⟨e, t⟩) lib .panicked).setEnv e
          (some { h with poisoned := true })) :=
      .single (.env (h := h) he rfl (.inl rfl) (List.Subset.refl _))
    exact Tends.moves (.head hcalled (hpoisoned.tail (.txn (k := k) ht rfl (.inl rfl))))
  | mismatch lib => exact .single (.tend (.aside rfl le_rfl rfl rfl rfl rfl (.call rfl rfl)))
  | ended lib rc hrc w₁ h' R he' =>
    have hcalled : Tend w (w.called (finishNative commit ⟨e, t⟩) lib (.returned rc)) :=
      .aside rfl le_rfl rfl rfl rfl rfl (.call rfl rfl)
    have hrefreshed := R.tends he
    refine (Tends.moves (.head hcalled hrefreshed)).trans ?_
    refine moves_detached he' (by rw [R.txns]; exact ht) ?_ (by rw [R.sexps.2]; exact hs) _
    rw [hpid, R.pid]
    rfl

theorem moves_finishTxn (I : Inv v w) (x : Sexp) (commit : Bool) :
    Moves w ((finishTxn L x commit).run w).2 := by
  rcases finishTxn_cases L I.graph x commit with
    ⟨c, hr⟩ | ⟨e, h, t, k, s, r, w', rfl, hs, -, he, ht, hr, F⟩
  · rw [hr]
  · rw [hr]
    obtain ⟨h₀, he₀, -, hpid, -⟩ := I.graph.owner ht.at_ ht.owner
    obtain rfl : h = h₀ := Option.some.inj (he.at_ ▸ he₀)
    exact F.moves he.at_ ht.at_ hs (hpid.symm.trans he.pid)

theorem moves_mdbxTxnAbort (I : Inv v w) (x : Sexp) :
    Moves w ((mdbxTxnAbort_ L x).run w).2 := by
  rcases mdbxTxnAbort_cases L I.graph x with ⟨r, hr, -⟩ |
    ⟨e, h, t, k, s, rfl, hs, -, he, ht, hpid, -, hr⟩ |
    ⟨e, h, t, k, s, r, w', rfl, hs, -, he, ht, hr, F⟩
  · rw [hr]
  · rw [hr]
    have hgiven : Move w { w with abandoned := w.abandoned ++ [Abandoned.txn ⟨e, t⟩] } :=
      .tend (.aside rfl le_rfl rfl rfl rfl rfl (.same rfl))
    refine .head hgiven ?_
    exact moves_detached (w := { w with abandoned := w.abandoned ++ [Abandoned.txn ⟨e, t⟩] })
      he ht.at_ hpid hs .aborted
  · rw [hr]
    obtain ⟨h₀, he₀, -, hpid, -⟩ := I.graph.owner ht.at_ ht.owner
    obtain rfl : h = h₀ := Option.some.inj (he.at_ ▸ he₀)
    exact F.moves he.at_ ht.at_ hs (hpid.symm.trans he.pid)

/-- An entry point that ends nothing makes a sequence of moves that spares the transactions. -/
theorem Command.adds (I : Inv v w) {command : Command} (hclose : ∀ x, command ≠ .envClose x)
    (hcommit : ∀ x, command ≠ .txnCommit x) (habort : ∀ x, command ≠ .txnAbort x) :
    Adds w ((command.run L).run w).2 := by
  by_cases hworks : command.works = true
  · exact ((upon_works stable_numbered).command hworks w I.numbered).adds
  cases command with
  | envClose x => exact absurd rfl (hclose x)
  | txnCommit x => exact absurd rfl (hcommit x)
  | txnAbort x => exact absurd rfl (habort x)
  | envOpen =>
    rw [Command.run, Prog.map_final]
    exact adding_mdbxEnvOpen _ _ _ _ _ _ _ _ _ w I.numbered
  | txnBegin =>
    rw [Command.run, Prog.map_final]
    exact adds_mdbxTxnBegin I _ _ _
  | _ => exact absurd rfl hworks

/-- Every entry point that does not close an environment makes a sequence of moves. -/
theorem Command.moves (I : Inv v w) {command : Command} (hclose : ∀ x, command ≠ .envClose x) :
    Moves w ((command.run L).run w).2 := by
  by_cases hends : (∃ x, command = .txnCommit x) ∨ ∃ x, command = .txnAbort x
  · obtain ⟨x, rfl⟩ | ⟨x, rfl⟩ := hends
    · rw [Command.run, Prog.map_final]
      exact moves_finishTxn I _ _
    · rw [Command.run, Prog.map_final]
      exact moves_mdbxTxnAbort I _
  · rw [not_or, not_exists, not_exists] at hends
    exact (Command.adds I hclose hends.1 hends.2).moves

/-- A finalizer spares the transactions of others. -/
theorem finalize_adds (I : Inv v w) (object : Object) : Adds w ((finalize L object).run w).2 :=
  (upon_finalize stable_numbered id object w I.numbered).adds

end EntryPoints

/-! ### Closing an environment -/

/-- What a close of the environment `e` can change: its own handle, and the live transaction of a
panicked environment. -/
structure Relinquished (e : EnvRef) (w w' : World σ) : Prop where
  pid : w'.pid = w.pid
  envSexps : w'.envSexps = w.envSexps
  txnSexps : w'.txnSexps = w.txnSexps
  envs : ∀ e' ≠ e, w'.envs e' = w.envs e'
  logs : w.Logs w'
  txns : w'.txns = w.txns ∨ ∃ h t k, w.envs e = some h ∧ h.poisoned = true ∧ LiveTxn w e t k ∧
    w'.txns = Function.update w.txns t (some (k.finished .aborted))

theorem Relinquished.refl (e : EnvRef) (w : World σ) : Relinquished e w w :=
  ⟨rfl, rfl, rfl, fun _ _ => rfl, .same rfl, .inl rfl⟩

/-- Past the detachment, `close_handle` leaves the transactions alone. -/
theorem Relinquished.shut {e : EnvRef} {h : EnvHandle} {w₁ : World σ} (R : Relinquished e w w₁)
    (D : Shut e h w₁ w') : Relinquished e w w' := by
  obtain ⟨hpid, htxns, henvSexps, htxnSexps, -, henvs⟩ := D.frame
  have hlogs : w₁.Logs w' := by
    cases D with
    | givenUp => exact .same rfl
    | closed lib o => exact .call rfl rfl
  exact ⟨hpid.trans R.pid, henvSexps.trans R.envSexps, htxnSexps.trans R.txnSexps,
    fun e' hne => (henvs e' hne).trans (R.envs e' hne), R.logs.trans hlogs R.pid,
    by rw [htxns]; exact R.txns⟩

section Close

variable {e : EnvRef} {h : EnvHandle} {t : TxnRef} {k : TxnHandle}

/-- The detachment of a transaction of a panicked environment, or of one of another process: it is
kept in `abandoned` and libmdbx is not asked. -/
theorem detachTxns_unusable (G : Graph w) (he : w.envs e = some h) (ht : LiveTxn w e t k)
    (hunusable : h.poisoned = true ∨ h.pid ≠ w.pid) : (detachTxns L e).run w = (.ok (),
      { w with abandoned := w.abandoned ++ [Abandoned.txn ⟨e, t⟩] }.detached t k e h .aborted) := by
  obtain ⟨w₁, h₁, k₁, P, hrun⟩ := detachTxns_live L G he ht
  cases P with
  | aborted lib rc hhealthy _ hpid => simp [hhealthy, hpid] at hunusable
  | panicked lib hhealthy _ hpid => simp [hhealthy, hpid] at hunusable
  | givenUp => exact hrun

theorem Graph.live_of_ne_nil (G : Graph w) (he : w.envs e = some h) (hlive : h.liveTxns ≠ []) :
    ∃ t k, LiveTxn w e t k := by
  obtain ⟨t, ht⟩ := List.exists_mem_of_ne_nil _ hlive
  obtain ⟨k, hk, howner⟩ := (G.live he t).mp ht
  exact ⟨t, k, hk, howner⟩

/-- What a close meets first where the environment is healthy. -/
theorem mdbxEnvClose_stillOpen {s : EnvSexp} (hs : w.envSexps e = some s)
    (haddr : s.addr = some e) (he : w.envs e = some h) (hhealthy : h.poisoned = false)
    (hlive : h.liveTxns ≠ []) : (mdbxEnvClose_ L (.env e)).run w =
      (.error (.stop (.txnsStillOpen h.liveTxns.length)), w) := by
  have hx : (isEnvSexp (.env e)).run w = (.ok s, w) := by
    simp [isEnvSexp, hs]
  rw [mdbxEnvClose_, Prog.bind_ok hx, haddr, ifSome_some, Prog.bind_ok (derefEnv_run he),
    whenever_neg (by simp [hhealthy]), pure_bind, Prog.bind_ok (derefEnv_run he),
    Prog.bind_error (refuse_run hlive)]

/-- A close of a panicked environment with a transaction, which is detached and kept. -/
theorem mdbxEnvClose_unusable (G : Graph w) {s : EnvSexp} (hs : w.envSexps e = some s)
    (haddr : s.addr = some e) (he : w.envs e = some h) (hpois : h.poisoned = true)
    (ht : LiveTxn w e t k) :
    ∃ w₁, (mdbxEnvClose_ L (.env e)).run w = (closeHandle L e true).run w₁ ∧
      w₁.envs e = some { h with liveTxns := [] } ∧ w₁.lib = w.lib ∧ w₁.log = w.log ∧
      w₁.pid = w.pid ∧ Relinquished e w w₁ := by
  have hdetach := detachTxns_unusable (L := L) G he ht (.inl hpois)
  set w₁ := { w with abandoned := w.abandoned ++ [Abandoned.txn ⟨e, t⟩] }.detached t k e h .aborted
  have he₁ : w₁.envs e = some { h with liveTxns := [] } := by
    simp [w₁, World.detached]
  refine ⟨w₁, mdbxEnvClose_detaches L hs haddr he hpois hdetach he₁ rfl, he₁, rfl, rfl, rfl, ?_⟩
  refine ⟨rfl, rfl, rfl, fun e' hne => by simp [w₁, World.detached, hne], .same rfl, ?_⟩
  exact .inr ⟨h, t, k, he, hpois, ht, rfl⟩

theorem mdbxEnvClose_relinquished (I : Inv v w) (x : ℕ) :
    Relinquished x w ((mdbxEnvClose_ L (.env x)).run w).2 := by
  rcases isEnvSexp_run (.env x) w with hx | ⟨n, s, hn, hs, hx⟩
  · rw [mdbxEnvClose_, Prog.bind_error hx]
    exact .refl x w
  cases hn
  cases haddr : s.addr with
  | none =>
    rw [mdbxEnvClose_, Prog.bind_ok hx, haddr]
    exact .refl x w
  | some e =>
    obtain ⟨rfl, hsome⟩ := I.graph.envSexp hs haddr
    obtain ⟨h, he⟩ := Option.isSome_iff_exists.mp hsome
    -- What `close_handle` does from a world that the detachment has left.
    have hshut : ∀ {w₁ : World σ} {h₁ : EnvHandle}, w₁.envs e = some h₁ → h₁.env = h.env →
        Relinquished e w w₁ → Relinquished e w ((closeHandle L e true).run w₁).2 := by
      intro w₁ h₁ he₁ henv₁ R
      cases henv : h.env with
      | none =>
        rw [closeHandle_detached L he₁ (henv₁.trans henv) true]
        exact R
      | some p =>
        obtain rfl := I.graph.env he henv
        obtain ⟨r, w₂, hr, D, -⟩ := closeHandle_run L he₁ (henv₁.trans henv) true
        rw [hr]
        exact R.shut D
    by_cases hlive : h.liveTxns = []
    · rw [mdbxEnvClose_shut L hs haddr he hlive]
      exact hshut he rfl (.refl e w)
    cases hpois : h.poisoned with
    | false =>
      rw [mdbxEnvClose_stillOpen hs haddr he hpois hlive]
      exact .refl e w
    | true =>
      obtain ⟨t, k, ht⟩ := I.graph.live_of_ne_nil he hlive
      obtain ⟨w₁, hrun, he₁, -, -, -, R⟩ :=
        mdbxEnvClose_unusable (L := L) I.graph hs haddr he hpois ht
      rw [hrun]
      exact hshut he₁ rfl R

end Close

/-! ### Every event -/

/-- An event makes moves, closes an environment or forks. -/
theorem Event.effect (I : Inv v w) (event : Event) : Moves w (event.next L w) ∨
    (∃ x, event = .entry (.envClose (.env x)) ∧ Relinquished x w (event.next L w)) ∨
    ∃ child, event = .fork child := by
  cases event with
  | fork child => exact .inr (.inr ⟨child, rfl⟩)
  | finalize object => exact .inl (finalize_adds I object).moves
  | entry command =>
    by_cases hclose : ∃ x, command = .envClose x
    · obtain ⟨x, rfl⟩ := hclose
      rw [Event.next, Command.run, Prog.map_final]
      cases x with
      | env e => exact .inr (.inl ⟨e, rfl, mdbxEnvClose_relinquished I e⟩)
      | txn _ => exact .inl .refl
      | other => exact .inl .refl
    · exact .inl (Command.moves I (not_exists.mp hclose))

/-! ### Every event but the end of a transaction -/

section Spared

variable {e : EnvRef} {h : EnvHandle} {t t' : TxnRef} {k : TxnHandle} {s : TxnSexp}

/-- The end of a transaction is none of another. -/
theorem Finishes.others {commit : Bool} {r : Except Exit Unit}
    (F : Finishes commit e h t' k s w r w') (hne : t ≠ t') : w'.txns t = w.txns t := by
  cases F with
  | panicked info lib => simp [hne]
  | mismatch lib => rfl
  | ended lib rc hrc w₁ h' R he' => simp [World.detached, hne, R.txns]

theorem mdbxTxnCommit_others (G : Graph w) {x : Sexp} (hx : x ≠ .txn t) :
    ((mdbxTxnCommit_ L x).run w).2.txns t = w.txns t := by
  rcases finishTxn_cases L G x true with
    ⟨c, hr⟩ | ⟨e, h, t', k, s, r, w', rfl, -, -, -, -, hr, F⟩
  · rw [mdbxTxnCommit_, hr]
  · rw [mdbxTxnCommit_, hr]
    exact F.others fun heq => hx (heq ▸ rfl)

theorem mdbxTxnAbort_others (G : Graph w) {x : Sexp} (hx : x ≠ .txn t) :
    ((mdbxTxnAbort_ L x).run w).2.txns t = w.txns t := by
  rcases mdbxTxnAbort_cases L G x with ⟨r, hr, -⟩ |
    ⟨e, h, t', k, s, rfl, -, -, -, -, -, -, hr⟩ | ⟨e, h, t', k, s, r, w', rfl, -, -, -, -, hr, F⟩
  · rw [hr]
  · have hne : t ≠ t' := fun heq => hx (heq ▸ rfl)
    simp [hr, World.endedHere, World.detached, hne]
  · rw [hr]
    exact F.others fun heq => hx (heq ▸ rfl)

/-- A close finds a transaction and stops, or the environment has panicked and libmdbx is not
asked. -/
theorem mdbxEnvClose_spared (I : Inv v w) (x : Sexp) (ht : LiveTxn w e t k) :
    ((mdbxEnvClose_ L x).run w).2.txns t = w.txns t ∨
      (Panicked w.log e ∧ ((mdbxEnvClose_ L x).run w).2.log = w.log) := by
  rcases isEnvSexp_run x w with hx | ⟨n, s, rfl, hs, -⟩
  · rw [mdbxEnvClose_, Prog.bind_error hx]
    exact .inl rfl
  rcases (mdbxEnvClose_relinquished (L := L) I n).txns with
    htxns | ⟨h, t', k', he, hpois, ht', htxns⟩
  · exact .inl (congrFun htxns t)
  by_cases hne : t = t'
  swap
  · exact .inl (by rw [htxns, Function.update_of_ne hne])
  subst hne
  obtain rfl : k = k' := Option.some.inj (ht.at_ ▸ ht'.at_)
  obtain rfl : e = n := Option.some.inj (ht.owner ▸ ht'.owner)
  obtain ⟨h', he', henv, -⟩ := I.graph.owner ht.at_ ht.owner
  obtain rfl : h = h' := Option.some.inj (he ▸ he')
  refine .inr ⟨I.traced.poisoned he henv hpois, ?_⟩
  cases haddr : s.addr with
  | none =>
    have hx : (isEnvSexp (.env e)).run w = (.ok s, w) := by
      simp [isEnvSexp, hs]
    rw [mdbxEnvClose_, Prog.bind_ok hx, haddr]
    rfl
  | some e' =>
    obtain ⟨rfl, -⟩ := I.graph.envSexp hs haddr
    obtain ⟨w₁, hrun, he₁, -, hlog, hpid, -⟩ :=
      mdbxEnvClose_unusable (L := L) I.graph hs haddr he hpois ht
    obtain ⟨r, w₂, hclose, D, -⟩ := closeHandle_run L he₁ henv true
    rw [hrun, hclose]
    cases D with
    | givenUp => exact hlog
    | closed lib o hhealthy => simp [hpois] at hhealthy

/-- What an event that does not end the transaction `t` leaves of it. -/
theorem Event.spared (I : Inv v w) {event : Event} (hcommit : event ≠ .entry (.txnCommit (.txn t)))
    (habort : event ≠ .entry (.txnAbort (.txn t))) (ht : LiveTxn w e t k) :
    (event.next L w).TxnGone t ∨ (event.next L w).EnvGone e ∨
      (∃ j, LiveTxn (event.next L w) e t j) ∨
        (Panicked w.log e ∧ (event.next L w).log = w.log) := by
  have hadds : ∀ {w' : World σ}, Adds w w' →
      w'.TxnGone t ∨ w'.EnvGone e ∨ (∃ j, LiveTxn w' e t j) ∨ (Panicked w.log e ∧ w'.log = w.log) :=
    fun h => (h.spares ht.at_ ht.owner).imp id (.imp id fun ⟨j, hj, howner⟩ => .inl ⟨j, hj, howner⟩)
  have hsame : ∀ {w' : World σ}, w'.txns t = w.txns t → ∃ j, LiveTxn w' e t j := fun h =>
    ⟨k, h.trans ht.at_, ht.owner⟩
  cases event with
  | fork child => exact .inr (.inr (.inl ⟨k, ht.at_, ht.owner⟩))
  | finalize object => exact hadds (finalize_adds I object)
  | entry command =>
    cases command with
    | envClose x =>
      rw [Event.next, Command.run, Prog.map_final]
      exact .inr (.inr ((mdbxEnvClose_spared I x ht).imp hsame id))
    | txnCommit x =>
      rw [Event.next, Command.run, Prog.map_final]
      exact .inr (.inr (.inl (hsame (mdbxTxnCommit_others I.graph fun hx => hcommit (hx ▸ rfl)))))
    | txnAbort x =>
      rw [Event.next, Command.run, Prog.map_final]
      exact .inr (.inr (.inl (hsame (mdbxTxnAbort_others I.graph fun hx => habort (hx ▸ rfl)))))
    | _ => exact hadds (Command.adds I (by simp) (by simp) (by simp))

end Spared

end Mdbx
