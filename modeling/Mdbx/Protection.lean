import Mdbx.Upkeep
import Mdbx.Registry

/-! What the external pointer of a transaction protects: the object of its environment for as long
as the transaction is active, and nothing after that. -/

namespace Mdbx

open ProofKit

variable {σ : Type} {L : Platform σ} {v : Waived} {w w' : World σ}

namespace World

/-- The object of a transaction that belongs to an environment protects the environment's. -/
def Protects (w : World σ) : Prop := ∀ t s k e, w.txnSexps t = some s → s.addr ≠ none →
  w.txns t = some k → k.owner = some e → s.prot = some e

/-- The object of an ended transaction of this process protects no object that R still has. -/
def Releases (w : World σ) : Prop := ∀ t s k e, w.txnSexps t = some s → s.addr ≠ none →
  w.txns t = some k → k.pid = w.pid → k.owner = none → s.prot = some e → w.EnvGone e

/-- R still has the object `s` of the transaction `t`, and so the object that it protects: the
finalizer of neither has run. -/
structure Keeps (w : World σ) (t : TxnRef) (s : TxnSexp) : Prop where
  at_ : w.txnSexps t = some s
  addr : s.addr ≠ none
  prot : ∀ x, s.prot = some x → ¬ w.EnvGone x

end World

/-! ### Moves -/

theorem Tend.protects (h : Tend w w') (P : w.Protects) : w'.Protects := by
  intro t s' j e hs' haddr' hj howner'
  obtain ⟨s, hs, hprot, haddr⟩ := h.oldTxnSexp hs'
  obtain ⟨k, hk, -, howner⟩ := h.oldTxn hj
  have haddr₀ : s.addr ≠ none := by
    rw [← haddr.resolve_right haddr']
    exact haddr'
  rcases howner with howner | ⟨howner, -⟩
  · rw [hprot]
    exact P t s k e hs haddr₀ hk (howner.symm.trans howner')
  · rw [howner'] at howner
    cases howner

theorem Move.protects (h : Move w w') (P : w.Protects) : w'.Protects := by
  cases h with
  | tend h => exact h.protects P
  | newEnv => exact P
  | newEnvObject => exact P
  | register => exact P
  | @newTxn t k s e vacant pid owner addr prot =>
    intro t' s' k' e' hs' haddr hk' howner
    rw [World.setTxnSexp_txnSexps, Function.update_apply] at hs'
    rw [World.setTxnSexp_txns, World.setTxn_txns, Function.update_apply] at hk'
    split at hs'
    · rw [if_pos ‹t' = t›] at hk'
      cases hs'
      cases hk'
      rw [prot, ← owner, howner]
    · rw [if_neg ‹¬ t' = t›] at hk'
      exact P t' s' k' e' hs' haddr hk' howner
  | @ended t k j s at_ own pid owner object =>
    intro t' s' k' e' hs' haddr hk' howner
    rw [World.setTxnSexp_txnSexps, Function.update_apply] at hs'
    rw [World.setTxnSexp_txns, World.setTxn_txns, Function.update_apply] at hk'
    split at hs'
    · rw [if_pos ‹t' = t›] at hk'
      cases hk'
      rw [owner] at howner
      cases howner
    · rw [if_neg ‹¬ t' = t›] at hk'
      exact P t' s' k' e' hs' haddr hk' howner

theorem Tend.releases (h : Tend w w') (P : w.Protects) (R : w.Releases) : w'.Releases := by
  intro t s' j e hs' haddr' hj hpid' howner' hprot'
  obtain ⟨s, hs, hprot, haddr⟩ := h.oldTxnSexp hs'
  obtain ⟨k, hk, hpid, howner⟩ := h.oldTxn hj
  have haddr₀ : s.addr ≠ none := by
    rw [← haddr.resolve_right haddr']
    exact haddr'
  have hprot₀ : s.prot = some e := hprot.symm.trans hprot'
  refine (stable_envGone e).tend h ?_
  rcases howner with howner | ⟨-, ⟨s₁, hs₁, hgone⟩ | ⟨e', howner, hgone⟩⟩
  · have hpid₀ : k.pid = w.pid := by rw [← hpid, hpid', h.pid]
    exact R t s k e hs haddr₀ hk hpid₀ (howner.symm.trans howner') hprot₀
  · obtain rfl : s = s₁ := Option.some.inj (hs ▸ hs₁)
    exact absurd hgone haddr₀
  · have hprot₁ := P t s k e' hs haddr₀ hk howner
    rw [hprot₀] at hprot₁
    cases hprot₁
    exact hgone

theorem Move.releases (h : Move w w') (P : w.Protects) (R : w.Releases) : w'.Releases := by
  cases h with
  | tend h => exact h.releases P R
  | newEnv => exact R
  | register => exact R
  | newEnvObject vacant addr =>
    intro t s' k e' hs' haddr' hk hpid howner hprot
    exact (Move.newEnvObject vacant addr).envGone (R t s' k e' hs' haddr' hk hpid howner hprot)
  | @newTxn t k s e vacant pid owner addr prot =>
    intro t' s' k' e' hs' haddr hk' hpid howner hprot
    rw [World.setTxnSexp_txnSexps, Function.update_apply] at hs'
    rw [World.setTxnSexp_txns, World.setTxn_txns, Function.update_apply] at hk'
    split at hs'
    · rw [if_pos ‹t' = t›] at hk'
      cases hk'
      rw [owner] at howner
      cases howner
    · rw [if_neg ‹¬ t' = t›] at hk'
      exact R t' s' k' e' hs' haddr hk' hpid howner hprot
  | @ended t k j s at_ own pid owner object =>
    intro t' s' k' e' hs' haddr hk' hpid howner hprot
    rw [World.setTxnSexp_txnSexps, Function.update_apply] at hs'
    rw [World.setTxnSexp_txns, World.setTxn_txns, Function.update_apply] at hk'
    split at hs'
    · cases hs'
      cases hprot
    · rw [if_neg ‹¬ t' = t›] at hk'
      exact R t' s' k' e' hs' haddr hk' hpid howner hprot

theorem Moves.protects (h : Moves w w') (P : w.Protects) : w'.Protects := by
  induction h with
  | refl => exact P
  | tail _ hmove ih => exact hmove.protects ih

theorem Moves.releases (h : Moves w w') (P : w.Protects) (R : w.Releases) :
    w'.Protects ∧ w'.Releases := by
  induction h with
  | refl => exact ⟨P, R⟩
  | tail _ hmove ih => exact ⟨hmove.protects ih.1, hmove.releases ih.1 ih.2⟩

/-! ### Steps -/

theorem Relinquished.protects {e : EnvRef} (R : Relinquished e w w') (P : w.Protects) :
    w'.Protects := by
  intro t s k e' hs haddr hk howner
  rw [R.txnSexps] at hs
  rcases R.txns with htxns | ⟨h, t₁, k₁, -, -, -, htxns⟩
  · rw [htxns] at hk
    exact P t s k e' hs haddr hk howner
  · rw [htxns, Function.update_apply] at hk
    split at hk
    · cases hk
      cases howner
    · exact P t s k e' hs haddr hk howner

/-- Every step keeps what active transactions protect. -/
theorem Event.protects (I : Inv v w) (event : Event) (P : w.Protects) :
    (event.next L w).Protects := by
  rcases event.effect (L := L) I with hmoves | ⟨x, -, R⟩ | ⟨child, rfl⟩
  · exact hmoves.protects P
  · exact R.protects P
  · exact P

theorem Reachable.protects (hr : Reachable L w) : w.Protects := by
  obtain ⟨lib, pid, hsteps⟩ := hr
  induction hsteps with
  | refl => exact fun t s k e hs => by cases hs
  | tail hsteps hstep ih =>
    have I : Inv { lossy := true } _ := Reachable.invariant (by simp) ⟨lib, pid, hsteps⟩
    obtain ⟨event, -, rfl⟩ := hstep
    exact event.protects I ih

/-- The event closes a panicked environment of this process while a transaction is live in it. -/
def Event.ClosesUnder (w : World σ) : Event → Prop
  | entry (.envClose (.env e)) =>
    ∃ h, w.envs e = some h ∧ h.pid = w.pid ∧ h.poisoned = true ∧ h.liveTxns ≠ []
  | _ => False

/-- One event takes `w` to `w'`, and it closes no panicked environment under a transaction. -/
def GentleStep (L : Platform σ) (w w' : World σ) : Prop :=
  ∃ event : Event, ¬ event.ClosesUnder w ∧ event.Allowed w ∧ w' = event.next L w

abbrev GentleSteps (L : Platform σ) : World σ → World σ → Prop :=
  Relation.ReflTransGen (GentleStep L)

theorem GentleSteps.steps (h : GentleSteps L w w') : Steps L w w' := by
  refine Relation.ReflTransGen.mono (fun _ _ h => ?_) _ _ h
  obtain ⟨event, -, hallowed, rfl⟩ := h
  exact ⟨event, hallowed, rfl⟩

/-- A run without closes. -/
theorem World.after_gently {events : List Event} (h : w.admits L events)
    (hcloses : ∀ event ∈ events, ∀ x, event ≠ .entry (.envClose x)) :
    GentleSteps L w (w.after L events) := by
  induction events generalizing w with
  | nil => exact .refl
  | cons event rest ih =>
    refine .head ⟨event, ?_, h.1, rfl⟩ (ih h.2 fun event h => hcloses event (by simp [h]))
    intro hunder
    rcases event with (command | object | child)
    · cases command with
      | envClose x => exact hcloses _ (by simp) x rfl
      | _ => exact hunder
    · exact hunder
    · exact hunder

theorem Relinquished.releases {e : EnvRef} (R : Relinquished e w w') (I : Inv v w)
    (hgentle : ¬ Event.ClosesUnder w (.entry (.envClose (.env e)))) (Q : w.Releases) :
    w'.Releases := by
  have hgone : ∀ {x}, w.EnvGone x → w'.EnvGone x := by
    rintro x ⟨s, hs, hnone⟩
    exact ⟨s, by rw [R.envSexps, hs], hnone⟩
  intro t s k e' hs haddr hk hpid howner hprot
  rw [R.txnSexps] at hs
  rw [R.pid] at hpid
  rcases R.txns with htxns | ⟨h, t₁, k₁, he, hpois, ht₁, htxns⟩
  · rw [htxns] at hk
    exact hgone (Q t s k e' hs haddr hk hpid howner hprot)
  · rw [htxns, Function.update_apply] at hk
    split at hk
    · -- The transaction that was detached is of another process.
      cases hk
      obtain ⟨h₀, he₀, -, hpid₀, -⟩ := I.graph.owner ht₁.at_ ht₁.owner
      obtain rfl : h = h₀ := Option.some.inj (he ▸ he₀)
      refine absurd ⟨h, he, hpid₀.trans hpid, hpois, ?_⟩ hgentle
      exact List.ne_nil_of_mem ((I.graph.live he t₁).mpr ⟨k₁, ht₁.at_, ht₁.owner⟩)
    · exact hgone (Q t s k e' hs haddr hk hpid howner hprot)

theorem GentleStep.releases (I : Inv v w) (P : w.Protects) (R : w.Releases)
    (h : GentleStep L w w') : w'.Releases := by
  obtain ⟨event, hgentle, hallowed, rfl⟩ := h
  rcases event.effect (L := L) I with hmoves | ⟨x, rfl, Q⟩ | ⟨child, rfl⟩
  · exact (hmoves.releases P R).2
  · exact Q.releases I hgentle R
  · -- A child has begun no transaction yet.
    intro t s k e hs haddr hk hpid
    have hmem := I.fresh.txnPid (k := k) hk
    rw [show k.pid = child from hpid] at hmem
    exact absurd hmem hallowed

theorem GentleSteps.releases {lib : σ} {pid : Pid} (h : GentleSteps L (World.start lib pid) w) :
    w.Releases := by
  induction h with
  | refl => exact fun t s k e hs => by cases hs
  | tail hsteps hstep ih =>
    have hr : Reachable L _ := ⟨lib, pid, GentleSteps.steps hsteps⟩
    have I : Inv { lossy := true } _ := hr.invariant (by simp)
    exact hstep.releases I hr.protects ih

/-! ### Every run -/

/-- In a run that closes no panicked environment under a transaction, the object of a transaction
protects its environment's if and only if the transaction is active, and otherwise nothing. -/
theorem protected_iff_active {lib : σ} {pid : Pid}
    (hrun : GentleSteps L (World.start lib pid) w) {t : TxnRef} {s : TxnSexp} {k : TxnHandle}
    (hs : w.Keeps t s) (ht : w.txns t = some k) (hpid : k.pid = w.pid) :
    (∀ e, Begun w.log k.pid ⟨e, t⟩ → (s.prot = some e ↔ k.state = .active)) ∧
      (s.prot ≠ none ↔ k.state = .active) := by
  have hr : Reachable L w := ⟨lib, pid, GentleSteps.steps hrun⟩
  have I : Inv { lossy := true } w := hr.invariant (by simp)
  cases howner : k.owner with
  | none =>
    have hended : k.state ≠ .active := fun hactive => by
      have := (I.graph.state ht).mp hactive
      simp [howner] at this
    have hprot : s.prot = none := by
      refine Option.eq_none_iff_forall_ne_some.mpr fun e he => ?_
      exact hs.prot e he (hrun.releases t s k e hs.at_ hs.addr ht hpid howner he)
    simp [hprot, hended]
  | some e =>
    have hactive : k.state = .active := (I.graph.state ht).mpr (by simp [howner])
    have hprot := hr.protects t s k e hs.at_ hs.addr ht howner
    refine ⟨fun e' hb => ?_, by simp [hprot, hactive]⟩
    rw [I.owner_of_begun ht hb howner] at hprot
    simp [hprot, hactive]

/-- The object of a transaction that was committed protects nothing. -/
theorem protected_iff_active_openAndCommit :
    ∃ s k, ((World.start () 1).after obliging openAndCommit).Keeps 1 s ∧
      ((World.start () 1).after obliging openAndCommit).txns 1 = some k ∧ k.state = .committed ∧
      (s.prot ≠ none ↔ k.state = .active) := by
  have hrun : GentleSteps obliging (World.start () 1)
      ((World.start () 1).after obliging openAndCommit) :=
    World.after_gently (by decide +kernel) (by simp [openAndCommit, openAndBegin])
  have hs : ((World.start () 1).after obliging openAndCommit).txnSexps 1
      = some ⟨some 1, none, true, "db"⟩ := by
    decide +kernel
  have ht : ((World.start () 1).after obliging openAndCommit).txns 1
      = some ⟨none, none, .committed, true, false, 1, 0, 0, false, []⟩ := by
    decide +kernel
  have hkeeps : ((World.start () 1).after obliging openAndCommit).Keeps 1
      ⟨some 1, none, true, "db"⟩ := ⟨hs, by simp, by simp⟩
  exact ⟨_, _, hkeeps, ht, rfl,
    (protected_iff_active hrun hkeeps ht (by decide +kernel)).2⟩

/-- A run whose abort panics, so that the environment is closed under the transaction. -/
def openAndCloseUnder : List Event :=
  openAndBegin ++ [.entry (.txnAbort (.txn 1)), .entry (.envClose (.env 0))]

/-- The transaction has ended, and its object, which R still has, holds the environment's. -/
theorem closed_under_holds :
    (World.start () 1).admits abortPanics openAndCloseUnder ∧
      ∃ s k, ((World.start () 1).after abortPanics openAndCloseUnder).Keeps 1 s ∧
        ((World.start () 1).after abortPanics openAndCloseUnder).txns 1 = some k ∧
        k.pid = ((World.start () 1).after abortPanics openAndCloseUnder).pid ∧
        Begun ((World.start () 1).after abortPanics openAndCloseUnder).log k.pid ⟨0, 1⟩ ∧
        k.state = .aborted ∧ s.prot = some 0 := by
  have hs : ((World.start () 1).after abortPanics openAndCloseUnder).txnSexps 1
      = some ⟨some 1, some 0, true, "db"⟩ := by
    decide +kernel
  have henv : ((World.start () 1).after abortPanics openAndCloseUnder).envSexps 0
      = some ⟨some 0, "db", false, true⟩ := by
    decide +kernel
  have ht : ((World.start () 1).after abortPanics openAndCloseUnder).txns 1
      = some ⟨none, none, .aborted, true, true, 1, 0, 0, false, []⟩ := by
    decide +kernel
  refine ⟨by decide +kernel, _, _, ⟨hs, by simp, ?_⟩, ht, by decide +kernel, ?_, rfl, rfl⟩
  · rintro x hx ⟨s, hs', hgone⟩
    cases hx
    rw [henv] at hs'
    cases hs'
    cases hgone
  · exact ⟨⟨1, .txnBegin ⟨0, 1⟩ 0, .returned 0⟩, by decide +kernel, rfl, ⟨0, rfl⟩, rfl⟩

end Mdbx
