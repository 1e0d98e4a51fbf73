import Mdbx.Registry

/-! Where native objects are kept: each one that libmdbx still has is held by one handle or by one
entry of `abandoned`, as long as no close panics and no abort of a finalizer reports a thread
mismatch. -/

namespace Mdbx

open ProofKit

variable {σ : Type} {w : World σ}

namespace World

/-- The handle `r` holds the environment `e`. -/
def HoldsEnv (w : World σ) (r : EnvRef) (e : EnvPtr) : Prop :=
  ∃ h, w.envs r = some h ∧ h.env = some e

/-- The handle `r` holds the transaction `t`. -/
def HoldsTxn (w : World σ) (r : TxnRef) (t : TxnPtr) : Prop :=
  ∃ k, w.txns r = some k ∧ k.txn = some t

/-- `e` is referenced from exactly one place. -/
def KeepsEnv (w : World σ) (e : EnvPtr) : Prop :=
  (∃! r, w.HoldsEnv r e) ∧ w.abandoned.count (.env e) = 0 ∨
    (∀ r, ¬ w.HoldsEnv r e) ∧ w.abandoned.count (.env e) = 1

/-- `t` is referenced from exactly one place. -/
def KeepsTxn (w : World σ) (t : TxnPtr) : Prop :=
  (∃! r, w.HoldsTxn r t) ∧ w.abandoned.count (.txn t) = 0 ∨
    (∀ r, ¬ w.HoldsTxn r t) ∧ w.abandoned.count (.txn t) = 1

end World

theorem Graph.holdsEnv (G : Graph w) {r : EnvRef} {e : EnvPtr} (hr : w.HoldsEnv r e) : r = e := by
  obtain ⟨h, he, henv⟩ := hr
  exact (G.env he henv).symm

theorem Graph.holdsTxn (G : Graph w) {r : TxnRef} {t : TxnPtr} (hr : w.HoldsTxn r t) :
    r = t.id ∧ ∃ k, w.txns r = some k ∧ k.owner = some t.env := by
  obtain ⟨k, hk, htxn⟩ := hr
  rw [G.txn hk, Option.map_eq_some_iff] at htxn
  obtain ⟨e, howner, rfl⟩ := htxn
  exact ⟨rfl, k, hk, howner⟩

/-- An environment that libmdbx has handed out is in one place until a close was asked for. -/
theorem Inv.keepsEnv (I : Inv {} w) {pid : Pid} {e : EnvPtr} (hcreated : Created w.log pid e)
    (hopen : ¬ Closed w.log e) (hpanic : ¬ ClosePanicked w.log e) : w.KeepsEnv e := by
  have honce := I.conserved.envOnce e
  by_cases hheld : w.HoldsEnv e e
  · refine .inl ⟨⟨e, hheld, fun r hr => I.graph.holdsEnv hr⟩, ?_⟩
    obtain ⟨h, he, henv⟩ := hheld
    exact List.count_eq_zero.mpr (I.conserved.envHeld he henv)
  · refine .inr ⟨fun r hr => ?_, ?_⟩
    · have := I.graph.holdsEnv hr
      subst this
      exact hheld hr
    · rcases I.conserved.envKept hcreated hopen hpanic with hh | hmem
      · exact absurd hh hheld
      · have := List.count_pos_iff.mpr hmem
        omega

/-- A transaction that libmdbx has begun is in one place until it is released. -/
theorem Inv.keepsTxn (I : Inv {} w) {pid : Pid} {t : TxnPtr} (hbegun : Begun w.log pid t)
    (hlive : ¬ Released w.log t) : w.KeepsTxn t := by
  obtain ⟨e, t⟩ := t
  have honce := I.conserved.txnOnce ⟨e, t⟩
  by_cases hheld : ∃ k, w.txns t = some k ∧ k.owner = some e
  · obtain ⟨k, hk, howner⟩ := hheld
    have hself : w.HoldsTxn t ⟨e, t⟩ := ⟨k, hk, I.graph.txnPtr ⟨hk, howner⟩⟩
    refine .inl ⟨⟨t, hself, fun r hr => (I.graph.holdsTxn hr).1⟩, ?_⟩
    exact List.count_eq_zero.mpr (I.conserved.txnHeld hk howner (by simp))
  · refine .inr ⟨fun r hr => ?_, ?_⟩
    · obtain ⟨rfl, hk⟩ := I.graph.holdsTxn hr
      exact hheld hk
    · rcases I.conserved.txnKept hbegun hlive (by simp) (by simp) with hh | hmem
      · exact absurd hh hheld
      · have := List.count_pos_iff.mpr hmem
        omega

/-- The closes of a trace, as a library makes them that never panics in one. -/
def ClosesReturn (log : List Call) : Prop :=
  ∀ c ∈ log, ∀ e, c.call = .envClose e → c.outcome ≠ .panicked

/-- In every run in which no close panics and no abort of a finalizer reports a thread mismatch,
each environment that is not closed and each transaction that is not ended is referenced from
exactly one place, and nothing is recorded twice. -/
theorem Reachable.conserved {L : Platform σ} (hL : L.Allocates) (hr : Reachable L w)
    (hclose : ClosesReturn w.log) (hend : TeardownsEnd w.log) :
    (∀ pid e, Created w.log pid e → ¬ Closed w.log e → w.KeepsEnv e) ∧
      (∀ pid t, Begun w.log pid t → ¬ Ended w.log t → w.KeepsTxn t) ∧
      (∀ e, w.abandoned.count (.env e) ≤ 1) ∧ ∀ t, w.abandoned.count (.txn t) ≤ 1 := by
  have I := hr.inv hL
  refine ⟨fun pid e hc hopen => ?_, fun pid t hb hlive => ?_, I.conserved.envOnce,
    I.conserved.txnOnce⟩
  · refine I.keepsEnv hc hopen ?_
    rintro ⟨c, hmem, hcall, ho⟩
    exact hclose c hmem _ hcall ho
  · exact I.keepsTxn hb fun hrel => hlive (hrel.ended hend)

theorem Reachable.conserved_openAndBegin :
    ((World.start () 1).after obliging openAndBegin).KeepsTxn ⟨0, 1⟩ := by
  have hr : Reachable obliging ((World.start () 1).after obliging openAndBegin) :=
    ⟨(), 1, World.after_steps (by decide +kernel)⟩
  have hlog : ((World.start () 1).after obliging openAndBegin).log =
      [⟨1, .txnBegin ⟨0, 1⟩ 0, .returned 0⟩, ⟨1, .envHeapRoots 0, .returned 0⟩,
        ⟨1, .envGetFlags 0, .returned 0⟩, ⟨1, .envOpen 0 "db" 0 0, .returned 0⟩,
        ⟨1, .envCreate 0, .returned 0⟩] := by
    decide +kernel
  refine (Reachable.conserved (Platform.scripted_allocates _) hr ?_ ?_).2.1 1 _ ?_ ?_
  all_goals rw [hlog]
  · simp [ClosesReturn]
  · simp [TeardownsEnd]
  · simp [Begun, Call.Begins, Status.success]
  · simp [Ended, Call.Ends, NativeCall.finishes]

/-! ### A close that panics -/

/-- A library whose `mdbx_env_close` panics. -/
abbrev closePanics : Platform Unit := .scripted fun
  | .envClose _ => none
  | _ => some Status.success

/-- Open an environment and close it. -/
def openThenClose : List Event :=
  [.entry (.envOpen "db" "key" false true (.ofNat 0) (.ofNat 0) (.ofNat 0) 0 []),
    .entry (.envClose (.env 0))]

/-- After it the environment is neither closed nor kept anywhere. -/
theorem close_panic_drops_environment :
    closePanics.Allocates ∧
      Reachable closePanics ((World.start () 1).after closePanics openThenClose) ∧
      Created ((World.start () 1).after closePanics openThenClose).log 1 0 ∧
      ¬ Closed ((World.start () 1).after closePanics openThenClose).log 0 ∧
      ¬ ((World.start () 1).after closePanics openThenClose).KeepsEnv 0 := by
  have hlog : ((World.start () 1).after closePanics openThenClose).log =
      [⟨1, .envClose 0, .panicked⟩, ⟨1, .envHeapRoots 0, .returned 0⟩,
        ⟨1, .envGetFlags 0, .returned 0⟩, ⟨1, .envOpen 0 "db" 0 0, .returned 0⟩,
        ⟨1, .envCreate 0, .returned 0⟩] := by
    decide +kernel
  have habandoned : ((World.start () 1).after closePanics openThenClose).abandoned = [] := by
    decide +kernel
  have hhandle : ((World.start () 1).after closePanics openThenClose).envs 0
      = some ⟨none, true, 1, "key", "db", [], (none, none)⟩ := by
    decide +kernel
  have hr : Reachable closePanics ((World.start () 1).after closePanics openThenClose) :=
    ⟨(), 1, World.after_steps (by decide +kernel)⟩
  refine ⟨Platform.scripted_allocates _, hr, ?_, ?_, ?_⟩
  · rw [hlog]
    simp [Created, Call.Creates, Status.success]
  · rw [hlog]
    simp [Closed, Call.Closes]
  · rintro (⟨⟨r, hheld, -⟩, -⟩ | ⟨-, hcount⟩)
    · obtain rfl := (hr.inv (Platform.scripted_allocates _)).graph.holdsEnv hheld
      obtain ⟨h, hh, henv⟩ := hheld
      rw [hhandle] at hh
      cases hh
      cases henv
    · rw [habandoned] at hcount
      cases hcount

end Mdbx
