import Mdbx.Execution

/-! The invariant under the steps that the package's functions are made of. -/

namespace Mdbx

open ProofKit

variable {σ : Type} {w w₀ : World σ} {v : Waived} {may : NativeCall → Prop}

/-- The handle of an environment that this process may use. -/
structure OpenEnv (w : World σ) (e : EnvRef) (h : EnvHandle) : Prop where
  at_ : w.envs e = some h
  env : h.env = some e
  healthy : h.poisoned = false
  pid : h.pid = w.pid

/-- The handle of a live transaction of the environment `e`. -/
structure LiveTxn (w : World σ) (e : EnvRef) (t : TxnRef) (k : TxnHandle) : Prop where
  at_ : w.txns t = some k
  owner : k.owner = some e

/-- A call that panicked has panicked in its environment. -/
theorem World.called_panicked {c : NativeCall} {e : EnvPtr} (hc : c.group = some e) (w : World σ)
    (lib : σ) : Panicked (w.called c lib .panicked).log e :=
  (panicked_cons _ _ _).mpr (.inl ⟨hc, rfl⟩)

namespace Inv

theorem envUsable (I : Inv v w) {e : EnvRef} {h : EnvHandle} (he : OpenEnv w e h)
    (hv : v.poison ≠ some e) : EnvUsable w.log w.pid e :=
  ⟨he.pid ▸ I.traced.created he.at_ he.env, I.traced.notClosed he.at_ he.env,
    I.traced.healthy he.at_ he.env he.healthy hv⟩

theorem txnUsable (I : Inv v w) {e : EnvRef} {h : EnvHandle} {t : TxnRef} {k : TxnHandle}
    (he : OpenEnv w e h) (ht : LiveTxn w e t k) (hv : v.poison ≠ some e)
    (hend : v.ending ≠ some t) : TxnUsable w.log w.pid ⟨e, t⟩ := by
  refine ⟨I.envUsable he hv, ?_, I.traced.notEnded ht.at_ ht.owner hend⟩
  obtain ⟨g, he', -, hpid, -⟩ := I.graph.owner ht.at_ ht.owner
  have : g = h := by rw [he.at_] at he'; exact (Option.some.inj he').symm
  have := I.traced.begun ht.at_ ht.owner
  rwa [← hpid, ‹g = h›, he.pid] at this

end Inv

namespace Sound

variable (S : Sound may w₀ v w)
include S

/-- Any call that is permitted, as long as the handles it concerns are waived. -/
theorem called {c : NativeCall} {lib : σ} {o : Outcome} (hbelow : c.Below w.next)
    (hperm : Permitted w.log ⟨w.pid, c, o⟩)
    (halone : v.lossy = false → AlonePermitted w.log ⟨w.pid, c, o⟩)
    (hnew : NumberUnused w.log ⟨w.pid, c, o⟩) (hclose : ∀ e, c ≠ .envClose e)
    (hcreates : ∀ pid e, ¬ Call.Creates ⟨w.pid, c, o⟩ pid e)
    (hbegins : ∀ pid t, Call.Begins ⟨w.pid, c, o⟩ pid t → v.begun = some t)
    (hpanics : ∀ e, Call.Panics ⟨w.pid, c, o⟩ e → v.poison = some e)
    (hends : ∀ t, Call.Ends ⟨w.pid, c, o⟩ t → v.ending = some t.id ∧ ∃ k, w.txns t.id = some k)
    (hcommits : ∀ t, Call.Commits ⟨w.pid, c, o⟩ t → v.ending = some t.id)
    (htears : ∀ t, Call.TearsDown ⟨w.pid, c, o⟩ t → v.ending = some t.id ∧
      ∃ k, w.txns t.id = some k)
    (hmay : c.reserved = true → may c) :
    Sound may w₀ v (w.called c lib o) where
  inv :=
    { fresh := S.inv.fresh.called hbelow lib o
      graph := { S.inv.graph with }
      traced := S.inv.traced.called (fun e h => hclose e h.1) hpanics
        (fun t h => (hends t h).1) hcommits fun t h => (htears t h).1
      conserved := S.inv.conserved.called hcreates hbegins
      safe := ⟨hperm, halone, hnew, S.inv.safe⟩ }
  later := S.later.called hmay fun t h => h.elim (fun h => (hends t h).2) fun h => (htears t h).2

/-- A call that neither creates nor ends a native object. -/
theorem plainCall {c : NativeCall} (hc : c.plain = true) (hbelow : c.Below w.next)
    {lib : σ} {o : Outcome} (hperm : Permitted w.log ⟨w.pid, c, o⟩)
    (halone : v.lossy = false → AlonePermitted w.log ⟨w.pid, c, o⟩)
    (ho : o = .panicked → ∀ e, c.group = some e → v.poison = some e) :
    Sound may w₀ v (w.called c lib o) :=
  S.called hbelow hperm halone (numberUnused_of_plain hc _)
    (fun e h => by simp [h, NativeCall.plain] at hc)
    (fun pid e => Call.not_creates_of_plain hc pid e)
    (fun pid t h => absurd h (Call.not_begins_of_plain hc pid t))
    (fun e h => ho h.2 e h.1)
    (fun t h => absurd h (Call.not_ends_of_plain hc t))
    (fun t h => absurd h (Call.not_commits_of_plain hc t))
    (fun t h => absurd h (Call.not_tearsDown_of_plain hc t))
    (fun h => by cases c <;> simp_all [NativeCall.plain, NativeCall.reserved])

/-- Assign to fields of an environment that no invariant mentions. -/
theorem setEnv {e : EnvRef} {h g : EnvHandle} (he : w.envs e = some h)
    (henv : g.env = h.env) (hpid : g.pid = h.pid) (hlive : g.liveTxns = h.liveTxns)
    (hpois : g.poisoned = h.poisoned) (hkey : g.key = h.key ∨ e ∉ w.openEnvs) :
    Sound may w₀ v (w.setEnv e (some g)) where
  inv :=
    { fresh := S.inv.fresh.setEnv he hpid
      graph := S.inv.graph.setEnv he henv hpid hlive (by simp [hpois]) hkey
      traced := S.inv.traced.setEnv he (.inl henv) hpid hpois
      conserved := S.inv.conserved.setEnv he henv hpid (by simp [hpois])
      safe := S.inv.safe }
  later := S.later.setEnv fun _ => ⟨h, he, hpid, by simp [henv], by simp [hpois],
    fun hopen => hkey.resolve_right (not_not.mpr hopen)⟩

/-- Assign to fields of a transaction that no invariant mentions. -/
theorem setTxn {t : TxnRef} {k j : TxnHandle} (ht : w.txns t = some k)
    (htxn : j.txn = k.txn) (howner : j.owner = k.owner) (hstate : j.state = k.state)
    (hpid : j.pid = k.pid) (hpois : j.poisoned = k.poisoned) (hwrite : j.write = k.write) :
    Sound may w₀ v (w.setTxn t (some j)) where
  inv :=
    { fresh := S.inv.fresh.setTxn (S.inv.fresh.txn ht) (hpid ▸ S.inv.fresh.txnPid ht)
      graph := S.inv.graph.setTxn ht htxn howner hstate hpid (.inl hpois)
      traced := S.inv.traced.setTxn ht howner hstate hpid
      conserved := S.inv.conserved.setTxn ht howner
      safe := S.inv.safe }
  later := S.later.setTxn fun _ => ⟨k, ht, hpid, hwrite, fun _ => hstate⟩

/-- A change of the library's state alone. -/
theorem setLib (lib : σ) : Sound may w₀ v { w with lib := lib } where
  inv :=
    { fresh := { S.inv.fresh with }
      graph := { S.inv.graph with }
      traced := { S.inv.traced with }
      conserved := { S.inv.conserved with }
      safe := S.inv.safe }
  later := { S.later with }

omit S in
/-- The poison callback of an environment. -/
theorem poisonEnv {e : EnvRef} {h : EnvHandle}
    (S : Sound may w₀ { v with poison := some e } w) (he : w.envs e = some h)
    (hpanicked : h.env = some e → Panicked w.log e) :
    Sound may w₀ v (w.setEnv e (some { h with poisoned := true })) where
  inv :=
    { fresh := S.inv.fresh.setEnv he rfl
      graph := S.inv.graph.setEnv he rfl rfl rfl (fun _ => rfl) (.inl rfl)
      traced := S.inv.traced.poisonEnv he hpanicked
      conserved := S.inv.conserved.unwaivePoison.setEnv he rfl rfl fun _ => rfl
      safe := S.inv.safe }
  later := S.later.setEnv fun _ => ⟨h, he, rfl, id, fun _ => rfl, fun _ => rfl⟩

omit S in
/-- The poison callback of a transaction. -/
theorem poisonTxn {e : EnvRef} {h : EnvHandle} {t : TxnRef} {k : TxnHandle}
    (S : Sound may w₀ { v with poison := some e } w) (he : w.envs e = some h)
    (ht : LiveTxn w e t k) (hpanicked : Panicked w.log e) :
    Sound may w₀ v ((w.setEnv e (some { h with poisoned := true })).setTxn t
      (some { k with poisoned := true })) :=
  have S' := S.poisonEnv he fun _ => hpanicked
  have ht' : (w.setEnv e (some { h with poisoned := true })).txns t = some k := ht.at_
  { inv :=
      { fresh := S'.inv.fresh.setTxn (S'.inv.fresh.txn ht') (S'.inv.fresh.txnPid (k := k) ht')
        graph := S'.inv.graph.setTxn ht' rfl rfl rfl rfl (.inr fun e' g howner he' => by
          obtain rfl : e = e' := Option.some.inj (ht.owner ▸ howner)
          simp at he'
          simp [← he'])
        traced := S'.inv.traced.setTxn ht' rfl rfl rfl
        conserved := S'.inv.conserved.setTxn ht' rfl
        safe := S'.inv.safe }
    later := S'.later.setTxn fun _ => ⟨k, ht', rfl, rfl, fun _ => rfl⟩ }

theorem waivePoison (hv : v.poison = none) (e : EnvRef) :
    Sound may w₀ { v with poison := some e } w where
  inv :=
    { fresh := S.inv.fresh
      graph := S.inv.graph
      traced := S.inv.traced.waivePoison hv _
      conserved := S.inv.conserved.waivePoison _
      safe := S.inv.safe }
  later := S.later

omit S in
theorem unwaivePoison {e : EnvRef} (S : Sound may w₀ { v with poison := some e } w)
    (he : ¬ Panicked w.log e) : Sound may w₀ v w where
  inv :=
    { fresh := S.inv.fresh
      graph := S.inv.graph
      traced := S.inv.traced.unwaivePoison he
      conserved := S.inv.conserved.unwaivePoison
      safe := S.inv.safe }
  later := S.later

theorem waiveEnding (hv : v.ending = none) (t : TxnRef) :
    Sound may w₀ { v with ending := some t } w where
  inv :=
    { fresh := S.inv.fresh
      graph := S.inv.graph
      traced :=
        { S.inv.traced with
          notEnded := fun ht hk _ => S.inv.traced.notEnded ht hk (by simp [hv])
          notTornDown := fun ht hk _ => S.inv.traced.notTornDown ht hk (by simp [hv])
          committed := fun ht _ => S.inv.traced.committed ht (by simp [hv]) }
      conserved := S.inv.conserved.waiveEnding hv _
      safe := S.inv.safe }
  later := S.later

/-- A call on an environment, or on a live transaction of it, is permitted. -/
theorem permitted {e : EnvRef} {h : EnvHandle} (he : OpenEnv w e h) (hv : v.poison ≠ some e)
    {c : NativeCall} {o : Outcome} (henv : ∀ e', c.env? = some e' → e' = e)
    (htxn : ∀ p, c.txn? = some p → p.env = e ∧ v.ending ≠ some p.id ∧ ∃ k, LiveTxn w e p.id k) :
    Permitted w.log ⟨w.pid, c, o⟩ := by
  refine ⟨fun e' he' => ?_, fun p hp => ?_⟩
  · exact henv e' he' ▸ S.inv.envUsable he hv
  · obtain ⟨rfl, hend, k, hk⟩ := htxn p hp
    exact S.inv.txnUsable he hk hv hend

/-- Its numbers are in use. -/
theorem below {e : EnvRef} {h : EnvHandle} (he : w.envs e = some h) {c : NativeCall}
    (henv : ∀ e', c.env? = some e' → e' = e)
    (htxn : ∀ p, c.txn? = some p → p.env = e ∧ ∃ k, LiveTxn w e p.id k)
    (hcreate : ∀ e, c ≠ .envCreate e) (hbegin : ∀ t flags, c ≠ .txnBegin t flags) :
    c.Below w.next := by
  have hlt := S.inv.fresh.env he
  refine ⟨fun e h => absurd h (hcreate e), fun e' he' => henv e' he' ▸ hlt, fun p hp => ?_,
    fun t flags h => absurd h (hbegin t flags)⟩
  obtain ⟨rfl, k, hk⟩ := htxn p hp
  exact ⟨hlt, S.inv.fresh.txn hk.at_⟩

/-- What `record_heap_roots` leaves. -/
theorem refreshed {e : EnvRef} {h : EnvHandle} {w' : World σ} (hr : Refreshed e h w w')
    (he : w.envs e = some h) (hv : v.poison ≠ some e) : Sound may w₀ v w' := by
  cases hr with
  | same => exact S
  | asked lib rc roots henv hhealthy hpid =>
    have hopen : OpenEnv w e h := ⟨he, henv, hhealthy, hpid⟩
    have S' : Sound may w₀ v (w.called (.envHeapRoots e) lib (.returned rc)) :=
      S.plainCall rfl
        (S.below he (by simp [NativeCall.env?]) (by simp [NativeCall.txn?]) (by simp) (by simp))
        (S.permitted hopen hv (by simp [NativeCall.env?]) (by simp [NativeCall.txn?]))
        (alonePermitted_of rfl _) (by simp)
    exact S'.setEnv (h := h) he rfl rfl rfl rfl (.inl rfl)

omit S in
/-- Detach a transaction that has ended, or that is kept in `abandoned`. -/
theorem detached {e : EnvRef} {h : EnvHandle} {t : TxnRef} {k : TxnHandle} {state : TxnState}
    (S : Sound may w₀ { v with ending := some t } w) (he : w.envs e = some h)
    (ht : LiveTxn w e t k) (hactive : state ≠ .active)
    (hstate : state = .committed ↔ ∃ e, Committed w.log ⟨e, t⟩)
    (hgone : Released w.log ⟨e, t⟩ ∨ .txn ⟨e, t⟩ ∈ w.abandoned) :
    Sound may w₀ v (w.detached t k e h state) := by
  have hwas : k.state = .active := (S.inv.graph.state ht.at_).mpr (by simp [ht.owner])
  have he' : (w.setTxn t (some (k.finished state))).envs e = some h := he
  have hpid : (k.finished state).pid ∈ w.pid :: w.forebears :=
    S.inv.fresh.txnPid (k := k) ht.at_
  refine ⟨⟨?_, S.inv.graph.detachTxn he ht.at_ ht.owner hactive, ?_, ?_, S.inv.safe⟩, ?_⟩
  · exact (S.inv.fresh.setTxn (S.inv.fresh.txn ht.at_) hpid).setEnv he' rfl
  · exact (S.inv.traced.detachTxn (k := k) ht.at_ hstate).setEnv he' (.inl rfl) rfl rfl
  · exact (S.inv.conserved.detachTxn ht.at_ ht.owner rfl hgone).setEnv he' rfl rfl id
  · have hlater : Later may w₀ (w.setTxn t (some (k.finished state))) :=
      S.later.setTxn fun _ => ⟨k, ht.at_, rfl, rfl, fun h => absurd hwas h⟩
    exact hlater.setEnv fun _ => ⟨h, he', rfl, id, id, fun _ => rfl⟩

/-- Keep a transaction in `abandoned` whose environment is poisoned or from another process. -/
theorem giveUpTxn {e : EnvRef} {h : EnvHandle} {t : TxnRef} {k : TxnHandle}
    (hv : v.ending = none) (he : w.envs e = some h) (ht : LiveTxn w e t k)
    (hunusable : h.poisoned = true ∨ h.pid ≠ w.pid) :
    Sound may w₀ { v with ending := some t }
      { w with abandoned := w.abandoned ++ [.txn ⟨e, t⟩] } := by
  have S' := S.waiveEnding hv t
  have hlt : (Abandoned.txn ⟨e, t⟩).Below w.next :=
    ⟨S.inv.fresh.env he, S.inv.fresh.txn ht.at_⟩
  refine ⟨⟨S.inv.fresh.abandon (by simpa using hlt), { S.inv.graph with },
    { S'.inv.traced with }, ?_, S.inv.safe⟩, { S.later with }⟩
  refine S'.inv.conserved.giveUpTxn (S.inv.conserved.txnHeld ht.at_ ht.owner (by simp [hv])) ?_
  intro g he' _
  rw [he] at he'
  cases he'
  exact hunusable

end Sound

end Mdbx
