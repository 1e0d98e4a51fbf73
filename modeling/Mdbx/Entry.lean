import Mdbx.Teardown

/-! The entry points keep the invariant: first the rules for guarded bodies and for the steps
around them, then the entry points that work inside a transaction or on an open environment. -/

namespace Mdbx

open ProofKit

variable {σ α β : Type} {lossy : Bool} {may : NativeCall → Prop} {w₀ : World σ}

/-- The open environment `e` and, if `t` names one, its live transaction. -/
structure Usable (e : EnvRef) (t : Option TxnRef) (w : World σ) : Prop where
  env : ∃ h, OpenEnv w e h
  txn : ∀ {t'}, t = some t' → ∃ k, LiveTxn w e t' k

def IsStop (x : Exit) : Prop := ∃ c, x = .stop c

def IsPanic (x : Exit) : Prop := ∃ info, x = .panic info

/-- How an entry point leaves if it does not return: by a raised condition, or past the C++ frames
where R may fail to allocate. -/
def Leaves (lossy : Bool) (x : Exit) : Prop := IsStop x ∨ lossy = true ∧ x = .longjmp

theorem Leaves.stop (c : Condition) : Leaves lossy (.stop c) := .inl ⟨c, rfl⟩

/-- A body below the guard: it leaves by a panic in `e` if at all, which waits for its poison
callback. -/
def Body (lossy : Bool) (may : NativeCall → Prop) (w₀ : World σ) (e : EnvRef) (t : Option TxnRef)
    (m : Pkg σ α) : Prop :=
  Keeps (fun w => Sound may w₀ { lossy, poison := some e } w ∧ Usable e t w)
    (fun x w => IsPanic x ∧ Panicked w.log e) (fun w => ¬ Panicked w.log e) m

/-- Code around the guard that uses `e` and `t`; it leaves by a raised condition. -/
def Using (lossy : Bool) (may : NativeCall → Prop) (w₀ : World σ) (e : EnvRef) (t : Option TxnRef)
    (m : Pkg σ α) : Prop :=
  Keeps (Sound may w₀ { lossy }) (fun x _ => IsStop x) (Usable e t) m

/-- Code that keeps the invariant wherever it starts. -/
def Entry (lossy : Bool) (may : NativeCall → Prop) (w₀ : World σ) (m : Pkg σ α) : Prop :=
  Keeps (Sound may w₀ { lossy }) (fun x _ => Leaves lossy x) (fun _ => True) m

/-! ### Usable handles -/

section Usable

variable {e : EnvRef} {t : Option TxnRef} {w : World σ}

theorem Usable.called (U : Usable e t w) (c : NativeCall) (lib : σ) (o : Outcome) :
    Usable e t (w.called c lib o) where
  env := U.env.imp fun _ h => ⟨h.at_, h.env, h.healthy, h.pid⟩
  txn ht := (U.txn ht).imp fun _ h => ⟨h.at_, h.owner⟩

theorem Usable.setLib (U : Usable e t w) (lib : σ) : Usable e t { w with lib := lib } where
  env := U.env.imp fun _ h => ⟨h.at_, h.env, h.healthy, h.pid⟩
  txn ht := (U.txn ht).imp fun _ h => ⟨h.at_, h.owner⟩

theorem Usable.setTxn (U : Usable e t w) {t' : TxnRef} {k j : TxnHandle}
    (ht : w.txns t' = some k) (howner : j.owner = k.owner) : Usable e t (w.setTxn t' (some j)) where
  env := U.env.imp fun _ h => ⟨h.at_, h.env, h.healthy, h.pid⟩
  txn {t''} hsome := by
    obtain ⟨k', hk', howner'⟩ := U.txn hsome
    by_cases heq : t'' = t'
    · subst heq
      rw [ht] at hk'
      cases hk'
      exact ⟨j, by simp, howner.trans howner'⟩
    · exact ⟨k', by simpa [heq] using hk', howner'⟩

theorem Usable.healthy (U : Usable e t w) (S : Sound may w₀ { lossy } w) :
    ¬ Panicked w.log e := by
  obtain ⟨h, he⟩ := U.env
  exact S.inv.traced.healthy he.at_ he.env he.healthy (by simp)

/-- The native pointer of a live transaction. -/
theorem Graph.txnPtr (G : Graph w) {t : TxnRef} {k : TxnHandle} (ht : LiveTxn w e t k) :
    k.txn = some ⟨e, t⟩ := by
  rw [G.txn ht.at_, ht.owner]
  rfl

end Usable

/-! ### Below the guard -/

namespace Body

variable {e : EnvRef} {t : Option TxnRef} {m : Pkg σ α} {f : α → Pkg σ β}

theorem pure (a : α) : Body lossy may w₀ e t (pure a : Pkg σ α) := Keeps.pure a

theorem bind (hm : Body lossy may w₀ e t m) (hf : ∀ a, Body lossy may w₀ e t (f a)) :
    Body lossy may w₀ e t (m >>= f) := Keeps.bind hm hf

theorem ite {c : Prop} [Decidable c] {m' : Pkg σ α} (hm : Body lossy may w₀ e t m)
    (hm' : Body lossy may w₀ e t m') : Body lossy may w₀ e t (if c then m else m') :=
  Keeps.ite (fun _ => hm) fun _ => hm'

variable (L : Platform σ)

/-- A call on the environment, or on the transaction, that neither creates nor ends anything. -/
theorem native {c : NativeCall} (hc : c.plain = true) (halone : c.alone? = none)
    (henv : ∀ e', c.env? = some e' → e' = e)
    (htxn : ∀ p, c.txn? = some p → p.env = e ∧ t = some p.id) :
    Body lossy may w₀ e t (native L c) := by
  rintro w ⟨S, U⟩ hhealthy
  obtain ⟨h, he⟩ := U.env
  have hlive : ∀ p, c.txn? = some p → p.env = e ∧ ∃ k, LiveTxn w e p.id k := fun p hp =>
    ⟨(htxn p hp).1, U.txn (htxn p hp).2⟩
  have hbelow : c.Below w.next := S.below he.at_ henv hlive
    (fun e h => by simp [h, NativeCall.plain] at hc)
    (fun t flags h => by simp [h, NativeCall.plain] at hc)
  have hgroup : ∀ e', c.group = some e' → e' = e := by
    intro e' h
    unfold NativeCall.group at h
    split at h
    · cases h
      exact henv _ ‹_›
    · cases h
      exact (htxn _ ‹_›).1
    · cases h
  have hperm : ∀ o, Permitted w.log ⟨w.pid, c, o⟩ := by
    have henvUsable : EnvUsable w.log w.pid e :=
      ⟨he.pid ▸ S.inv.traced.created he.at_ he.env, S.inv.traced.notClosed he.at_ he.env, hhealthy⟩
    refine fun o => ⟨fun e' h => henv e' h ▸ henvUsable, fun p hp => ?_⟩
    obtain ⟨rfl, k, hk⟩ := hlive p hp
    obtain ⟨h', he', -, hpid, -⟩ := S.inv.graph.owner hk.at_ hk.owner
    obtain rfl : h = h' := Option.some.inj (he.at_ ▸ he')
    refine ⟨henvUsable, ?_, S.inv.traced.notEnded hk.at_ hk.owner (by simp)⟩
    have := S.inv.traced.begun hk.at_ hk.owner
    rwa [← hpid, he.pid] at this
  rcases native_answered L c w with ⟨r, lib, hr, -⟩ | ⟨info, lib, hr, hpanic⟩
  · refine Triple.ok hr ⟨⟨?_, U.called _ _ _⟩, ?_⟩
    · exact S.plainCall hc hbelow (hperm _) (alonePermitted_of halone _) (by simp)
    simpa [Call.Panics] using hhealthy
  · have hown : c.group = some e := by
      cases hg : c.group with
      | some e' => rw [hgroup e' hg]
      | none =>
        obtain ⟨r, hquiet⟩ := L.quiet c w.lib (c.unguarded_of_ungrouped hc hg)
        simp [hpanic] at hquiet
    exact Triple.error hr ⟨⟨S.plainCall hc hbelow (hperm _) (alonePermitted_of halone _)
      fun _ e' h => by rw [hgroup e' h], U.called _ _ _⟩, ⟨info, rfl⟩, w.called_panicked hown lib⟩

theorem grow : Body lossy may w₀ e t (grow L) := by
  rintro w ⟨S, U⟩ hhealthy
  exact Triple.ok rfl ⟨⟨S.setLib _, U.setLib _⟩, hhealthy⟩

/-- Read a live transaction's handle. -/
theorem derefTxn {t : TxnRef} {f : TxnHandle → Pkg σ β}
    (hf : ∀ k, k.txn = some ⟨e, t⟩ → Body lossy may w₀ e (some t) (f k)) :
    Body lossy may w₀ e (some t) (derefTxn t >>= f) := by
  rintro w ⟨S, U⟩ hhealthy
  obtain ⟨k, hk⟩ := U.txn rfl
  exact Triple.step (derefTxn_run hk.at_) (hf k (S.inv.graph.txnPtr hk) w ⟨S, U⟩ hhealthy)

/-- The native transaction and the current database. -/
theorem current {t : TxnRef} {f : TxnPtr × Dbi → Pkg σ β}
    (hf : ∀ dbi, Body lossy may w₀ e (some t) (f (⟨e, t⟩, dbi))) :
    Body lossy may w₀ e (some t) (Mdbx.current t >>= f) := by
  rw [Mdbx.current, bind_assoc]
  refine derefTxn fun k hk => ?_
  rw [hk, nonNull_some, pure_bind, pure_bind]
  exact hf k.dbi

/-- Read an open environment's handle. -/
theorem derefEnv {f : EnvHandle → Pkg σ β}
    (hf : ∀ h, h.env = some e → Body lossy may w₀ e t (f h)) :
    Body lossy may w₀ e t (derefEnv e >>= f) := by
  rintro w ⟨S, U⟩ hhealthy
  obtain ⟨h, he⟩ := U.env
  exact Triple.step (derefEnv_run he.at_) (hf h he.env w ⟨S, U⟩ hhealthy)

end Body

/-! ### Around the guard -/

namespace Using

variable {e : EnvRef} {t : Option TxnRef} {m : Pkg σ α} {f : α → Pkg σ β}

theorem pure (a : α) : Using lossy may w₀ e t (pure a : Pkg σ α) := Keeps.pure a

theorem bind (hm : Using lossy may w₀ e t m) (hf : ∀ a, Using lossy may w₀ e t (f a)) :
    Using lossy may w₀ e t (m >>= f) := Keeps.bind hm hf

theorem ite {c : Prop} [Decidable c] {m' : Pkg σ α} (hm : Using lossy may w₀ e t m)
    (hm' : Using lossy may w₀ e t m') : Using lossy may w₀ e t (if c then m else m') :=
  Keeps.ite (fun _ => hm) fun _ => hm'

theorem stop (c : Condition) : Using lossy may w₀ e t (stop c : Pkg σ α) :=
  Keeps.exit fun _ => ⟨c, rfl⟩

theorem refuse (refused : Prop) [Decidable refused] (c : Condition) :
    Using lossy may w₀ e t (refuse refused c : Pkg σ Unit) := ite (stop c) (pure ())

theorem check (rc : Status) : Using lossy may w₀ e t (check rc : Pkg σ Unit) := refuse _ _

theorem whenever {c : Prop} [Decidable c] {m : Pkg σ Unit} (hm : Using lossy may w₀ e t m) :
    Using lossy may w₀ e t (whenever c m) := ite hm (pure ())

theorem ifSome {p : Option α} {f : α → Pkg σ Unit} (hf : ∀ a, Using lossy may w₀ e t (f a)) :
    Using lossy may w₀ e t (ifSome p f) := by
  cases p with
  | none => exact pure ()
  | some a => exact hf a

/-- A guarded body with the poison callback of the environment. -/
theorem guardEnv (hm : Body lossy may w₀ e t m) :
    Using lossy may w₀ e t (guard m (poisonEnv e)) := by
  intro w S U
  have hbody := hm w ⟨S.waivePoison rfl e, U⟩ (U.healthy S)
  rw [Triple] at hbody
  rcases hr : m.run w with ⟨x | a, w'⟩
  · rw [hr] at hbody
    obtain ⟨⟨S', U'⟩, ⟨info, rfl⟩, hpanicked⟩ := hbody
    obtain ⟨h, he⟩ := U'.env
    exact Triple.error (guard_panic hr (poisonEnv_run he.at_))
      ⟨S'.poisonEnv he.at_ fun _ => hpanicked, _, rfl⟩
  · rw [hr] at hbody
    obtain ⟨⟨S', U'⟩, hhealthy⟩ := hbody
    exact Triple.ok (guard_ok hr) ⟨S'.unwaivePoison hhealthy, U'⟩

/-- A guarded body with the poison callback of the transaction. -/
theorem guardTxn {t : TxnRef} (hm : Body lossy may w₀ e (some t) m) :
    Using lossy may w₀ e (some t) (guard m (poisonTxn t)) := by
  intro w S U
  have hbody := hm w ⟨S.waivePoison rfl e, U⟩ (U.healthy S)
  rw [Triple] at hbody
  rcases hr : m.run w with ⟨x | a, w'⟩
  · rw [hr] at hbody
    obtain ⟨⟨S', U'⟩, ⟨info, rfl⟩, hpanicked⟩ := hbody
    obtain ⟨h, he⟩ := U'.env
    obtain ⟨k, hk⟩ := U'.txn rfl
    exact Triple.error (guard_panic hr (poisonTxn_run hk.at_ hk.owner he.at_))
      ⟨S'.poisonTxn he.at_ hk hpanicked, _, rfl⟩
  · rw [hr] at hbody
    obtain ⟨⟨S', U'⟩, hhealthy⟩ := hbody
    exact Triple.ok (guard_ok hr) ⟨S'.unwaivePoison hhealthy, U'⟩

/-- A call made outside the guard. -/
theorem quiet (L : Platform σ) {c : NativeCall} (hquiet : c.unguarded = true)
    (hc : c.plain = true) (halone : c.alone? = none) (henv : ∀ e', c.env? = some e' → e' = e)
    (htxn : ∀ p, c.txn? = some p → p.env = e ∧ t = some p.id) :
    Using lossy may w₀ e t (native L c) := by
  intro w S U
  have hbody := Body.native L hc halone henv htxn w ⟨S.waivePoison rfl e, U⟩ (U.healthy S)
  obtain ⟨r, lib, hr⟩ := native_quiet L hquiet w
  rw [Triple, hr] at hbody
  obtain ⟨⟨S', U'⟩, hhealthy⟩ := hbody
  exact Triple.ok hr ⟨S'.unwaivePoison hhealthy, U'⟩

theorem derefTxn {t : TxnRef} {f : TxnHandle → Pkg σ β}
    (hf : ∀ k, k.txn = some ⟨e, t⟩ → k.owner = some e → Using lossy may w₀ e (some t) (f k)) :
    Using lossy may w₀ e (some t) (derefTxn t >>= f) := by
  intro w S U
  obtain ⟨k, hk⟩ := U.txn rfl
  exact Triple.step (derefTxn_run hk.at_) (hf k (S.inv.graph.txnPtr hk) hk.owner w S U)

theorem derefEnv {f : EnvHandle → Pkg σ β}
    (hf : ∀ h, h.env = some e → Using lossy may w₀ e t (f h)) :
    Using lossy may w₀ e t (derefEnv e >>= f) := by
  intro w S U
  obtain ⟨h, he⟩ := U.env
  exact Triple.step (derefEnv_run he.at_) (hf h he.env w S U)

/-- Assign to the name cache of a transaction. -/
theorem updateTxn {t : TxnRef} {g : TxnHandle → TxnHandle}
    (htxn : ∀ k, (g k).txn = k.txn) (howner : ∀ k, (g k).owner = k.owner)
    (hstate : ∀ k, (g k).state = k.state) (hpid : ∀ k, (g k).pid = k.pid)
    (hpois : ∀ k, (g k).poisoned = k.poisoned) (hwrite : ∀ k, (g k).write = k.write) :
    Using lossy may w₀ e (some t) (updateTxn t g) := by
  intro w S U
  obtain ⟨k, hk⟩ := U.txn rfl
  exact Triple.ok (updateTxn_run hk.at_ g) ⟨S.setTxn hk.at_ (htxn k) (howner k) (hstate k) (hpid k)
    (hpois k) (hwrite k), U.setTxn hk.at_ (howner k)⟩

end Using

/-! ### From an R object on -/

namespace Entry

variable {m : Pkg σ α} {f : α → Pkg σ β}

theorem pure (a : α) : Entry lossy may w₀ (pure a : Pkg σ α) := Keeps.pure a

theorem bind (hm : Entry lossy may w₀ m) (hf : ∀ a, Entry lossy may w₀ (f a)) :
    Entry lossy may w₀ (m >>= f) :=
  Keeps.bind hm hf

theorem map {g : α → β} (hm : Entry lossy may w₀ m) : Entry lossy may w₀ (g <$> m) := Keeps.map hm

theorem stop (c : Condition) : Entry lossy may w₀ (stop c : Pkg σ α) :=
  Keeps.exit fun _ => .stop c

theorem refuse (refused : Prop) [Decidable refused] (c : Condition) :
    Entry lossy may w₀ (refuse refused c : Pkg σ Unit) :=
  Keeps.ite (fun _ => stop c) fun _ => pure ()

end Entry

theorem Using.entry {e : EnvRef} {t : Option TxnRef} {m : Pkg σ α} (hm : Using lossy may w₀ e t m)
    {w : World σ} (S : Sound may w₀ { lossy } w) (U : Usable e t w) :
    Triple m w (fun _ w' => Sound may w₀ { lossy } w' ∧ True)
      (fun x w' => Sound may w₀ { lossy } w' ∧ Leaves lossy x) :=
  (hm w S U).mono (fun _ _ h => ⟨h.1, trivial⟩) fun _ _ h => ⟨h.1, .inl h.2⟩

section Sexps

variable {w : World σ}

/-- An object that `is_env_sexp` recognises, or the condition that it is none. -/
theorem isEnvSexp_run (x : Sexp) (w : World σ) :
    (isEnvSexp x).run w = (.error (.stop .expectedEnv), w) ∨
      ∃ n s, x = .env n ∧ w.envSexps n = some s ∧ (isEnvSexp x).run w = (.ok s, w) := by
  rw [isEnvSexp, Prog.run_get_bind]
  cases x with
  | env n =>
    cases hs : w.envSexps n with
    | none => exact .inl (by simp [hs, stop])
    | some s => exact .inr ⟨n, s, rfl, hs, by simp [hs]⟩
  | txn n => exact .inl rfl
  | other => exact .inl rfl

theorem isTxnSexp_run (x : Sexp) (w : World σ) :
    (isTxnSexp x).run w = (.error (.stop .expectedTxn), w) ∨
      ∃ n s, x = .txn n ∧ w.txnSexps n = some s ∧ (isTxnSexp x).run w = (.ok s, w) := by
  rw [isTxnSexp, Prog.run_get_bind]
  cases x with
  | txn n =>
    cases hs : w.txnSexps n with
    | none => exact .inl (by simp [hs, stop])
    | some s => exact .inr ⟨n, s, rfl, hs, by simp [hs]⟩
  | env n => exact .inl rfl
  | other => exact .inl rfl

/-- `env_from_sexp` hands out an open environment of this process, or it raises. -/
theorem envFromSexp_run (G : Graph w) (x : Sexp) :
    (∃ c, (envFromSexp x).run w = (.error (.stop c), w)) ∨
      ∃ e h s, x = .env e ∧ w.envSexps e = some s ∧ s.addr = some e ∧
        (envFromSexp x).run w = (.ok e, w) ∧ OpenEnv w e h := by
  rcases isEnvSexp_run x w with hx | ⟨n, s, rfl, hs, hx⟩
  · exact .inl ⟨_, by rw [envFromSexp, Prog.bind_error hx]⟩
  rw [envFromSexp, Prog.bind_ok hx]
  cases haddr : s.addr with
  | none => exact .inl ⟨_, rfl⟩
  | some e =>
    obtain ⟨rfl, hsome⟩ := G.envSexp hs haddr
    obtain ⟨h, he⟩ := Option.isSome_iff_exists.mp hsome
    simp only
    rw [Prog.bind_ok (derefEnv_run he), Prog.bind_ok currentPid_run]
    by_cases hpid : h.pid = w.pid
    · rw [Prog.bind_ok (refuse_pass (not_not.mpr hpid))]
      cases henv : h.env with
      | none => exact .inl ⟨_, by rw [Prog.bind_error (refuse_run rfl)]⟩
      | some p =>
        obtain rfl := G.env he henv
        rw [Prog.bind_ok (refuse_pass (by simp))]
        cases hpois : h.poisoned with
        | true => exact .inl ⟨_, by rw [Prog.bind_error (refuse_run rfl)]⟩
        | false =>
          exact .inr ⟨p, h, s, rfl, hs, haddr, by rw [Prog.bind_ok (refuse_pass (by simp))]; rfl,
            he, henv, hpois, hpid⟩
    · exact .inl ⟨_, by rw [Prog.bind_error (refuse_run hpid)]⟩

/-- `txn_from_sexp` hands out a live transaction of a usable environment, or it raises. -/
theorem txnFromSexp_run (G : Graph w) (x : Sexp) :
    (∃ c, (txnFromSexp x).run w = (.error (.stop c), w)) ∨
      ∃ e h t k s, x = .txn t ∧ w.txnSexps t = some s ∧ s.addr = some t ∧
        (txnFromSexp x).run w = (.ok t, w) ∧ OpenEnv w e h ∧ LiveTxn w e t k := by
  rcases isTxnSexp_run x w with hx | ⟨n, s, rfl, hs, hx⟩
  · exact .inl ⟨_, by rw [txnFromSexp, Prog.bind_error hx]⟩
  rw [txnFromSexp, Prog.bind_ok hx]
  cases haddr : s.addr with
  | none => exact .inl ⟨_, rfl⟩
  | some t =>
    obtain ⟨rfl, hsome⟩ := G.txnSexp hs haddr
    obtain ⟨k, ht⟩ := Option.isSome_iff_exists.mp hsome
    simp only
    rw [Prog.bind_ok (derefTxn_run ht), Prog.bind_ok currentPid_run]
    by_cases hpid : k.pid = w.pid
    · rw [Prog.bind_ok (refuse_pass (not_not.mpr hpid))]
      cases hpois : k.poisoned with
      | true => exact .inl ⟨_, by rw [Prog.bind_error (refuse_run rfl)]⟩
      | false =>
        rw [Prog.bind_ok (refuse_pass (by simp))]
        cases howner : k.owner with
        | none =>
          have htxn : k.txn = none := by rw [G.txn ht, howner]; rfl
          exact .inl ⟨_, by rw [Prog.bind_error (refuse_run htxn)]⟩
        | some e =>
          have hlive : LiveTxn w e t k := ⟨ht, howner⟩
          rw [Prog.bind_ok (refuse_pass (by simp [G.txnPtr hlive]))]
          obtain ⟨h, he, henv, hpid', -⟩ := G.owner ht howner
          simp only
          rw [Prog.bind_ok (derefEnv_run he), Prog.bind_ok (refuse_pass (by simp [henv]))]
          cases hh : h.poisoned with
          | true => exact .inl ⟨_, by rw [Prog.bind_error (refuse_run rfl)]⟩
          | false =>
            exact .inr ⟨e, h, t, k, s, rfl, hs, haddr,
              by rw [Prog.bind_ok (refuse_pass (by simp))]; rfl,
              ⟨he, henv, hh, hpid'.trans hpid⟩, hlive⟩
    · exact .inl ⟨_, by rw [Prog.bind_error (refuse_run hpid)]⟩

/-- The object of an open environment of this process. -/
theorem envFromSexp_open {e : EnvRef} {h : EnvHandle} {s : EnvSexp} (hs : w.envSexps e = some s)
    (haddr : s.addr = some e) (he : OpenEnv w e h) :
    (envFromSexp (.env e)).run w = (.ok e, w) := by
  have hx : (isEnvSexp (.env e)).run w = (.ok s, w) := by
    simp [isEnvSexp, hs]
  rw [envFromSexp, Prog.bind_ok hx, haddr]
  simp only
  rw [Prog.bind_ok (derefEnv_run he.at_), Prog.bind_ok currentPid_run,
    Prog.bind_ok (refuse_pass (not_not.mpr he.pid)),
    Prog.bind_ok (refuse_pass (by simp [he.env])),
    Prog.bind_ok (refuse_pass (by simp [he.healthy]))]
  rfl

/-- The object of a live transaction of an open environment of this process. -/
theorem txnFromSexp_live (G : Graph w) {e : EnvRef} {h : EnvHandle} {t : TxnRef} {k : TxnHandle}
    {s : TxnSexp} (hs : w.txnSexps t = some s) (haddr : s.addr = some t) (he : OpenEnv w e h)
    (ht : LiveTxn w e t k) : (txnFromSexp (.txn t)).run w = (.ok t, w) := by
  have hx : (isTxnSexp (.txn t)).run w = (.ok s, w) := by
    simp [isTxnSexp, hs]
  obtain ⟨h', he', -, hpid, hpois⟩ := G.owner ht.at_ ht.owner
  obtain rfl : h = h' := Option.some.inj (he.at_ ▸ he')
  have hhealthy : k.poisoned ≠ true := fun hk => by simp [he.healthy] at hpois; simp [hk] at hpois
  rw [txnFromSexp, Prog.bind_ok hx, haddr]
  simp only
  rw [Prog.bind_ok (derefTxn_run ht.at_), Prog.bind_ok currentPid_run,
    Prog.bind_ok (refuse_pass (not_not.mpr (hpid.symm.trans he.pid))),
    Prog.bind_ok (refuse_pass hhealthy), Prog.bind_ok (refuse_pass (by simp [G.txnPtr ht])),
    ht.owner]
  simp only
  rw [Prog.bind_ok (derefEnv_run he.at_), Prog.bind_ok (refuse_pass (by simp [he.env])),
    Prog.bind_ok (refuse_pass (by simp [he.healthy]))]
  rfl

end Sexps

namespace Entry

theorem envFromSexp {x : Sexp} {f : EnvRef → Pkg σ β}
    (hf : ∀ e, Using lossy may w₀ e none (f e)) : Entry lossy may w₀ (envFromSexp x >>= f) := by
  intro w S _
  rcases envFromSexp_run S.inv.graph x with ⟨c, hr⟩ | ⟨e, h, s, rfl, hs, haddr, hr, he⟩
  · exact Triple.stopped hr ⟨S, .stop c⟩
  · exact Triple.step hr ((hf e).entry S ⟨⟨h, he⟩, by simp⟩)

theorem txnFromSexp {x : Sexp} {f : TxnRef → Pkg σ β}
    (hf : ∀ e t, Using lossy may w₀ e (some t) (f t)) :
    Entry lossy may w₀ (txnFromSexp x >>= f) := by
  intro w S _
  rcases txnFromSexp_run S.inv.graph x with ⟨c, hr⟩ | ⟨e, h, t, k, s, rfl, hs, haddr, hr, he, ht⟩
  · exact Triple.stopped hr ⟨S, .stop c⟩
  · refine Triple.step hr ((hf e t).entry S ⟨⟨h, he⟩, fun heq => ?_⟩)
    cases heq
    exact ⟨k, ht⟩

theorem writableTxn {x : Sexp} {f : TxnRef → Pkg σ β}
    (hf : ∀ e t, Using lossy may w₀ e (some t) (f t)) :
    Entry lossy may w₀ (writableTxn x >>= f) := by
  rw [Mdbx.writableTxn, bind_assoc]
  refine txnFromSexp fun e t => ?_
  rw [bind_assoc]
  refine Using.derefTxn fun k _ _ => ?_
  rw [bind_assoc]
  exact (Using.refuse _ _).bind fun _ => hf e t

end Entry

/-! ### Inside a transaction -/

section Data

variable (L : Platform σ) {e : EnvRef} {t : TxnRef}

theorem dbiCall_body {k : TxnHandle} (htxn : k.txn = some ⟨e, t⟩) (name : Option Bytes)
    (flags : ℕ) : Body lossy may w₀ e (some t) (dbiCall L k name flags) := by
  rw [dbiCall, htxn, nonNull_some, pure_bind]
  exact (Body.native L rfl rfl (by simp [NativeCall.env?]) (by simp [NativeCall.txn?])).bind
    fun _ => .pure _

theorem stopMissingDbi_using {k : TxnHandle} (howner : k.owner = some e) (name : Bytes) :
    Using lossy may w₀ e (some t) (stopMissingDbi k name : Pkg σ α) := by
  rw [stopMissingDbi, howner, nonNull_some, pure_bind]
  exact Using.derefEnv fun h _ => .stop _

theorem ensureDbiNamed_using (name : Option Bytes) :
    Using lossy may w₀ e (some t) (ensureDbiNamed L t name) := by
  rw [ensureDbiNamed]
  refine Using.derefTxn fun k htxn howner => ?_
  cases k.cached name with
  | some dbi =>
    refine Using.bind (Using.updateTxn ?_ ?_ ?_ ?_ ?_ ?_) fun _ => .pure _
    all_goals exact fun _ => rfl
  | none =>
    refine (Using.guardTxn (dbiCall_body L htxn name 0)).bind fun ⟨rc, dbi⟩ => ?_
    refine (Using.ifSome fun name => .whenever (stopMissingDbi_using howner name)).bind fun _ => ?_
    refine (Using.check rc).bind fun _ => ?_
    refine Using.bind (Using.updateTxn ?_ ?_ ?_ ?_ ?_ ?_) fun _ => .pure _
    all_goals cases name <;> exact fun _ => rfl

theorem ensureDbi_using (db : List Bytes) : Using lossy may w₀ e (some t) (ensureDbi L t db) :=
  ensureDbiNamed_using L _

/-- One call below the guard on the transaction `t`. -/
theorem native_body {c : NativeCall} (hc : c.plain = true) (halone : c.alone? = none)
    (henv : c.env? = none)
    (htxn : c.txn? = some ⟨e, t⟩) : Body lossy may w₀ e (some t) (native L c) := by
  refine Body.native L hc halone (by simp [henv]) fun p hp => ?_
  rw [htxn] at hp
  cases hp
  exact ⟨rfl, rfl⟩

theorem getCall_body (key : Bytes) : Body lossy may w₀ e (some t) (getCall L t key) :=
  Body.current fun _ => (native_body L rfl rfl rfl rfl).bind fun _ => .pure _

theorem mdbxGet_entry (x : Sexp) (key : Bytes) (db : List Bytes) :
    Entry lossy may w₀ (mdbxGet_ L x key db) := by
  refine Entry.txnFromSexp fun e t => (ensureDbi_using L db).bind fun _ => ?_
  refine (Using.guardTxn (getCall_body L key)).bind fun ⟨rc, data⟩ => ?_
  exact .ite (.pure _) ((Using.check rc).bind fun _ => .pure _)

theorem putCall_body (key value : Bytes) (flags : ℕ) :
    Body lossy may w₀ e (some t) (putCall L t key value flags) :=
  Body.current fun _ => (native_body L rfl rfl rfl rfl).bind fun _ => .pure _

theorem mdbxPut_entry (x : Sexp) (key value : Bytes) (overwrite : Bool) (db : List Bytes) :
    Entry lossy may w₀ (mdbxPut_ L x key value overwrite db) := by
  refine Entry.writableTxn fun e t => (ensureDbi_using L db).bind fun _ => ?_
  refine (Using.guardTxn (putCall_body L key value _)).bind fun rc => ?_
  exact .ite (.pure _) ((Using.check rc).bind fun _ => .pure _)

theorem delCall_body (key : Bytes) : Body lossy may w₀ e (some t) (delCall L t key) :=
  Body.current fun _ => (native_body L rfl rfl rfl rfl).bind fun _ => .pure _

theorem mdbxDel_entry (x : Sexp) (key : Bytes) (db : List Bytes) :
    Entry lossy may w₀ (mdbxDel_ L x key db) := by
  refine Entry.writableTxn fun e t => (ensureDbi_using L db).bind fun _ => ?_
  refine (Using.guardTxn (delCall_body L key)).bind fun rc => ?_
  exact .ite (.pure _) ((Using.check rc).bind fun _ => .pure _)

theorem cursorGet_body (id : ℕ) (op : CursorOp) :
    Body lossy may w₀ e (some t) (cursorGet L ⟨⟨e, t⟩, id⟩ op) :=
  (native_body L rfl rfl rfl rfl).bind fun _ => .pure _

theorem position_body (id : ℕ) (dbi : Dbi) (reverse : Bool) (start : Option Bytes) :
    Body lossy may w₀ e (some t) (position L ⟨⟨e, t⟩, id⟩ dbi reverse start) := by
  cases start with
  | none => exact cursorGet_body L id _
  | some from_ =>
    refine (cursorGet_body L id _).bind fun ⟨rc, key, value⟩ => ?_
    refine .ite (cursorGet_body L id _) (.ite ?_ (.pure _))
    exact (native_body L rfl rfl rfl rfl).bind fun _ => .ite (cursorGet_body L id _) (.pure _)

theorem collect_body (wantValues : Bool) (key value : Bytes) (found : Scanned) :
    Body lossy may w₀ e (some t) (collect L wantValues key value found) := by
  refine (Body.grow L).bind fun room => .ite (.pure _) (.ite (.pure _) ?_)
  exact (Body.grow L).bind fun room => .ite (.pure _) (.pure _)

theorem scanLoop_body (id : ℕ) (wantValues reverse : Bool) (remaining : ℕ) :
    ∀ (move : Pkg σ Reached) (found : Scanned), Body lossy may w₀ e (some t) move →
      Body lossy may w₀ e (some t)
        (scanLoop L ⟨⟨e, t⟩, id⟩ wantValues reverse remaining move found) := by
  induction remaining with
  | zero => exact fun _ _ _ => .pure _
  | succ n ih =>
    refine fun move found hmove => hmove.bind fun ⟨rc, key, value⟩ => ?_
    refine .ite (.pure _) (.ite (.pure _) ?_)
    refine (collect_body L wantValues key value found).bind fun ⟨room, found'⟩ => ?_
    exact .ite (.pure _) (ih _ _ (cursorGet_body L id _))

theorem scanCall_body (limit : ℕ) (wantValues reverse : Bool) (start : Option Bytes) :
    Body lossy may w₀ e (some t) (scanCall L t limit wantValues reverse start) := by
  refine Body.current fun dbi => (native_body L rfl rfl rfl rfl).bind fun opened => ?_
  refine .ite (.pure _) ?_
  refine (scanLoop_body L _ wantValues reverse limit _ _ (position_body L _ dbi reverse start)).bind
    fun found => ?_
  exact (native_body L rfl rfl rfl rfl).bind fun _ => .pure _

theorem narrow_run {bound n : ℕ} {x : Double} (hx : x.toUnsigned bound = some n) (w : World σ) :
    (narrow bound x : Pkg σ ℕ).run w = (.ok n, w) := by
  rw [narrow, hx]
  rfl

/-- The pointer-sized bound is a natural number below both pointer-sized types' limits. -/
theorem maxNativeInteger_eq :
    ∃ m, m ≤ 2 ^ 53 ∧ m < intptrBound L ∧ m < sizeBound L ∧ maxNativeInteger L = .ofNat m := by
  by_cases hwide : L.wide = true
  · exact ⟨2 ^ 53, by simp [maxNativeInteger, intptrBound, sizeBound, hwide, maxExactInteger]⟩
  · exact ⟨2 ^ 31 - 1, by simp [maxNativeInteger, intptrBound, sizeBound, hwide]⟩

/-- `x > 0 ? x : 0` converts once `x` is below an exact bound. -/
theorem orZero_converts {x : Double} {m bound : ℕ} (hm : m ≤ 2 ^ 53) (hbound : m < bound)
    (hle : x.le (.ofNat m) = true) : ∃ n, (orZero x).toUnsigned bound = some n := by
  by_cases hpos : (Double.ofNat 0).lt x = true
  · rw [orZero, if_pos hpos]
    exact Double.exists_toUnsigned hm hbound (Double.lt_zero_of_pos hpos) hle
  · rw [orZero, if_neg hpos, Double.ofNat_exact (Nat.zero_le _)]
    exact ⟨0, Double.toUnsigned_natCast (by omega) _⟩

/-- A scan's limit converts. -/
theorem scanLimit_run {limit : Double} (hle : limit.le (maxNativeInteger L) = true)
    (w : World σ) : ∃ n, (scanLimit L limit).run w = (.ok n, w) := by
  obtain ⟨m, hm, -, hsize, heq⟩ := maxNativeInteger_eq L
  by_cases hneg : limit.lt (.ofNat 0) = true
  · exact ⟨_, by rw [scanLimit, if_pos hneg]; rfl⟩
  · obtain ⟨n, hn⟩ := Double.exists_toUnsigned hm hsize (by simpa using hneg) (heq ▸ hle)
    exact ⟨n, by rw [scanLimit, if_neg hneg, narrow_run hn]⟩

theorem mdbxScan_entry (x : Sexp) (limit : Double) (values : Bool) (db : List Bytes)
    (start : Option Bytes) (reverse : Bool) :
    Entry lossy may w₀ (mdbxScan_ L x limit values db start reverse) := by
  rw [mdbxScan_]
  by_cases hle : limit.le (maxNativeInteger L) = true
  · refine (Entry.refuse _ _).bind fun _ => Entry.txnFromSexp fun e t => ?_
    refine (ensureDbi_using L db).bind fun _ => ?_
    have hlimit : Using lossy may w₀ e (some t) (scanLimit L limit) := fun w S U => by
      obtain ⟨n, hn⟩ := scanLimit_run L hle w
      exact Triple.ok hn ⟨S, U⟩
    refine hlimit.bind fun bound => ?_
    refine (Using.guardTxn (scanCall_body L bound values reverse start)).bind fun found => ?_
    exact (Using.refuse _ _).bind fun _ => (Using.check _).bind fun _ => .pure _
  · exact fun w S _ => Triple.stopped (refuse_run hle) ⟨S, .stop _⟩

/-! ### Named databases and sequences -/

theorem mdbxDbiOpen_entry (x : Sexp) (name : Bytes) (create : Bool) :
    Entry lossy may w₀ (mdbxDbiOpen_ L x name create) := by
  refine Entry.txnFromSexp fun e t => Using.derefTxn fun k htxn howner => ?_
  refine (Using.refuse _ _).bind fun _ => ?_
  refine (Using.guardTxn (dbiCall_body L htxn _ _)).bind fun ⟨rc, dbi⟩ => ?_
  refine (Using.whenever (stopMissingDbi_using howner name)).bind fun _ => ?_
  refine (Using.check rc).bind fun _ => Using.updateTxn ?_ ?_ ?_ ?_ ?_ ?_
  all_goals exact fun _ => rfl

theorem countNamedTables_using : Using lossy may w₀ e (some t) (countNamedTables L t) := by
  have hbody : Body lossy may w₀ e (some t) (countCall L t) :=
    Body.current fun _ => (native_body L rfl rfl rfl rfl).bind fun _ => .pure _
  exact (Using.guardTxn hbody).bind fun ⟨rc, count⟩ => (Using.check rc).bind fun _ => .pure _

theorem dropCall_body (del : Bool) : Body lossy may w₀ e (some t) (dropCall L t del) :=
  Body.current fun _ => (native_body L rfl rfl rfl rfl).bind fun _ => .pure _

theorem mdbxDbiDrop_entry (x : Sexp) (db : List Bytes) (del : Bool) :
    Entry lossy may w₀ (mdbxDbiDrop_ L x db del) := by
  refine Entry.writableTxn fun e t => ?_
  have hmain : Using lossy may w₀ e (some t) (refuseMainWithNamed L t db del) :=
    Using.whenever ((countNamedTables_using L).bind fun _ => Using.refuse _ _)
  refine hmain.bind fun _ => (Using.refuse _ _).bind fun _ => ?_
  refine (ensureDbi_using L db).bind fun _ => ?_
  refine (Using.guardTxn (dropCall_body L del)).bind fun rc => (Using.check rc).bind fun _ => ?_
  refine Using.whenever (Using.ifSome fun name => Using.updateTxn ?_ ?_ ?_ ?_ ?_ ?_)
  all_goals exact fun _ => rfl

theorem listVisit_body (rc : Status) (tables : List Bytes) :
    ∀ names, Body lossy may w₀ e (some t) (listVisit L rc names tables) := by
  induction tables with
  | nil => exact fun _ => .pure _
  | cons name rest ih => exact fun _ => (Body.grow L).bind fun room => .ite (ih _) (.pure _)

theorem mdbxDbiList_entry (x : Sexp) : Entry lossy may w₀ (mdbxDbiList_ L x) := by
  refine Entry.txnFromSexp fun e t => ?_
  have hbody : Body lossy may w₀ e (some t) (listCall L t) :=
    Body.current fun _ => (native_body L rfl rfl rfl rfl).bind fun r =>
      listVisit_body L r.rc r.out []
  refine (Using.guardTxn hbody).bind fun ⟨rc, names, outOfMemory⟩ => ?_
  exact (Using.refuse _ _).bind fun _ => (Using.check rc).bind fun _ => .pure _

theorem sequenceCall_body (increment : ℕ) :
    Body lossy may w₀ e (some t) (sequenceCall L t increment) :=
  Body.current fun _ => (native_body L rfl rfl rfl rfl).bind fun _ => .pure _

/-- An increment that passes the range check converts. -/
theorem increment_converts {increment : Double} (hpos : increment.le (.ofNat 0) = false)
    (hle : increment.le maxExactInteger = true) :
    ∃ n, increment.toUnsigned (2 ^ 64) = some n := by
  refine Double.exists_toUnsigned le_rfl (by norm_num) ?_ hle
  rw [Double.ofNat_exact (Nat.zero_le _)] at hpos ⊢
  rcases increment with _ | ⟨_ | _⟩ | ⟨q, hq⟩
  · rfl
  · rfl
  · simp [Double.le] at hpos
  · have : 0 < q := by simpa [Double.le] using hpos
    simpa [Double.lt] using this.le

theorem advanceSequence_using {current increment : Double}
    (hpos : increment.le (.ofNat 0) = false) :
    Using lossy may w₀ e (some t) (advanceSequence L t current increment) := by
  rw [advanceSequence]
  by_cases hle : increment.le maxExactInteger = true
  · refine (Using.refuse _ _).bind fun _ => ?_
    obtain ⟨n, hn⟩ := increment_converts hpos hle
    refine Using.bind (fun w S U => Triple.ok (narrow_run hn w) ⟨S, U⟩) fun amount => ?_
    refine (Using.guardTxn (sequenceCall_body L amount)).bind fun ⟨rc, result⟩ => ?_
    exact (Using.refuse _ _).bind fun _ => (Using.check rc).bind fun _ => .pure _
  · exact fun w S _ => Triple.stopped (refuse_run (.inl hle)) ⟨S, _, rfl⟩

theorem mdbxDbiSequence_entry (x : Sexp) (db : List Bytes) (increment : Double) :
    Entry lossy may w₀ (mdbxDbiSequence_ L x db increment) := by
  have hrest : ∀ e t, Using lossy may w₀ e (some t) (ensureDbi L t db >>= fun _ =>
      guard (sequenceCall L t 0) (poisonTxn t) >>= fun read => check read.1 >>= fun _ =>
        if increment.le (.ofNat 0) then pure (.ofNat read.2)
        else advanceSequence L t (.ofNat read.2) increment) := by
    refine fun e t => (ensureDbi_using L db).bind fun _ => ?_
    refine (Using.guardTxn (sequenceCall_body L 0)).bind fun read => ?_
    refine (Using.check _).bind fun _ => Keeps.ite (fun _ => .pure _) fun hpos => ?_
    exact advanceSequence_using L (by simpa using hpos)
  rw [mdbxDbiSequence_, sequenceTxn]
  split
  · exact Entry.writableTxn hrest
  · exact Entry.txnFromSexp hrest

end Data

/-! ### On an open environment -/

section Environments

variable (L : Platform σ) {e : EnvRef}

/-- `current_txn` finds the live transaction, if there is one. -/
theorem currentTxn_run {w : World σ} (G : Graph w) {h : EnvHandle} (he : w.envs e = some h) :
    (h.liveTxns = [] ∧ (currentTxn e).run w = (.ok none, w)) ∨
      ∃ t k, LiveTxn w e t k ∧ h.liveTxns = [t] ∧
        (currentTxn e).run w = (.ok (some ⟨e, t⟩), w) := by
  rw [currentTxn, Prog.bind_ok (derefEnv_run he)]
  cases hl : h.liveTxns with
  | nil => exact .inl ⟨rfl, rfl⟩
  | cons t rest =>
    obtain ⟨k, ht, howner⟩ := (G.live he t).mp (by simp [hl])
    have hlive : LiveTxn w e t k := ⟨ht, howner⟩
    have honly := G.liveTxns_eq ht howner he
    refine .inr ⟨t, k, hlive, by rw [← hl, honly], ?_⟩
    rw [currentTxnAmong, Prog.bind_ok (derefTxn_run ht), G.txnPtr hlive]
    rfl

/-- A guarded question about an environment, asked with its live transaction. -/
theorem ask_using {t : TxnRef} {γ : Type} {c : NativeCall} (hc : c.plain = true)
    (halone : c.alone? = none) (henv : c.env? = some e) (htxn : c.txn? = some ⟨e, t⟩)
    (g : Reply c → γ) :
    Using lossy may w₀ e (some t) (guard (do let r ← native L c; pure (g r)) (poisonEnv e)) := by
  refine Using.guardEnv ((Body.native L hc halone (by simp [henv]) fun p hp => ?_).bind
    fun r => Body.pure _)
  obtain rfl : ⟨e, t⟩ = p := Option.some.inj (htxn ▸ hp)
  exact ⟨rfl, rfl⟩

/-- One asked without a transaction, while there is none. -/
theorem askAlone_spec {w : World σ} {h : EnvHandle} {γ : Type} {c : NativeCall}
    (hc : c.plain = true) (henv : c.env? = some e) (htxn : c.txn? = none) (g : Reply c → γ)
    (S : Sound may w₀ { lossy } w) (he : OpenEnv w e h) (hlive : h.liveTxns = []) :
    Triple (guard (do let r ← native L c; pure (g r)) (poisonEnv e)) w
      (fun _ w' => Sound may w₀ { lossy } w' ∧ Usable e none w')
      (fun x w' => Sound may w₀ { lossy } w' ∧ Leaves lossy x) := by
  have hbelow : c.Below w.next := S.below he.at_ (by simp [henv]) (by simp [htxn])
    (fun e h => by simp [h, NativeCall.plain] at hc)
    (fun t flags h => by simp [h, NativeCall.plain] at hc)
  have hperm : ∀ o, Permitted w.log ⟨w.pid, c, o⟩ := fun o =>
    S.permitted he (by simp) (by simp [henv]) (by simp [htxn])
  have halone : ∀ o, lossy = false → AlonePermitted w.log ⟨w.pid, c, o⟩ := by
    intro o hlossy e' he' pid t hb
    obtain rfl : e' = e := by
      cases c <;> simp_all [NativeCall.alone?, NativeCall.env?, NativeCall.plain, NativeCall.txn?]
    exact S.released hlossy he hlive (by simp) hb
  rcases native_run L c w with ⟨r, lib, hr⟩ | ⟨info, lib, hr⟩
  · have hbody : (do let r ← native L c; pure (g r) : Pkg σ γ).run w
        = (.ok (g r), w.called c lib (.returned r.rc)) := Prog.bind_ok hr
    refine Triple.ok (guard_ok hbody)
      ⟨S.plainCall hc hbelow (hperm _) (halone _) (by simp), ⟨h, ?_⟩, by simp⟩
    exact ⟨he.at_, he.env, he.healthy, he.pid⟩
  · have hbody : (do let r ← native L c; pure (g r) : Pkg σ γ).run w
        = (.error (.panic info), w.called c lib .panicked) := Prog.bind_error hr
    have S' : Sound may w₀ { lossy, poison := some e } (w.called c lib .panicked) :=
      (S.waivePoison rfl e).plainCall hc hbelow (hperm _) (halone _) fun _ e' hgroup => by
        simp_all [NativeCall.group]
    exact Triple.error (guard_panic hbody (poisonEnv_run (h := h) (by exact he.at_)))
      ⟨S'.poisonEnv he.at_ fun _ => w.called_panicked (by simp [NativeCall.group, henv]) lib,
        .stop _⟩

theorem runStat_using (t : TxnRef) :
    Using lossy may w₀ e (some t) (runStat L e (some ⟨e, t⟩)) := by
  refine Using.derefEnv fun h henv => ?_
  rw [henv, nonNull_some, pure_bind]
  refine (ask_using L rfl rfl rfl rfl _).bind ?_
  rintro ⟨rc, stat⟩
  exact (Using.check rc).bind fun _ => .pure _

theorem runInfo_using (t : TxnRef) :
    Using lossy may w₀ e (some t) (runInfo L e (some ⟨e, t⟩)) := by
  refine Using.derefEnv fun h henv => ?_
  rw [henv, nonNull_some, pure_bind]
  refine (ask_using L rfl rfl rfl rfl _).bind ?_
  rintro ⟨rc, info⟩
  exact (Using.check rc).bind fun _ => .pure _

section Alone

variable {w : World σ} {h : EnvHandle} (S : Sound may w₀ { lossy } w) (he : OpenEnv w e h)
  (hlive : h.liveTxns = [])
include S he hlive

theorem runStat_alone : Triple (runStat L e none) w (fun _ w' => Sound may w₀ { lossy } w' ∧ True)
    (fun x w' => Sound may w₀ { lossy } w' ∧ Leaves lossy x) := by
  refine Triple.step (derefEnv_run he.at_) ?_
  rw [he.env, nonNull_some, pure_bind]
  refine Triple.bind (askAlone_spec L rfl rfl rfl _ S he hlive) ?_
  rintro ⟨rc, stat⟩ w' ⟨S', U'⟩
  exact ((Using.check rc).bind fun _ => .pure _).entry S' U'

theorem runInfo_alone : Triple (runInfo L e none) w (fun _ w' => Sound may w₀ { lossy } w' ∧ True)
    (fun x w' => Sound may w₀ { lossy } w' ∧ Leaves lossy x) := by
  refine Triple.step (derefEnv_run he.at_) ?_
  rw [he.env, nonNull_some, pure_bind]
  refine Triple.bind (askAlone_spec L rfl rfl rfl _ S he hlive) ?_
  rintro ⟨rc, info⟩ w' ⟨S', U'⟩
  exact ((Using.check rc).bind fun _ => .pure _).entry S' U'

end Alone

/-- What asks about an environment with its current transaction. -/
theorem currentTxn_entry (x : Sexp) {f : EnvRef → Option TxnPtr → Pkg σ β}
    (hlive : ∀ e t, Using lossy may w₀ e (some t) (f e (some ⟨e, t⟩)))
    (hnone : ∀ e w h, Sound may w₀ { lossy } w → OpenEnv w e h → h.liveTxns = [] →
      Triple (f e none) w (fun _ w' => Sound may w₀ { lossy } w' ∧ True)
        (fun x w' => Sound may w₀ { lossy } w' ∧ Leaves lossy x)) :
    Entry lossy may w₀ (do let e ← envFromSexp x; let txn ← currentTxn e; f e txn) := by
  intro w S _
  rcases envFromSexp_run S.inv.graph x with ⟨c, hr⟩ | ⟨e, h, s, -, -, -, hr, he⟩
  · exact Triple.stopped hr ⟨S, .stop c⟩
  refine Triple.step hr ?_
  rcases currentTxn_run S.inv.graph he.at_ with ⟨hnil, hr⟩ | ⟨t, k, ht, -, hr⟩
  · exact Triple.step hr (hnone e w h S he hnil)
  · refine Triple.step hr ((hlive e t).entry S ⟨⟨h, he⟩, fun heq => ?_⟩)
    cases heq
    exact ⟨k, ht⟩

theorem mdbxEnvStat_entry (x : Sexp) : Entry lossy may w₀ (mdbxEnvStat_ L x) :=
  currentTxn_entry x (fun _ => runStat_using L) fun _ _ _ => runStat_alone L

theorem mdbxEnvInfo_entry (x : Sexp) : Entry lossy may w₀ (mdbxEnvInfo_ L x) :=
  currentTxn_entry x (fun _ => runInfo_using L) fun _ _ _ => runInfo_alone L

theorem mdbxTxnStat_entry (x : Sexp) (db : List Bytes) :
    Entry lossy may w₀ (mdbxTxnStat_ L x db) := by
  refine Entry.txnFromSexp fun e t => Using.derefTxn fun k htxn howner => ?_
  refine Using.ite ?_ ?_
  · rw [howner, nonNull_some, pure_bind, htxn]
    exact runStat_using L t
  · refine (ensureDbi_using L db).bind fun _ => ?_
    have hbody : Body lossy may w₀ e (some t) (dbiStatCall L t) :=
      Body.current fun _ => (native_body L rfl rfl rfl rfl).bind fun _ => .pure _
    refine (Using.guardTxn hbody).bind ?_
    rintro ⟨rc, stat⟩
    exact (Using.check rc).bind fun _ => .pure _

theorem mdbxTxnInfo_entry (x : Sexp) : Entry lossy may w₀ (mdbxTxnInfo_ L x) := by
  refine Entry.txnFromSexp fun e t => Using.derefTxn fun k htxn howner => ?_
  rw [howner, nonNull_some, pure_bind, htxn]
  exact runInfo_using L t

theorem envCall_using {c : EnvPtr → NativeCall} (hc : (c e).plain = true)
    (halone : (c e).alone? = none) (henv : (c e).env? = some e) (htxn : (c e).txn? = none) :
    Using lossy may w₀ e none (envCall L e c) := by
  refine Using.guardEnv (Body.derefEnv fun h henv' => ?_)
  rw [henv', nonNull_some, pure_bind]
  exact (Body.native L hc halone (by simp [henv]) (by simp [htxn])).bind fun _ => .pure _

theorem mdbxEnvReaderCheck_entry (x : Sexp) : Entry lossy may w₀ (mdbxEnvReaderCheck_ L x) := by
  refine Entry.envFromSexp fun e => (envCall_using L rfl rfl rfl rfl).bind fun ⟨_, reply⟩ => ?_
  exact (Using.whenever (Using.check _)).bind fun _ => .pure _

theorem mdbxEnvPath_entry (x : Sexp) : Entry lossy may w₀ (mdbxEnvPath_ L x) := by
  refine Entry.envFromSexp fun e => (envCall_using L rfl rfl rfl rfl).bind fun ⟨_, reply⟩ => ?_
  exact (Using.check _).bind fun _ => .pure _

theorem mdbxEnvGetFlags_entry (x : Sexp) : Entry lossy may w₀ (mdbxEnvGetFlags_ L x) := by
  refine Entry.envFromSexp fun e => (envCall_using L rfl rfl rfl rfl).bind fun ⟨_, reply⟩ => ?_
  exact (Using.check _).bind fun _ => .pure _

theorem flagsFromNames_run (table : List FlagEntry) (names : List String) (w : World σ) :
    (∃ bits, (flagsFromNames table names).run w = (.ok bits, w)) ∨
      ∃ c, (flagsFromNames table names).run w = (.error (.stop c), w) := by
  rw [flagsFromNames]
  cases bitsFrom table names with
  | ok bits => exact .inl ⟨bits, rfl⟩
  | error name => exact .inr ⟨_, rfl⟩

theorem Using.flags {t : Option TxnRef} (table : List FlagEntry) (names : List String) :
    Using lossy may w₀ e t (flagsFromNames table names) := by
  intro w S U
  rcases flagsFromNames_run table names w with ⟨bits, hr⟩ | ⟨c, hr⟩
  · exact Triple.ok hr ⟨S, U⟩
  · exact Triple.error hr ⟨S, c, rfl⟩

theorem mdbxEnvSetFlags_entry (x : Sexp) (flags : List String) (on : Bool) :
    Entry lossy may w₀ (mdbxEnvSetFlags_ L x flags on) := by
  refine Entry.envFromSexp fun e => Using.derefEnv fun h _ => ?_
  refine (Using.refuse _ _).bind fun _ => (Using.flags _ _).bind fun bits => ?_
  exact (envCall_using L (c := (.envSetFlags · bits on)) rfl rfl rfl rfl).bind fun ⟨_, reply⟩ =>
    Using.check _

theorem mdbxEnvSync_entry (x : Sexp) (force nonblock : Bool) :
    Entry lossy may w₀ (mdbxEnvSync_ L x force nonblock) := by
  refine Entry.envFromSexp fun e => ?_
  refine (envCall_using L (c := (.envSyncEx · force nonblock)) rfl rfl rfl rfl).bind
    fun ⟨_, reply⟩ => ?_
  exact .ite (.pure _) ((Using.check _).bind fun _ => .pure _)

end Environments

/-! ### Queries -/

section Queries

variable (L : Platform σ)

theorem mdbxEnvIsOpen_entry (x : Sexp) : Entry lossy may w₀ (mdbxEnvIsOpen_ x : Pkg σ Bool) := by
  intro w S _
  rw [mdbxEnvIsOpen_]
  rcases isEnvSexp_run x w with hx | ⟨n, s, rfl, hs, hx⟩
  · exact Triple.stopped hx ⟨S, .stop _⟩
  refine Triple.step hx ?_
  cases haddr : s.addr with
  | none => exact ⟨S, trivial⟩
  | some e =>
    obtain ⟨rfl, hsome⟩ := S.inv.graph.envSexp hs haddr
    obtain ⟨h, he⟩ := Option.isSome_iff_exists.mp hsome
    exact Triple.step (derefEnv_run he) (Triple.step currentPid_run ⟨S, trivial⟩)

theorem eitherPoisoned_run {w : World σ} (G : Graph w) {t : TxnRef} {k : TxnHandle}
    (ht : w.txns t = some k) :
    (∃ e h, LiveTxn w e t k ∧ w.envs e = some h ∧
      (eitherPoisoned k).run w = (.ok (k.poisoned || h.poisoned), w)) ∨
      k.owner = none ∧ (eitherPoisoned k).run w = (.ok k.poisoned, w) := by
  rw [eitherPoisoned]
  cases howner : k.owner with
  | none =>
    refine .inr ⟨rfl, ?_⟩
    cases k.poisoned <;> rfl
  | some e =>
    obtain ⟨h, he, -⟩ := G.owner ht howner
    refine .inl ⟨e, h, ⟨ht, howner⟩, he, ?_⟩
    cases k.poisoned with
    | true => simp
    | false =>
      simp only [Bool.false_eq_true, if_false, Bool.false_or]
      rw [Prog.bind_ok (derefEnv_run he)]
      rfl

theorem activeState_spec {w : World σ} (S : Sound may w₀ { lossy } w) {t : TxnRef} {k : TxnHandle}
    (ht : w.txns t = some k) (hpid : k.pid = w.pid) :
    Triple (activeState L k) w (fun _ w' => Sound may w₀ { lossy } w' ∧ True)
      (fun x w' => Sound may w₀ { lossy } w' ∧ Leaves lossy x) := by
  rw [activeState]
  rcases eitherPoisoned_run S.inv.graph ht with ⟨e, h, hlive, he, hr⟩ | ⟨howner, hr⟩
  · refine Triple.step hr ?_
    by_cases hpois : (k.poisoned || h.poisoned) = true
    · rw [if_pos hpois]
      exact ⟨S, trivial⟩
    rw [if_neg hpois, txnFailed, S.inv.graph.txnPtr hlive]
    obtain ⟨h', he', henv, hpid', -⟩ := S.inv.graph.owner ht hlive.owner
    obtain rfl : h = h' := Option.some.inj (he ▸ he')
    have hopen : OpenEnv w e h := ⟨he, henv, by simp_all, hpid'.trans hpid⟩
    have hquiet : Using lossy may w₀ e (some t) (native L (.txnFlags ⟨e, t⟩)) :=
      Using.quiet L rfl rfl rfl (by simp [NativeCall.env?]) (by simp [NativeCall.txn?])
    refine Using.entry ((hquiet.bind fun _ => .pure _).bind fun _ => .pure _) S
      ⟨⟨h, hopen⟩, fun heq => ?_⟩
    cases heq
    exact ⟨k, hlive⟩
  · refine Triple.step hr ?_
    have htxn : k.txn = none := by rw [S.inv.graph.txn ht, howner]; rfl
    rw [txnFailed, htxn]
    cases k.poisoned <;> exact ⟨S, trivial⟩

theorem mdbxTxnState_entry (x : Sexp) : Entry lossy may w₀ (mdbxTxnState_ L x) := by
  intro w S _
  rw [mdbxTxnState_]
  rcases isTxnSexp_run x w with hx | ⟨n, s, rfl, hs, hx⟩
  · exact Triple.stopped hx ⟨S, .stop _⟩
  refine Triple.step hx ?_
  cases haddr : s.addr with
  | none => exact ⟨S, trivial⟩
  | some t =>
    obtain ⟨rfl, hsome⟩ := S.inv.graph.txnSexp hs haddr
    obtain ⟨k, ht⟩ := Option.isSome_iff_exists.mp hsome
    refine Triple.step (derefTxn_run ht) (Triple.step currentPid_run ?_)
    by_cases hpid : k.pid = w.pid
    · rw [if_neg (by simpa using hpid)]
      cases k.state with
      | active => exact activeState_spec L S ht hpid
      | committed | aborted => exact ⟨S, trivial⟩
    · rw [if_pos hpid]
      exact ⟨S, trivial⟩

theorem mdbxTxnId_entry (x : Sexp) : Entry lossy may w₀ (mdbxTxnId_ L x) := by
  refine Entry.txnFromSexp fun e t => Using.derefTxn fun k htxn _ => ?_
  rw [htxn, nonNull_some, pure_bind]
  have hquiet : Using lossy may w₀ e (some t) (native L (.txnId ⟨e, t⟩)) :=
    Using.quiet L rfl rfl rfl (by simp [NativeCall.env?]) (by simp [NativeCall.txn?])
  exact hquiet.bind fun _ => .pure _

theorem mdbxLimits_entry (pagesize : Double) : Entry lossy may w₀ (mdbxLimits_ L pagesize) := by
  rw [mdbxLimits_]
  by_cases hle : pagesize.le (maxNativeInteger L) = true
  · refine (Entry.refuse _ _).bind fun _ => ?_
    obtain ⟨m, hm, hbound, -, heq⟩ := maxNativeInteger_eq L
    obtain ⟨ps, hps⟩ := orZero_converts hm hbound (heq ▸ hle)
    refine Entry.bind (fun w S _ => Triple.ok (narrow_run hps w) ⟨S, trivial⟩) fun ps => ?_
    have hquiet : Entry lossy may w₀ (native L (.limits ps)) := fun w S _ => by
      obtain ⟨r, lib, hr⟩ := native_quiet L (c := .limits ps) rfl w
      refine Triple.ok hr ⟨S.plainCall rfl ?_ ?_ (alonePermitted_of rfl _) (by simp), trivial⟩
      · simp [NativeCall.Below, NativeCall.env?, NativeCall.txn?]
      · simp [Permitted, NativeCall.env?, NativeCall.txn?]
    exact hquiet.bind fun reply => (Entry.refuse _ _).bind fun _ => .pure _
  · exact fun w S _ => Triple.stopped (refuse_run hle) ⟨S, .stop _⟩

end Queries

end Mdbx
