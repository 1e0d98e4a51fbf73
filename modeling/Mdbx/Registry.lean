import Mdbx.Safety

/-! The registry of live transactions: which transactions it holds in a reachable state, what a
commit or an abort that did not end its transaction leaves there, and what the statistics calls
read from it. -/

namespace Mdbx

open ProofKit

variable {σ : Type} {w : World σ}

/-- The registry of each environment and the fields of each transaction handle agree. -/
structure RegistryExact (w : World σ) : Prop where
  nodup : ∀ {e h}, w.envs e = some h → h.liveTxns.Nodup
  few : ∀ {e h}, w.envs e = some h → h.liveTxns.length ≤ 1
  live_iff_owner : ∀ {e h t k pid}, w.envs e = some h → w.txns t = some k →
    Begun w.log pid ⟨e, t⟩ → (t ∈ h.liveTxns ↔ k.owner = some e)
  owner_iff_active : ∀ {e t k pid}, w.txns t = some k → Begun w.log pid ⟨e, t⟩ →
    (k.owner = some e ↔ k.state = .active)
  active_iff_txn : ∀ {e t k pid}, w.txns t = some k → Begun w.log pid ⟨e, t⟩ →
    (k.state = .active ↔ k.txn ≠ none)

section Exact

variable {v : Waived} {e : EnvRef} {h : EnvHandle} {t : TxnRef} {k : TxnHandle}

/-- A handle whose transaction was begun on `e` has no other owner. -/
theorem Inv.owner_of_begun (I : Inv v w) (ht : w.txns t = some k) {pid : Pid}
    (hb : Begun w.log pid ⟨e, t⟩) {e' : EnvRef} (howner : k.owner = some e') : e' = e := by
  have hb' := I.traced.begun ht howner
  have heq := (I.safe.begun_unique hb' hb rfl).2
  exact congrArg TxnPtr.env heq

theorem Inv.registryExact (I : Inv v w) : RegistryExact w where
  nodup he := by
    have hfew := I.graph.few he
    rcases hl : EnvHandle.liveTxns _ with _ | ⟨t, _ | ⟨t', rest⟩⟩
    · exact List.nodup_nil
    · exact List.nodup_singleton t
    · simp [hl] at hfew
  few he := I.graph.few he
  live_iff_owner {e h t k pid} he ht _ := by
    rw [I.graph.live he t]
    constructor
    · rintro ⟨k', ht', howner⟩
      rw [ht] at ht'
      cases ht'
      exact howner
    · intro howner
      exact ⟨k, ht, howner⟩
  owner_iff_active {e t k pid} ht hb := by
    rw [I.graph.state ht]
    constructor
    · intro howner
      simp [howner]
    · intro hsome
      obtain ⟨e', howner⟩ := Option.isSome_iff_exists.mp hsome
      rw [howner, I.owner_of_begun ht hb howner]
  active_iff_txn {e t k pid} ht _ := by
    rw [I.graph.state ht, I.graph.txn ht]
    cases k.owner <;> simp

/-- `current_txn` is the native handle of the live transaction, and null when there is none. -/
theorem Inv.currentTxn (I : Inv v w) (he : w.envs e = some h) :
    (Mdbx.currentTxn e).run w = (.ok (h.liveTxns.head?.map (⟨e, ·⟩)), w) := by
  rcases currentTxn_run I.graph he with ⟨hnil, hr⟩ | ⟨t, k, -, hl, hr⟩
  · rw [hr, hnil]
    rfl
  · rw [hr, hl]
    rfl

end Exact

/-! ### Commits and aborts that do not end the transaction -/

section Finish

variable (L : Platform σ) {e : EnvRef} {t : TxnRef} {k : TxnHandle}

/-- `mdbx_txn_commit_` or `mdbx_txn_abort_`. -/
def finishEntry (commit : Bool) (txn : Sexp) : Pkg σ Unit :=
  if commit then mdbxTxnCommit_ L txn else mdbxTxnAbort_ L txn

/-- The transaction `t` is active, holds its native transaction and is in the registry of `e`. -/
def World.StillLive (w : World σ) (e : EnvRef) (t : TxnRef) : Prop :=
  ∃ h k, w.envs e = some h ∧ w.txns t = some k ∧ k.owner = some e ∧ k.state = .active ∧
    k.txn = some ⟨e, t⟩ ∧ t ∈ h.liveTxns

theorem Graph.stillLive (G : Graph w) (ht : LiveTxn w e t k) : w.StillLive e t := by
  obtain ⟨h, he, -⟩ := G.owner ht.at_ ht.owner
  exact ⟨h, k, he, ht.at_, ht.owner, (G.state ht.at_).mpr (by simp [ht.owner]), G.txnPtr ht,
    (G.live he t).mpr ⟨k, ht.at_, ht.owner⟩⟩

/-- Ending a transaction is the first call of `finish_txn`. -/
theorem Finishes.log {commit : Bool} {h : EnvHandle} {s : TxnSexp} {r : Except Exit Unit}
    {w' : World σ} (F : Finishes commit e h t k s w r w') :
    ∃ o, ⟨w.pid, finishNative commit ⟨e, t⟩, o⟩ :: w.log <:+ w'.log := by
  cases F with
  | panicked info lib => exact ⟨.panicked, List.suffix_rfl⟩
  | mismatch lib => exact ⟨.returned Status.threadMismatch, List.suffix_rfl⟩
  | ended lib rc hrc w₁ h' R he' =>
    refine ⟨.returned rc, ?_⟩
    cases R with
    | same => exact List.suffix_rfl
    | asked => exact List.suffix_cons _ _

/-- A transaction that libmdbx did not end is still live, and the caller hears of it. -/
theorem Finishes.stillLive {commit : Bool} {h : EnvHandle} {s : TxnSexp} {r : Except Exit Unit}
    {w' : World σ} (G : Graph w) (he : w.envs e = some h) (ht : LiveTxn w e t k)
    (F : Finishes commit e h t k s w r w') {o : Outcome}
    (ho : o = .panicked ∨ o = .returned Status.threadMismatch)
    (hlog : w'.log = ⟨w.pid, finishNative commit ⟨e, t⟩, o⟩ :: w.log) :
    (∃ c, r = .error (.stop c)) ∧ w'.StillLive e t := by
  obtain ⟨h₀, k₀, he₀, hk₀, howner, hactive, htxn, hmem⟩ := G.stillLive ht
  obtain rfl : h = h₀ := Option.some.inj (he ▸ he₀)
  obtain rfl : k = k₀ := Option.some.inj (ht.at_ ▸ hk₀)
  cases F with
  | panicked info lib =>
    exact ⟨⟨_, rfl⟩, { h with poisoned := true }, { k with poisoned := true }, by simp, by simp,
      howner, hactive, htxn, hmem⟩
  | mismatch lib => exact ⟨⟨_, rfl⟩, h, k, he, ht.at_, howner, hactive, htxn, hmem⟩
  | ended lib rc hrc w₁ h' R he' =>
    exfalso
    cases R with
    | same =>
      obtain ⟨rfl, -⟩ : Outcome.returned rc = o ∧ True := by simpa [World.detached] using hlog
      rcases ho with ho | ho
      · cases ho
      · exact hrc (by simpa using ho)
    | asked =>
      have := congrArg List.length hlog
      simp [World.detached] at this

theorem finishEntry_stillLive (G : Graph w) {commit : Bool} (ht : LiveTxn w e t k)
    {r : Except Exit Unit} {w' : World σ} {o : Outcome}
    (hrun : (finishEntry L commit (.txn t)).run w = (r, w'))
    (ho : o = .panicked ∨ o = .returned Status.threadMismatch)
    (hlog : w'.log = ⟨w.pid, finishNative commit ⟨e, t⟩, o⟩ :: w.log) :
    (∃ c, r = .error (.stop c)) ∧ w'.StillLive e t := by
  have hsame : w' ≠ w := by
    rintro rfl
    exact absurd hlog (by simp)
  have hfinishes : ∀ {e' h t' k' s r'} {w'' : World σ}, Sexp.txn t = .txn t' → OpenEnv w e' h →
      LiveTxn w e' t' k' → (finishEntry L commit (.txn t)).run w = (r', w'') →
      Finishes commit e' h t' k' s w r' w'' → (∃ c, r = .error (.stop c)) ∧ w'.StillLive e t := by
    intro e' h t' k' s r' w'' hx he' ht' hrun' F
    cases hx
    obtain rfl : k = k' := Option.some.inj (ht.at_ ▸ ht'.at_)
    obtain rfl : e = e' := Option.some.inj (ht.owner ▸ ht'.owner)
    rw [hrun] at hrun'
    cases hrun'
    exact F.stillLive G he'.at_ ht ho hlog
  cases commit with
  | true =>
    rcases finishTxn_cases L G (.txn t) true with
      ⟨c, hr⟩ | ⟨e', h, t', k', s, r', w'', hx, -, -, he', ht', hr, F⟩
    · have hr : (finishEntry L true (.txn t)).run w = (.error (.stop c), w) := hr
      rw [hrun] at hr
      exact absurd (congrArg Prod.snd hr) hsame
    · exact hfinishes hx he' ht' hr F
  | false =>
    rcases mdbxTxnAbort_cases L G (.txn t) with ⟨r', hr, -⟩ |
      ⟨e', h, t', k', s, hx, -, -, -, -, -, -, hr⟩ |
      ⟨e', h, t', k', s, r', w'', hx, -, -, he', ht', hr, F⟩
    · have hr : (finishEntry L false (.txn t)).run w = (r', w) := hr
      rw [hrun] at hr
      exact absurd (congrArg Prod.snd hr) hsame
    · have hr : (finishEntry L false (.txn t)).run w = (.ok (), w.endedHere e' h t' k' s) := hr
      rw [hrun] at hr
      cases hr
      exact absurd hlog (by simp [World.endedHere, World.detached])
    · exact hfinishes hx he' ht' hr F

end Finish

/-! ### Beginnings and statistics -/

section Questions

variable (L : Platform σ) {e : EnvRef} {h : EnvHandle} {s : EnvSexp}

/-- An environment with a registered transaction begins no other. -/
theorem mdbxTxnBegin_refused (G : Graph w) {x : ℕ} (hs : w.envSexps x = some s)
    (haddr : s.addr = some e) (he : w.envs e = some h) (hlive : h.liveTxns ≠ []) (write : Bool)
    (flags : List String) :
    ∃ c, (mdbxTxnBegin_ L (.env x) write flags).run w = (.error (.stop c), w) := by
  rcases envFromSexp_run G (.env x) with ⟨c, hr⟩ | ⟨e', h', s', hx, hs', haddr', hr, he'⟩
  · exact ⟨c, by rw [mdbxTxnBegin_, Prog.bind_error hr]⟩
  · cases hx
    rw [hs] at hs'
    cases hs'
    rw [haddr] at haddr'
    cases haddr'
    obtain rfl : h = h' := Option.some.inj (he ▸ he'.at_)
    refine ⟨.txnAlreadyOpen, ?_⟩
    rw [mdbxTxnBegin_, Prog.bind_ok hr, Prog.bind_ok (derefEnv_run he),
      Prog.bind_error (refuse_run hlive)]

theorem mdbxEnvStat_run {v : Waived} (I : Inv v w) (hs : w.envSexps e = some s)
    (haddr : s.addr = some e) (he : OpenEnv w e h) : (mdbxEnvStat_ L (.env e)).run w
      = (runStat L e (h.liveTxns.head?.map (⟨e, ·⟩))).run w := by
  rw [mdbxEnvStat_, Prog.bind_ok (envFromSexp_open hs haddr he), Prog.bind_ok (I.currentTxn he.at_)]

theorem mdbxEnvInfo_run {v : Waived} (I : Inv v w) (hs : w.envSexps e = some s)
    (haddr : s.addr = some e) (he : OpenEnv w e h) : (mdbxEnvInfo_ L (.env e)).run w
      = (runInfo L e (h.liveTxns.head?.map (⟨e, ·⟩))).run w := by
  rw [mdbxEnvInfo_, Prog.bind_ok (envFromSexp_open hs haddr he), Prog.bind_ok (I.currentTxn he.at_)]

/-- The statistics of a live transaction are asked for as those of its environment are. -/
theorem questions_agree {v : Waived} (I : Inv v w) (hs : w.envSexps e = some s)
    (haddr : s.addr = some e) (he : OpenEnv w e h) {t : TxnRef} {k : TxnHandle} {st : TxnSexp}
    (hst : w.txnSexps t = some st) (haddrt : st.addr = some t) (ht : LiveTxn w e t k) :
    (mdbxEnvStat_ L (.env e)).run w = (mdbxTxnStat_ L (.txn t) []).run w ∧
      (mdbxEnvInfo_ L (.env e)).run w = (mdbxTxnInfo_ L (.txn t)).run w := by
  have hx := txnFromSexp_live I.graph hst haddrt he ht
  rw [mdbxEnvStat_run L I hs haddr he, mdbxEnvInfo_run L I hs haddr he,
    I.graph.liveTxns_eq ht.at_ ht.owner he.at_]
  constructor
  · rw [mdbxTxnStat_, Prog.bind_ok hx, Prog.bind_ok (derefTxn_run ht.at_), if_pos rfl, ht.owner,
      nonNull_some, pure_bind, I.graph.txnPtr ht]
    rfl
  · rw [mdbxTxnInfo_, Prog.bind_ok hx, Prog.bind_ok (derefTxn_run ht.at_), ht.owner,
      nonNull_some, pure_bind, I.graph.txnPtr ht]
    rfl

/-- On an environment that may not be used, neither form asks libmdbx anything. -/
theorem questions_refused {v : Waived} (I : Inv v w) (he : w.envs e = some h)
    (hunusable : h.poisoned = true ∨ h.pid ≠ w.pid) {t : TxnRef} {k : TxnHandle}
    (ht : LiveTxn w e t k) : ∀ m ∈ [mdbxEnvStat_ L (.env e), mdbxTxnStat_ L (.txn t) [],
      mdbxEnvInfo_ L (.env e), mdbxTxnInfo_ L (.txn t)],
      ∃ c, m.run w = (.error (.stop c), w) := by
  have henv : ∃ c, (envFromSexp (.env e)).run w = (.error (.stop c), w) := by
    rcases envFromSexp_run I.graph (.env e) with hr | ⟨e', h', s', hx, -, -, -, he'⟩
    · exact hr
    · cases hx
      obtain rfl : h = h' := Option.some.inj (he ▸ he'.at_)
      rcases hunusable with h | h
      · simp [he'.healthy] at h
      · exact absurd he'.pid h
  have htxn : ∃ c, (txnFromSexp (.txn t)).run w = (.error (.stop c), w) := by
    rcases txnFromSexp_run I.graph (.txn t) with hr | ⟨e', h', t', k', s', hx, -, -, -, he', ht'⟩
    · exact hr
    · cases hx
      obtain rfl : k = k' := Option.some.inj (ht.at_ ▸ ht'.at_)
      obtain rfl : e = e' := Option.some.inj (ht.owner ▸ ht'.owner)
      obtain rfl : h = h' := Option.some.inj (he ▸ he'.at_)
      rcases hunusable with h | h
      · simp [he'.healthy] at h
      · exact absurd he'.pid h
  obtain ⟨c, hc⟩ := henv
  obtain ⟨d, hd⟩ := htxn
  intro m hm
  simp only [List.mem_cons, List.not_mem_nil, or_false] at hm
  rcases hm with rfl | rfl | rfl | rfl
  · exact ⟨c, by rw [mdbxEnvStat_, Prog.bind_error hc]⟩
  · exact ⟨d, by rw [mdbxTxnStat_, Prog.bind_error hd]⟩
  · exact ⟨c, by rw [mdbxEnvInfo_, Prog.bind_error hc]⟩
  · exact ⟨d, by rw [mdbxTxnInfo_, Prog.bind_error hd]⟩

end Questions

/-- In every reachable state the registry is exact, commits and aborts that end nothing leave it so,
no environment begins a second transaction, and the statistics calls use the live transaction:
none of them is made with a null one unless every transaction begun on its environment has been
released. -/
theorem Reachable.registry {L : Platform σ} (hL : L.Allocates) (hr : Reachable L w) :
    RegistryExact w ∧
    (∀ {e t k o commit r w'}, LiveTxn w e t k →
      (finishEntry L commit (.txn t)).run w = (r, w') →
      (o = .panicked ∨ o = .returned Status.threadMismatch) →
      w'.log = ⟨w.pid, finishNative commit ⟨e, t⟩, o⟩ :: w.log →
      (∃ c, r = .error (.stop c)) ∧ w'.StillLive e t) ∧
    (∀ {x s e h} write flags, w.envSexps x = some s → s.addr = some e → w.envs e = some h →
      h.liveTxns ≠ [] →
      ∃ c, (mdbxTxnBegin_ L (.env x) write flags).run w = (.error (.stop c), w)) ∧
    (∀ {e h}, w.envs e = some h →
      (currentTxn e).run w = (.ok (h.liveTxns.head?.map (⟨e, ·⟩)), w)) ∧
    (∀ {e h s}, w.envSexps e = some s → s.addr = some e → OpenEnv w e h →
      (mdbxEnvStat_ L (.env e)).run w = (runStat L e (h.liveTxns.head?.map (⟨e, ·⟩))).run w ∧
      (mdbxEnvInfo_ L (.env e)).run w = (runInfo L e (h.liveTxns.head?.map (⟨e, ·⟩))).run w) ∧
    (∀ {e h s t k st}, w.envSexps e = some s → s.addr = some e → w.envs e = some h →
      w.txnSexps t = some st → st.addr = some t → LiveTxn w e t k →
      (h.poisoned = false ∧ h.pid = w.pid →
        (mdbxEnvStat_ L (.env e)).run w = (mdbxTxnStat_ L (.txn t) []).run w ∧
        (mdbxEnvInfo_ L (.env e)).run w = (mdbxTxnInfo_ L (.txn t)).run w) ∧
      (h.poisoned = true ∨ h.pid ≠ w.pid →
        ∀ m ∈ [mdbxEnvStat_ L (.env e), mdbxTxnStat_ L (.txn t) [], mdbxEnvInfo_ L (.env e),
          mdbxTxnInfo_ L (.txn t)], ∃ c, m.run w = (.error (.stop c), w))) ∧
    ∀ {c past e}, c :: past <:+ w.log →
      (c.call = .envStatEx e none ∨ c.call = .envInfoEx e none) →
      ∀ pid t, Begun past pid ⟨e, t⟩ → Released past ⟨e, t⟩ := by
  have I := hr.inv hL
  refine ⟨I.registryExact, ?_, ?_, ?_, ?_, ?_, ?_⟩
  · intro e t k o commit r w' ht hrun ho hlog
    exact finishEntry_stillLive L I.graph ht hrun ho hlog
  · intro x s e h write flags hs haddr he hlive
    exact mdbxTxnBegin_refused L I.graph hs haddr he hlive write flags
  · intro e h he
    exact I.currentTxn he
  · intro e h s hs haddr he
    exact ⟨mdbxEnvStat_run L I hs haddr he, mdbxEnvInfo_run L I hs haddr he⟩
  · intro e h s t k st hs haddr he hst haddrt ht
    obtain ⟨h', he', henv, -⟩ := I.graph.owner ht.at_ ht.owner
    obtain rfl : h = h' := Option.some.inj (he ▸ he')
    refine ⟨fun ⟨hhealthy, hpid⟩ => ?_, fun hunusable => ?_⟩
    · exact questions_agree L I hs haddr ⟨he, henv, hhealthy, hpid⟩ hst haddrt ht
    · exact questions_refused L I he hunusable ht
  · intro c past e hc hcall pid t hb
    obtain ⟨-, halone, -⟩ := I.safe.suffix hc
    refine halone rfl e ?_ pid t hb
    rcases hcall with hcall | hcall <;> simp [hcall, NativeCall.alone?]

/-- A run that leaves a transaction live. -/
def openAndBegin : List Event :=
  [.entry (.envOpen "db" "key" false true (.ofNat 0) (.ofNat 0) (.ofNat 0) 0 []),
    .entry (.txnBegin (.env 0) true [])]

/-- In the state that it reaches, the environment's current transaction is the one begun. -/
theorem Reachable.registry_openAndBegin :
    (currentTxn 0).run ((World.start () 1).after obliging openAndBegin)
      = (.ok (some ⟨0, 1⟩), (World.start () 1).after obliging openAndBegin) := by
  have hr : Reachable obliging ((World.start () 1).after obliging openAndBegin) :=
    ⟨(), 1, World.after_steps (by decide +kernel)⟩
  have he : ((World.start () 1).after obliging openAndBegin).envs 0
      = some ⟨some 0, false, 1, "key", "db", [1], (none, none)⟩ := by
    decide +kernel
  exact (Reachable.registry (Platform.scripted_allocates _) hr).2.2.2.1 he

end Mdbx
