import Mdbx.Transitions

/-! The entry points that open environments and begin transactions keep the invariant: what they
create is held by the function alone until its handle, its R object and its registry entry are
in place. -/

namespace Mdbx

open ProofKit

variable {σ : Type} {lossy : Bool} {may : NativeCall → Prop} {w w₀ : World σ} {v : Waived}

theorem fresh_run (w : World σ) :
    (fresh : Pkg σ ℕ).run w = (.ok w.next, { w with next := w.next + 1 }) := rfl

/-- What one kind of commit allows, a wider kind allows too. -/
theorem Sound.weaken {may' : NativeCall → Prop} (S : Sound may w₀ v w) (h : ∀ t, may t → may' t) :
    Sound may' w₀ v w :=
  ⟨S.inv, { S.later with reserved := fun hc hno => S.later.reserved hc fun hmay => hno (h _ hmay) }⟩

/-- A step that commits nothing may follow any other. -/
theorem Sound.andThen {v' : Waived} {w' : World σ} (S : Sound may w₀ v w)
    (S' : Sound (fun _ => False) w v' w') : Sound may w₀ v' w' :=
  S.trans (S'.weaken fun _ => False.elim)

theorem Sound.draw (S : Sound may w₀ v w) : Sound may w₀ v { w with next := w.next + 1 } where
  inv :=
    { fresh := S.inv.fresh.draw
      graph := { S.inv.graph with }
      traced := { S.inv.traced with }
      conserved := { S.inv.conserved with }
      safe := S.inv.safe }
  later := { S.later with next := S.later.next.trans (Nat.le_succ _) }

/-- A transaction that is about to be begun is waived. -/
theorem Sound.waiveBegun (S : Sound may w₀ { lossy } w) (p : TxnPtr) :
    Sound may w₀ { lossy, begun := some p } w where
  inv :=
    { fresh := S.inv.fresh
      graph := S.inv.graph
      traced := S.inv.traced.waiveBegun _
      conserved := S.inv.conserved.waiveBegun rfl _
      safe := S.inv.safe }
  later := S.later

/-! ### Numbers that nothing bears yet -/

namespace Fresh

variable (F : Fresh w)
include F

theorem env_none {n : ℕ} (hn : w.next ≤ n) : w.envs n = none := by
  by_contra h
  obtain ⟨g, hg⟩ := Option.ne_none_iff_exists'.mp h
  exact absurd (F.env hg) (not_lt.mpr hn)

theorem txn_none {n : ℕ} (hn : w.next ≤ n) : w.txns n = none := by
  by_contra h
  obtain ⟨k, hk⟩ := Option.ne_none_iff_exists'.mp h
  exact absurd (F.txn hk) (not_lt.mpr hn)

theorem envSexp_none {n : ℕ} (hn : w.next ≤ n) : w.envSexps n = none := by
  by_contra h
  obtain ⟨s, hs⟩ := Option.ne_none_iff_exists'.mp h
  exact absurd (F.envSexp hs) (not_lt.mpr hn)

theorem txnSexp_none {n : ℕ} (hn : w.next ≤ n) : w.txnSexps n = none := by
  by_contra h
  obtain ⟨s, hs⟩ := Option.ne_none_iff_exists'.mp h
  exact absurd (F.txnSexp hs) (not_lt.mpr hn)

theorem not_closed {n : ℕ} (hn : w.next ≤ n) : ¬ Closed w.log n := by
  rintro ⟨c, hc, hcall, -⟩
  exact absurd ((F.log hc).2.1 n (by simp [hcall, NativeCall.env?])) (not_lt.mpr hn)

theorem not_panicked {n : ℕ} (hn : w.next ≤ n) : ¬ Panicked w.log n := by
  rintro ⟨c, hc, hgroup, -⟩
  have hbelow := F.log hc
  unfold NativeCall.group at hgroup
  split at hgroup
  · cases hgroup
    exact absurd (hbelow.2.1 n ‹_›) (not_lt.mpr hn)
  · cases hgroup
    exact absurd (hbelow.2.2.1 _ ‹_›).1 (not_lt.mpr hn)
  · cases hgroup

theorem not_released {p : TxnPtr} (hn : w.next ≤ p.id) : ¬ Released w.log p := by
  rintro (⟨c, hc, hcall, -⟩ | ⟨c, hc, hcall, -⟩)
  · have htxn : c.call.txn? = some p := by
      rcases c with ⟨pid, call, outcome⟩
      cases call <;> simp_all [NativeCall.finishes, NativeCall.txn?]
    exact absurd ((F.log hc).2.2.1 p htxn).2 (not_lt.mpr hn)
  · exact absurd ((F.log hc).2.2.1 p (by rw [hcall]; rfl)).2 (not_lt.mpr hn)

theorem not_committed {p : TxnPtr} (hn : w.next ≤ p.id) : ¬ Committed w.log p := by
  rintro ⟨c, hc, hcall, houtcome⟩
  refine F.not_released hn (.inl ?_)
  exact ⟨c, hc, by simp [hcall, NativeCall.finishes], by simp [houtcome],
    by simp [houtcome, Status.success, Status.threadMismatch]⟩

end Fresh

/-! ### Beginning a transaction -/

section Begin

variable (L : Platform σ) {e : EnvRef} {h : EnvHandle} {t : TxnRef} {k : TxnHandle}

/-- A native transaction that no handle holds yet. -/
structure Pending (e : EnvRef) (h : EnvHandle) (t : TxnRef) (w : World σ) : Prop where
  env : OpenEnv w e h
  live : h.liveTxns = []
  new : w.txns t = none
  noSexp : w.txnSexps t = none
  lt : t < w.next
  begun : Begun w.log w.pid ⟨e, t⟩
  unreleased : ¬ Released w.log ⟨e, t⟩
  notCommitted : ∀ e', ¬ Committed w.log ⟨e', t⟩

/-- It is still pending after a collection that does not take its environment. -/
theorem Pending.allocate (hL : lossy = false → L.Allocates)
    (I : Inv { lossy, begun := some ⟨e, t⟩ } w) (P : Pending e h t w) :
    ∃ r w', (allocate L [.env e]).run w = (r, w') ∧
      (r = .ok () ∨ lossy = true ∧ r = .error .longjmp) ∧
      Sound (fun _ => False) w { lossy, begun := some ⟨e, t⟩ } w' ∧ Pending e h t w' := by
  obtain ⟨r, w', hrun, hr, S, henv, -, -⟩ : ∃ r w', _ ∧ _ ∧ Sound (fun _ => False) w _ w' ∧ _ :=
    allocate_spec L hL I rfl rfl rfl [.env e] (by simp)
  have hold : ∀ {k}, w'.txns t ≠ some k := by
    intro k hk
    obtain ⟨k₀, hk₀, -⟩ := S.later.txn hk P.lt
    simp [P.new] at hk₀
  refine ⟨r, w', hrun, hr, S, ?_⟩
  constructor
  · exact ⟨henv e h P.env.at_ P.live (.inl (by simp)), P.env.env, P.env.healthy,
      P.env.pid.trans S.later.pid.symm⟩
  · exact P.live
  · exact Option.eq_none_iff_forall_ne_some.mpr fun k => hold
  · refine Option.eq_none_iff_forall_ne_some.mpr fun s hs => ?_
    obtain ⟨s₀, hs₀⟩ := S.later.txnSexp hs P.lt
    simp [P.noSexp] at hs₀
  · exact P.lt.trans_le S.later.next
  · obtain ⟨c, hc, hb⟩ := P.begun
    exact ⟨c, S.later.log.subset hc, S.later.pid ▸ hb⟩
  · intro hreleased
    rcases S.later.released hreleased P.lt with h | ⟨k, hk⟩
    · exact P.unreleased h
    · simp [P.new] at hk
  · intro e' hc
    exact (S.later.committed hc).elim (P.notCommitted e') id

/-- The world in which the handle `k` holds the transaction `t`. -/
def World.registered (w : World σ) (e : EnvRef) (h : EnvHandle) (t : TxnRef) (k : TxnHandle)
    (s : TxnSexp) : World σ :=
  { (w.setTxn t (some k)).setTxnSexp t s with
    liveTxnHandles := w.liveTxnHandles + 1 }.setEnv e
      (some { h with liveTxns := h.liveTxns ++ [t] })

/-- The handle that `mdbx_txn_begin_` makes. -/
def beginHandle (e : EnvRef) (t : TxnRef) (write : Bool) (pid : Pid) : TxnHandle :=
  ⟨some ⟨e, t⟩, some e, .active, write, false, pid, 0, 0, false, []⟩

theorem Sound.registered (S : Sound may w₀ { lossy, begun := some ⟨e, t⟩ } w)
    (P : Pending e h t w)
    (ht : w₀.next ≤ t) (write : Bool) {s : TxnSexp} (haddr : s.addr = some t) :
    Sound may w₀ { lossy } (w.registered e h t (beginHandle e t write w.pid) s) := by
  have hnot : Abandoned.txn ⟨e, t⟩ ∉ w.abandoned := by
    intro hmem
    rcases S.inv.conserved.givenUp hmem P.env.at_ P.env.env with hp | hp
    · simp [P.env.healthy] at hp
    · exact hp P.env.pid
  set k := beginHandle e t write w.pid with hk
  set h' := { h with liveTxns := [t] } with hh'
  have hfresh : Fresh ((w.setTxn t (some k)).setEnv e (some h')) :=
    (S.inv.fresh.setTxn P.lt (by simp [hk, beginHandle])).setEnv (h := h) P.env.at_ rfl
  have hgraph : Graph ((w.setTxn t (some k)).setEnv e (some h')) :=
    S.inv.graph.registerTxn P.env.at_ P.env.env P.live P.new rfl rfl rfl rfl P.env.pid.symm
  have htraced : Traced { lossy } ((w.setTxn t (some k)).setEnv e (some h')) := by
    have T : Traced { lossy } w := Traced.unwaiveBegun (p := some ⟨e, t⟩) { S.inv.traced with }
    obtain ⟨hended, htorn⟩ := not_or.mp P.unreleased
    exact (T.registerTxn (k := k) rfl rfl P.begun hended htorn P.notCommitted).setEnv (h := h)
      P.env.at_ (.inl rfl) rfl rfl
  have hconserved : Conserved { lossy, reclaimed := some t }
      ((w.setTxn t (some k)).setEnv e (some h')) :=
    (Conserved.registerTxn (v := { lossy }) (k := k) S.inv.conserved rfl P.new rfl hnot).setEnv
      (h := h) P.env.at_ rfl rfl id
  have hlater : Later may w₀ ((w.setTxn t (some k)).setEnv e (some h')) := by
    refine Later.setEnv (S.later.setTxn fun hlt => absurd hlt (not_lt.mpr ht)) fun _ => ?_
    exact ⟨h, P.env.at_, rfl, id, id, fun _ => rfl⟩
  have S' : Sound may w₀ { lossy, reclaimed := some t }
      ((w.setTxn t (some k)).setEnv e (some h')) :=
    ⟨⟨hfresh, hgraph, { htraced with }, hconserved, S.inv.safe⟩, hlater⟩
  have hlive : LiveTxn ((w.setTxn t (some k)).setEnv e (some h')) e t k := ⟨by simp, rfl⟩
  have S'' : Sound may w₀ { lossy } (((w.setTxn t (some k)).setEnv e (some h')).setTxnSexp t s) :=
    Sound.setTxnSexp (v := { lossy }) S' P.lt haddr (by simp) (.inr ⟨ht, k, e, hlive⟩)
  have hworld : w.registered e h t k s =
      { ((w.setTxn t (some k)).setEnv e (some h')).setTxnSexp t s with
        liveTxnHandles := w.liveTxnHandles + 1 } := by
    simp only [World.registered, P.live, List.nil_append, hh']
    rfl
  rw [hworld]
  exact S''.counters _ _

/-- A jump past the code that would have held the transaction loses it. -/
theorem Sound.lost (S : Sound may w₀ { lossy, begun := some ⟨e, t⟩ } w) (P : Pending e h t w)
    (hlossy : lossy = true) : Sound may w₀ { lossy } w where
  inv :=
    { fresh := S.inv.fresh
      graph := S.inv.graph
      traced := Traced.unwaiveBegun (p := some ⟨e, t⟩) { S.inv.traced with }
      conserved := Conserved.loseTxn (p := ⟨e, t⟩) S.inv.conserved hlossy P.noSexp
      safe := S.inv.safe }
  later := S.later

theorem newTxnSexp_spec (hL : lossy = false → L.Allocates)
    (S : Sound may w₀ { lossy, begun := some ⟨e, t⟩ } w) (P : Pending e h t w) (ht : w₀.next ≤ t)
    (write : Bool) : Triple (newTxnSexp L t (beginHandle e t write w.pid) e e write) w
      (fun x w' => x = .txn t ∧ Sound may w₀ { lossy } w' ∧ t < w'.next ∧
        (w'.txnSexps t).map TxnSexp.path = some (((w.envSexps e).map EnvSexp.path).getD ""))
      (fun x w' => Sound may w₀ { lossy } w' ∧ Leaves lossy x) := by
  obtain ⟨r₁, w₁, hrun₁, hr₁, S₁, P₁⟩ := P.allocate L hL S.inv
  have S₁' := S.andThen S₁
  rcases hr₁ with rfl | ⟨hlossy, rfl⟩
  swap
  · exact Triple.stopped hrun₁ ⟨S₁'.lost P₁ hlossy, .inr ⟨hlossy, rfl⟩⟩
  refine Triple.step hrun₁ ?_
  obtain ⟨r₂, w₂, hrun₂, hr₂, S₂, P₂⟩ := P₁.allocate L hL S₁.inv
  have S₂' := S₁'.andThen S₂
  rcases hr₂ with rfl | ⟨hlossy, rfl⟩
  swap
  · exact Triple.stopped hrun₂ ⟨S₂'.lost P₂ hlossy, .inr ⟨hlossy, rfl⟩⟩
  refine Triple.step hrun₂ ?_
  have hpid : w₂.pid = w.pid := S₂.later.pid.trans S₁.later.pid
  rw [← hpid]
  have hpath : (w₂.envSexps e).map EnvSexp.path = (w.envSexps e).map EnvSexp.path :=
    (S₂.later.envPath (S₁.inv.fresh.env P₁.env.at_)).trans
      (S₁.later.envPath (S.inv.fresh.env P.env.at_))
  have S₄ := S₂'.registered P₂ ht write
    (s := ⟨some t, some e, write, ((w₂.envSexps e).map EnvSexp.path).getD ""⟩) rfl
  obtain ⟨r₅, w₅, hrun₅, hr₅, S₅, -⟩ : ∃ r w', _ ∧ _ ∧ Sound may _ _ w' ∧ _ :=
    allocate_spec L hL S₄.inv rfl rfl rfl [.env e, .txn t] (by simp)
  -- From here on the transaction's object owns it, whether or not its attributes can be set.
  refine Triple.step (Prog.run_get _) (Triple.step (Prog.run_modify _ _)
    (Triple.step (updateEnv_run (h := h) (by exact P₂.env.at_) _) ?_))
  rcases hr₅ with rfl | ⟨hlossy, rfl⟩
  · refine Triple.step hrun₅ ⟨rfl, S₄.trans S₅, P₂.lt.trans_le S₅.later.next, ?_⟩
    rw [S₅.later.txnPath P₂.lt]
    simp [World.registered, hpath]
  · exact Triple.stopped hrun₅ ⟨S₄.trans S₅, .inr ⟨hlossy, rfl⟩⟩

/-- The call of `begin_call` and what `mdbx_txn_begin_` makes of its status. -/
theorem beginCall_run (txn : TxnPtr) (flags : ℕ) (w : World σ) :
    (∃ rc lib, (beginCall L txn flags).run w
      = (.ok rc, w.called (.txnBegin txn flags) lib (.returned rc))) ∨
    ∃ info lib, (beginCall L txn flags).run w
      = (.error (.panic info), w.called (.txnBegin txn flags) lib .panicked) := by
  rcases native_run L (.txnBegin txn flags) w with ⟨r, lib, hr⟩ | ⟨info, lib, hr⟩
  · exact .inl ⟨r.rc, lib, Prog.bind_ok hr⟩
  · exact .inr ⟨info, lib, Prog.bind_error hr⟩

/-- The object of a new transaction bears the path of its environment's. -/
theorem mdbxTxnBegin_spec (hL : lossy = false → L.Allocates) (S : Sound may w₀ { lossy } w)
    (x : Sexp) (write : Bool) (flags : List String) :
    Triple (mdbxTxnBegin_ L x write flags) w
      (fun r w' => r = .txn w.next ∧ Sound may w₀ { lossy } w' ∧ w.next < w'.next ∧
        ∃ e s, x = .env e ∧ w.envSexps e = some s ∧
          (w'.txnSexps w.next).map TxnSexp.path = some s.path)
      (fun r w' => Sound may w₀ { lossy } w' ∧ Leaves lossy r) := by
  rcases envFromSexp_run S.inv.graph x with ⟨c, hr⟩ | ⟨e, h, s, rfl, hs, haddr, hr, he⟩
  · exact Triple.stopped hr ⟨S, .stop c⟩
  refine Triple.step hr (Triple.step (derefEnv_run he.at_) ?_)
  by_cases hlive : h.liveTxns = []
  swap
  · exact Triple.stopped (refuse_run hlive) ⟨S, .stop _⟩
  refine Triple.step (refuse_pass (not_not.mpr hlive)) (Triple.step currentPid_run
    (Triple.step (fresh_run w) ?_))
  set w₁ : World σ := { w with next := w.next + 1 } with hw₁
  have S₁ : Sound may w₀ { lossy } w₁ := S.draw
  have he₁ : OpenEnv w₁ e h := ⟨he.at_, he.env, he.healthy, he.pid⟩
  rcases flagsFromNames_run txnFlags flags w₁ with ⟨extra, hf⟩ | ⟨c, hf⟩
  swap
  · exact Triple.stopped hf ⟨S₁, .stop c⟩
  refine Triple.step hf ?_
  rw [he.env, nonNull_some, pure_bind]
  generalize hflags : (if write then 0 else flagRdonly) ||| extra = bits
  have hbelow : (NativeCall.txnBegin ⟨e, w.next⟩ bits).Below w₁.next := by
    refine ⟨by simp, ?_, by simp [NativeCall.txn?], ?_⟩
    · intro e' heq
      obtain rfl : e = e' := Option.some.inj heq
      exact S₁.inv.fresh.env he₁.at_
    · intro p bits' heq
      cases heq
      exact Nat.lt_succ_self _
  have hperm : ∀ o, Permitted w₁.log ⟨w₁.pid, .txnBegin ⟨e, w.next⟩ bits, o⟩ := fun o =>
    S₁.permitted he₁ (by simp) (by simp [NativeCall.env?]) (by simp [NativeCall.txn?])
  have hnew : ∀ o, NumberUnused w₁.log ⟨w₁.pid, .txnBegin ⟨e, w.next⟩ bits, o⟩ := by
    refine fun o => ⟨by simp, fun p bits' heq c hc q bits'' hcall => ?_⟩
    cases heq
    exact ((S.inv.fresh.log hc).2.2.2 q bits'' hcall).ne
  rcases beginCall_run L ⟨e, w.next⟩ bits w₁ with ⟨rc, lib, hb⟩ | ⟨info, lib, hb⟩
  · refine Triple.step (guard_ok hb) ?_
    by_cases hrc : rc = Status.success
    · subst hrc
      refine Triple.step check_success ?_
      have S₂ : Sound may w₀ { lossy, begun := some ⟨e, w.next⟩ }
          (w₁.called (.txnBegin ⟨e, w.next⟩ bits) lib (.returned Status.success)) :=
        (S₁.waiveBegun _).called hbelow (hperm _) (alonePermitted_of rfl _) (hnew _) (by simp)
          (by simp [Call.Creates])
          (by simp [Call.Begins]) (by simp [Call.Panics]) (by simp [Call.Ends, NativeCall.finishes])
          (by simp [Call.Commits]) (by simp [Call.TearsDown]) (by simp [NativeCall.reserved])
      have P : Pending e h w.next
          (w₁.called (.txnBegin ⟨e, w.next⟩ bits) lib (.returned Status.success)) :=
        { env := ⟨he.at_, he.env, he.healthy, he.pid⟩
          live := hlive
          new := S.inv.fresh.txn_none le_rfl
          noSexp := S.inv.fresh.txnSexp_none le_rfl
          lt := Nat.lt_succ_self _
          begun := (begun_cons _ _ _ _).mpr (.inl ⟨rfl, ⟨bits, rfl⟩, rfl⟩)
          unreleased := by
            rw [World.called_log, released_cons]
            exact not_or.mpr ⟨by simp [Call.Ends, Call.TearsDown, NativeCall.finishes],
              S.inv.fresh.not_released le_rfl⟩
          notCommitted := fun e' => by
            rw [World.called_log, committed_cons]
            exact not_or.mpr ⟨by simp [Call.Commits], S.inv.fresh.not_committed le_rfl⟩ }
      refine (newTxnSexp_spec L hL S₂ P S.later.next write).mono (fun _ _ h => ?_) fun _ _ h => h
      obtain ⟨hr, S₃, hlt, hpath⟩ := h
      refine ⟨hr, S₃, hlt, e, s, rfl, hs, ?_⟩
      simpa [hw₁, hs] using hpath
    · refine Triple.stopped (check_failure hrc) ⟨?_, .stop _⟩
      exact S₁.called hbelow (hperm _) (alonePermitted_of rfl _) (hnew _) (by simp)
        (by simp [Call.Creates]) (by simp [Call.Begins, hrc]) (by simp [Call.Panics])
        (by simp [Call.Ends, NativeCall.finishes])
        (by simp [Call.Commits]) (by simp [Call.TearsDown]) (by simp [NativeCall.reserved])
  · refine Triple.stopped (guard_panic hb (poisonEnv_run (h := h) (by exact he.at_))) ⟨?_, .stop _⟩
    have S₂ : Sound may w₀ { lossy, poison := some e }
        (w₁.called (.txnBegin ⟨e, w.next⟩ bits) lib .panicked) :=
      (S₁.waivePoison rfl e).called hbelow (hperm _) (alonePermitted_of rfl _) (hnew _) (by simp)
        (by simp [Call.Creates])
        (by simp [Call.Begins]) (by simp [Call.Panics, NativeCall.group, NativeCall.env?])
        (by simp [Call.Ends]) (by simp [Call.Commits]) (by simp [Call.TearsDown])
        (by simp [NativeCall.reserved])
    exact S₂.poisonEnv he.at_ fun _ => w₁.called_panicked rfl lib

theorem mdbxTxnBegin_entry (hL : lossy = false → L.Allocates) (x : Sexp) (write : Bool)
    (flags : List String) : Entry lossy may w₀ (mdbxTxnBegin_ L x write flags) := fun _ S _ =>
  (mdbxTxnBegin_spec L hL S x write flags).mono (fun _ _ h => ⟨h.2.1, trivial⟩) fun _ _ h => h

end Begin

/-! ### Opening an environment -/

/-- Whether `e` is open under `key` in this process. -/
def World.keyed (w : World σ) (key : String) (e : EnvRef) : Bool :=
  (w.envs e).any fun h => h.key = key ∧ h.pid = w.pid

theorem findAmong_run (key : String) {entries : List EnvRef}
    (hsome : ∀ e ∈ entries, ∃ h, w.envs e = some h) :
    (findAmong key entries).run w = (.ok (entries.find? (w.keyed key)), w) := by
  induction entries with
  | nil => rfl
  | cons e rest ih =>
    obtain ⟨h, he⟩ := hsome e (by simp)
    rw [findAmong, Prog.bind_ok (derefEnv_run he), Prog.bind_ok currentPid_run]
    have hkeyed : w.keyed key e = decide (h.key = key ∧ h.pid = w.pid) := by
      simp [World.keyed, he]
    rw [List.find?_cons, hkeyed]
    by_cases hfound : h.key = key ∧ h.pid = w.pid
    · simp [hfound]
    · rw [if_neg hfound, decide_eq_false hfound, ih fun e h => hsome e (by simp [h])]

theorem findOpenEnv_run (G : Graph w) (key : String) :
    (findOpenEnv key).run w = (.ok (w.openEnvs.find? (w.keyed key)), w) := by
  rw [findOpenEnv, Prog.run_get_bind]
  exact findAmong_run key fun e he => (G.openHandle he).imp fun _ h => h.1

/-- An open is refused exactly when the registry has the key. -/
theorem refuseOpen_run (G : Graph w) (path key : String) :
    (w.openEnvs.find? (w.keyed key) = none ∧ (refuseOpen path key).run w = (.ok (), w)) ∨
      ∃ e ∈ w.openEnvs, w.keyed key e = true ∧
        ∃ other, (refuseOpen path key).run w = (.error (.stop (.alreadyOpen path other)), w) := by
  rw [refuseOpen, Prog.bind_ok (findOpenEnv_run G key)]
  cases hfind : w.openEnvs.find? (w.keyed key) with
  | none => exact .inl ⟨rfl, rfl⟩
  | some e =>
    have hmem := List.mem_of_find?_eq_some hfind
    obtain ⟨h, he, -⟩ := G.openHandle hmem
    refine .inr ⟨e, hmem, by simpa using List.find?_some hfind, ?_⟩
    rw [ifSome_some, Prog.bind_ok (derefEnv_run he)]
    by_cases hpath : h.path = path
    · exact ⟨none, Prog.bind_error (refuse_run hpath)⟩
    · exact ⟨some h.path, by rw [Prog.bind_ok (refuse_pass hpath)]; rfl⟩

section Open

variable (L : Platform σ) {e : EnvRef} {h : EnvHandle}

/-- An open environment whose handle no registry and no R object knows yet. -/
structure Built (e : EnvRef) (h : EnvHandle) (w : World σ) : Prop where
  env : OpenEnv w e h
  live : h.liveTxns = []
  unregistered : e ∉ w.openEnvs
  key : ∀ e' g, e' ∈ w.openEnvs → w.envs e' = some g → g.pid = w.pid → g.key ≠ h.key

theorem Built.allocate (hL : lossy = false → L.Allocates) (I : Inv { lossy } w) (B : Built e h w)
    (keep : List Object) (hkeep : .env e ∈ keep ∨ w.envSexps e = none) :
    ∃ r w', (allocate L keep).run w = (r, w') ∧
      (r = .ok () ∨ lossy = true ∧ r = .error .longjmp) ∧ Sound (fun _ => False) w { lossy } w' ∧
      Built e h w' ∧ (w.envSexps e = none → w'.envSexps e = none) := by
  obtain ⟨r, w', hrun, hr, S, henv, hsexp, hnext⟩ :
      ∃ r w', _ ∧ _ ∧ Sound (fun _ => False) w _ w' ∧ _ :=
    allocate_spec L hL I rfl rfl rfl keep (by simp)
  have hold : ∀ {e'}, e' ∈ w'.openEnvs → e' < w.next ∧ e' ∈ w.openEnvs := by
    intro e' hmem
    obtain ⟨g, hg, -⟩ := S.inv.graph.openHandle hmem
    have hlt := hnext ▸ S.inv.fresh.env hg
    exact ⟨hlt, S.later.openEnvs hmem hlt⟩
  refine ⟨r, w', hrun, hr, S, ⟨?_, B.live, fun hmem => B.unregistered (hold hmem).2, ?_⟩, hsexp e⟩
  · exact ⟨henv e h B.env.at_ B.live hkeep, B.env.env, B.env.healthy,
      B.env.pid.trans S.later.pid.symm⟩
  · intro e' g hmem hg hpid
    obtain ⟨hlt, hmem'⟩ := hold hmem
    obtain ⟨g₀, hg₀, hpid₀, -, -, hkey₀⟩ := S.later.env hg hlt
    rw [hkey₀ hmem]
    exact B.key e' g₀ hmem' hg₀ (by rw [← hpid₀, hpid, S.later.pid])

/-- The registry entry of a built environment. -/
theorem Built.register (S : Sound may w₀ { lossy } w) (B : Built e h w) (he : w₀.next ≤ e) :
    Sound may w₀ { lossy } { w with openEnvs := w.openEnvs ++ [e] } where
  inv :=
    { fresh := { S.inv.fresh with }
      graph := S.inv.graph.registerEnv B.env.at_ B.env.env B.unregistered B.key
      traced := { S.inv.traced with }
      conserved := { S.inv.conserved with }
      safe := S.inv.safe }
  later := by
    refine S.later.openEnvs' (fun e' hmem hlt => ?_) fun e' hmem _ _ _ =>
      List.mem_append_left _ hmem
    rcases List.mem_append.mp hmem with h | h
    · exact h
    · obtain rfl := List.mem_singleton.mp h
      exact absurd hlt (not_lt.mpr he)

/-- The object of a built environment. -/
theorem newEnvSexp_spec (hL : lossy = false → L.Allocates) (S : Sound may w₀ { lossy } w)
    (B : Built e h w) (he : w₀.next ≤ e) (hsexp : w.envSexps e = none) (path : String)
    (readonly subdir : Bool) :
    Triple (newEnvSexp L e path readonly subdir) w
      (fun x w' => x = .env e ∧ Sound may w₀ { lossy } w' ∧ Built e h w' ∧
        (w'.envSexps e).map EnvSexp.path = some path)
      (fun x w' => Sound may w₀ { lossy } w' ∧ e ∉ w'.openEnvs ∧ lossy = true ∧
        x = .longjmp) := by
  obtain ⟨r₁, w₁, hrun₁, hr₁, S₁, B₁, hsexp₁⟩ := B.allocate L hL S.inv [] (.inr hsexp)
  have S₁' := S.andThen S₁
  rcases hr₁ with rfl | ⟨hlossy, rfl⟩
  swap
  · exact Triple.stopped hrun₁ ⟨S₁', B₁.unregistered, hlossy, rfl⟩
  refine Triple.step hrun₁ ?_
  obtain ⟨r₂, w₂, hrun₂, hr₂, S₂, B₂, -⟩ := B₁.allocate L hL S₁.inv [] (.inr (hsexp₁ hsexp))
  have S₂' := S₁'.andThen S₂
  rcases hr₂ with rfl | ⟨hlossy, rfl⟩
  swap
  · exact Triple.stopped hrun₂ ⟨S₂', B₂.unregistered, hlossy, rfl⟩
  refine Triple.step hrun₂ ?_
  have S₃ : Sound may w₀ { lossy } (w₂.setEnvSexp e ⟨some e, path, readonly, subdir⟩) :=
    S₂'.setEnvSexp (S₂.inv.fresh.env B₂.env.at_) (fun e' heq => by
      obtain rfl : e = e' := Option.some.inj heq
      exact ⟨rfl, by simp [B₂.env.at_]⟩) (.inr he)
  have S₄ := S₃.counters (w₂.liveEnvHandles + 1) w₂.liveTxnHandles
  have B₄ : Built e h { w₂.setEnvSexp e ⟨some e, path, readonly, subdir⟩ with
      liveEnvHandles := w₂.liveEnvHandles + 1 } :=
    { env := ⟨B₂.env.at_, B₂.env.env, B₂.env.healthy, B₂.env.pid⟩
      live := B₂.live
      unregistered := B₂.unregistered
      key := B₂.key }
  obtain ⟨r₅, w₅, hrun₅, hr₅, S₅, B₅, -⟩ := B₄.allocate L hL S₄.inv [.env e] (.inl (by simp))
  refine Triple.step (Prog.run_modify _ _) ?_
  rcases hr₅ with rfl | ⟨hlossy, rfl⟩
  · refine Triple.step hrun₅ ⟨rfl, S₄.andThen S₅, B₅, ?_⟩
    rw [S₅.later.envPath (S₂.inv.fresh.env B₂.env.at_)]
    simp
  · exact Triple.stopped hrun₅ ⟨S₄.andThen S₅, B₅.unregistered, hlossy, rfl⟩

/-- The handle under construction, which nothing else refers to. -/
structure Unshared (e : EnvRef) (h : EnvHandle) (w w' : World σ) : Prop where
  envs : w'.envs = Function.update w.envs e (some h)
  openEnvs : w'.openEnvs = w.openEnvs
  envSexps : w'.envSexps = w.envSexps
  next : w'.next = w.next
  pid : w'.pid = w.pid

section Keeps

variable {P : World σ → Prop} (hP : ∀ {w : World σ} {c lib o}, P w → P (w.called c lib o))
include hP

theorem native_keeps (c : NativeCall) :
    Keeps P (fun _ _ => True) (fun _ => True) (native L c) := by
  intro w hw _
  rcases native_run L c w with ⟨r, lib, hr⟩ | ⟨info, lib, hr⟩
  · exact Triple.ok hr ⟨hP hw, trivial⟩
  · exact Triple.error hr ⟨hP hw, trivial⟩

theorem callEach_keeps (calls : List NativeCall) :
    Keeps P (fun _ _ => True) (fun _ => True) (callEach L calls) := by
  induction calls with
  | nil => exact Keeps.pure _
  | cons c rest ih =>
    rw [callEach]
    exact (native_keeps L hP c).bind fun r => Keeps.ite (fun _ => ih) fun _ => Keeps.pure _

end Keeps

theorem callEach_body {calls : List NativeCall}
    (hcalls : ∀ c ∈ calls, c.plain = true ∧ c.alone? = none ∧ c.env? = some e ∧ c.txn? = none) :
    Body lossy may w₀ e none (callEach L calls) := by
  induction calls with
  | nil => exact Body.pure _
  | cons c rest ih =>
    obtain ⟨hc, halone, henv, htxn⟩ := hcalls c (by simp)
    rw [callEach]
    refine (Body.native L hc halone (by simp [henv]) (by simp [htxn])).bind fun r => ?_
    exact Body.ite (ih fun c hc => hcalls c (by simp [hc])) (Body.pure _)

/-- The calls that `open_call` makes on a new environment. -/
def openCalls (e : EnvPtr) (path : String) (flags maxDbs maxReaders mapSize : ℕ) (mode : ℤ) :
    List NativeCall :=
  (if 0 < maxDbs then [.envSetOption e .maxDb maxDbs] else []) ++
    (if 0 < maxReaders then [.envSetOption e .maxReaders maxReaders] else []) ++
    (if 0 < mapSize then [.envSetGeometry e mapSize] else []) ++ [.envOpen e path flags mode]

/-- What `open_call` does once the environment is created. -/
def openCreated (e : EnvPtr) (calls : List NativeCall) : Pkg σ (Status × ℕ) := do
  let rc ← callEach L calls
  if rc ≠ Status.success then pure (rc, 0) else do
  let actual ← native L (.envGetFlags e)
  pure (actual.rc, actual.out)

theorem openCreated_body (path : String) (flags maxDbs maxReaders mapSize : ℕ) (mode : ℤ) :
    Body lossy may w₀ e none
      (openCreated L e (openCalls e path flags maxDbs maxReaders mapSize mode)) := by
  refine (callEach_body L fun c hc => ?_).bind fun rc => ?_
  · simp only [openCalls, List.mem_append, List.mem_ite_nil_right, List.mem_singleton] at hc
    rcases hc with ((⟨-, rfl⟩ | ⟨-, rfl⟩) | ⟨-, rfl⟩) | rfl <;> exact ⟨rfl, rfl, rfl, rfl⟩
  · refine Body.ite (Body.pure _) ?_
    refine (Body.native L rfl rfl (by simp [NativeCall.env?]) (by simp [NativeCall.txn?])).bind
      fun r => Body.pure _

theorem openCreated_keeps {P : World σ → Prop}
    (hP : ∀ {w : World σ} {c lib o}, P w → P (w.called c lib o)) (calls : List NativeCall) :
    Keeps P (fun _ _ => True) (fun _ => True) (openCreated L e calls) := by
  refine (callEach_keeps L hP calls).bind fun rc => Keeps.ite (fun _ => Keeps.pure _) fun _ => ?_
  exact (native_keeps L hP (.envGetFlags e)).bind fun r => Keeps.pure _

/-- The handle that `mdbx_env_open_` starts from. -/
def newHandle (pid : Pid) : EnvHandle := ⟨none, false, pid, "", "", [], (none, none)⟩

/-- A world in which the number `e` bears nothing but a new handle. -/
structure Blank (e : EnvRef) (w : World σ) : Prop where
  at_ : w.envs e = some (newHandle w.pid)
  unregistered : e ∉ w.openEnvs
  sexp : w.envSexps e = none
  notCreated : ∀ c ∈ w.log, c.call ≠ .envCreate e
  notClosed : ¬ Closed w.log e
  notPanicked : ¬ Panicked w.log e
  env : .env e ∉ w.abandoned
  txn : ∀ t, .txn ⟨e, t⟩ ∉ w.abandoned

/-- The environment `e` is registered if it is open. -/
def World.Lists (w : World σ) (e : EnvRef) : Prop :=
  ∀ h, w.envs e = some h → h.env ≠ none → e ∈ w.openEnvs

/-- What the guarded `open_call` leaves of a new handle. -/
structure Opened (lossy : Bool) (may : NativeCall → Prop) (w₀ : World σ) (e : EnvRef) (w : World σ)
    (r : Except PanicInfo (Status × ℕ)) (w' : World σ) (h : EnvHandle) : Prop where
  sound : Sound may w₀ { lossy } w'
  unshared : Unshared e h w w'
  pid : h.pid = w'.pid
  live : h.liveTxns = []
  roots : h.heapRoots = (none, none)
  open_ : ∀ flags, r = .ok (Status.success, flags) → h.env = some e ∧ h.poisoned = false
  env : h.env = none ∨ h.env = some e

/-- The world in which libmdbx has created the environment of a new handle. -/
def World.created (w : World σ) (e : EnvRef) (h : EnvHandle) (lib : σ) : World σ :=
  (w.called (.envCreate e) lib (.returned Status.success)).setEnv e (some { h with env := some e })

theorem Blank.numberUnused (B : Blank e w) (o : Outcome) :
    NumberUnused w.log ⟨w.pid, .envCreate e, o⟩ :=
  ⟨fun e' heq c hc => by cases heq; exact B.notCreated c hc, by simp⟩

theorem Blank.created (S : Sound may w₀ { lossy } w) (B : Blank e w) (he : w₀.next ≤ e)
    (hmay : may (.envCreate e)) (lib : σ) :
    Sound may w₀ { lossy } (w.created e (newHandle w.pid) lib) := by
  have hbelow : (NativeCall.envCreate e).Below w.next :=
    ⟨fun e' heq => by cases heq; exact S.inv.fresh.env B.at_, by simp [NativeCall.env?],
      by simp [NativeCall.txn?], by simp⟩
  have hperm : Permitted w.log ⟨w.pid, .envCreate e, .returned Status.success⟩ :=
    ⟨by simp [NativeCall.env?], by simp [NativeCall.txn?]⟩
  set c : Call := ⟨w.pid, .envCreate e, .returned Status.success⟩
  have hcreated : Created (c :: w.log) w.pid e := (created_cons _ _ _ _).mpr (.inl ⟨rfl, rfl, rfl⟩)
  have hclosed : ¬ Closed (c :: w.log) e := by
    rw [closed_cons]
    exact not_or.mpr ⟨by simp [c, Call.Closes], B.notClosed⟩
  have hpanicked : ¬ Panicked (c :: w.log) e := by
    rw [panicked_cons]
    exact not_or.mpr ⟨by simp [c, Call.Panics], B.notPanicked⟩
  have T : Traced { lossy } (w.called (.envCreate e) lib (.returned Status.success)) :=
    S.inv.traced.called (by simp [Call.Closes]) (by simp [Call.Panics])
      (by simp [Call.Ends, NativeCall.finishes])
      (by simp [Call.Commits]) (by simp [Call.TearsDown])
  have G : Graph (w.called (.envCreate e) lib (.returned Status.success)) := { S.inv.graph with }
  exact
    { inv :=
        { fresh := (S.inv.fresh.called hbelow lib _).setEnv (h := newHandle w.pid) B.at_ rfl
          graph := G.attachEnv B.at_ rfl
          traced := T.attachEnv rfl rfl hcreated hclosed hpanicked
          conserved := S.inv.conserved.attachEnv B.at_ B.env B.txn
          safe := ⟨hperm, alonePermitted_of rfl _, B.numberUnused _, S.inv.safe⟩ }
      later := (S.later.called (fun _ => hmay)
        (by simp [Call.Ends, Call.TearsDown, NativeCall.finishes])).setEnv
          fun hlt => absurd hlt (not_lt.mpr he) }

theorem openCall_created (path : String) (flags maxDbs maxReaders mapSize : ℕ) (mode : ℤ)
    {r : Reply (.envCreate e)} {lib : σ} (he : w.envs e = some h)
    (hr : (native L (.envCreate e)).run w
      = (.ok r, w.called (.envCreate e) lib (.returned Status.success)))
    (hrc : r.rc = Status.success) :
    (openCall L e path flags maxDbs maxReaders mapSize mode).run w =
      (openCreated L e (openCalls e path flags maxDbs maxReaders mapSize mode)).run
        (w.created e h lib) := by
  rw [openCall, Prog.bind_ok hr, if_neg (not_not.mpr hrc),
    Prog.bind_ok (updateEnv_run (h := h) (by exact he) _)]
  rfl

theorem openCall_spec (S : Sound may w₀ { lossy } w) (B : Blank e w) (hlt : w₀.next ≤ e)
    (hmay : may (.envCreate e)) (path : String) (flags maxDbs maxReaders mapSize : ℕ) (mode : ℤ) :
    ∃ r w' h, (runGuarded (openCall L e path flags maxDbs maxReaders mapSize mode)
      (poisonEnv e)).run w = (.ok r, w') ∧ Opened lossy may w₀ e w r w' h := by
  have hbelow : (NativeCall.envCreate e).Below w.next :=
    ⟨fun e' heq => by cases heq; exact S.inv.fresh.env B.at_, by simp [NativeCall.env?],
      by simp [NativeCall.txn?], by simp⟩
  have hperm : ∀ o, Permitted w.log ⟨w.pid, .envCreate e, o⟩ := fun o =>
    ⟨by simp [NativeCall.env?], by simp [NativeCall.txn?]⟩
  have hself : w.envs = Function.update w.envs e (some (newHandle w.pid)) := by
    rw [← B.at_, Function.update_eq_self]
  have hfailed : ∀ lib o, o ≠ .returned Status.success →
      Sound may w₀ { lossy } (w.called (.envCreate e) lib o) := fun lib o ho =>
    S.called hbelow (hperm _) (alonePermitted_of rfl _) (B.numberUnused _) (by simp)
      (by simp [Call.Creates, ho]) (by simp [Call.Begins])
      (by simp [Call.Panics, NativeCall.group, NativeCall.env?, NativeCall.txn?])
      (by simp [Call.Ends, NativeCall.finishes])
      (by simp [Call.Commits]) (by simp [Call.TearsDown]) fun _ => hmay
  rcases native_run L (.envCreate e) w with ⟨r, lib, hr⟩ | ⟨info, lib, hr⟩
  swap
  · -- `mdbx_env_create` panicked: the callback poisons a handle without an environment.
    refine ⟨.error info, _, { newHandle w.pid with poisoned := true },
      runGuarded_panic (Prog.bind_error hr)
        (poisonEnv_run (h := newHandle w.pid) (by exact B.at_)), ?_⟩
    have S' : Sound may w₀ { lossy, poison := some e } (w.called (.envCreate e) lib .panicked) :=
      (hfailed _ _ (by simp)).waivePoison rfl e
    have hnone : (newHandle w.pid).env ≠ some e := by simp [newHandle]
    exact ⟨S'.poisonEnv B.at_ fun henv => absurd henv hnone, ⟨rfl, rfl, rfl, rfl, rfl⟩, rfl, rfl,
      rfl, by simp, .inl rfl⟩
  by_cases hrc : r.rc = Status.success
  swap
  · refine ⟨.ok (r.rc, 0), _, newHandle w.pid, runGuarded_ok (a := (r.rc, 0)) ?_,
      hfailed lib (.returned r.rc) (by simp [hrc]), ⟨hself, rfl, rfl, rfl, rfl⟩,
      rfl, rfl, rfl, by simp [hrc], .inl rfl⟩
    rw [openCall, Prog.bind_ok hr, if_pos hrc]
    rfl
  rw [hrc] at hr
  set h : EnvHandle := { newHandle w.pid with env := some e } with hh
  have hbody := openCall_created L path flags maxDbs maxReaders mapSize mode B.at_ hr hrc
  set w₁ := w.created e (newHandle w.pid) lib with hw₁
  have S₁ : Sound may w₀ { lossy } w₁ := B.created S hlt hmay lib
  have he₁ : OpenEnv w₁ e h := ⟨by simp [hw₁, World.created, hh], rfl, rfl, rfl⟩
  have U₁ : Usable e none w₁ := ⟨⟨h, he₁⟩, by simp⟩
  have hkeeps : Unshared e h w w₁ := ⟨rfl, rfl, rfl, rfl, rfl⟩
  have hrun := (openCreated_body L path flags maxDbs maxReaders mapSize mode w₁
    ⟨S₁.waivePoison rfl e, U₁⟩ (U₁.healthy S₁)).and
    (openCreated_keeps (P := Unshared e h w) L
      (fun U => ⟨U.envs, U.openEnvs, U.envSexps, U.next, U.pid⟩)
      (openCalls e path flags maxDbs maxReaders mapSize mode) w₁ hkeeps trivial)
  rw [Triple] at hrun
  rcases hr₁ : (openCreated L e (openCalls e path flags maxDbs maxReaders mapSize mode)).run w₁ with
    ⟨x | a, w'⟩
  · rw [hr₁] at hrun
    obtain ⟨⟨⟨S', U'⟩, ⟨info, rfl⟩, hpanicked⟩, F, -⟩ := hrun
    have he' : w'.envs e = some h := by rw [F.envs, Function.update_self]
    refine ⟨.error info, _, { h with poisoned := true },
      runGuarded_panic (hbody.trans hr₁) (poisonEnv_run he'), S'.poisonEnv he' fun _ => hpanicked,
      ⟨?_, F.openEnvs, F.envSexps, F.next, F.pid⟩, F.pid.symm, rfl, rfl, by simp, .inr rfl⟩
    simp [World.setEnv, F.envs]
  · rw [hr₁] at hrun
    obtain ⟨⟨⟨S', U'⟩, hhealthy⟩, F, -⟩ := hrun
    exact ⟨.ok a, w', h, runGuarded_ok (hbody.trans hr₁), S'.unwaivePoison hhealthy, F,
      F.pid.symm, rfl, rfl, fun _ _ => ⟨rfl, rfl⟩, .inr rfl⟩

/-- The world with a handle under the number drawn from `w`. -/
def World.withHandle (w : World σ) : World σ :=
  { w with next := w.next + 1 }.setEnv w.next (some (newHandle w.pid))

theorem Sound.withHandle (S : Sound may w₀ { lossy } w) : Sound may w₀ { lossy } w.withHandle where
  inv :=
    { fresh := S.inv.fresh.draw.newEnv (Nat.lt_succ_self _) rfl
      graph := S.draw.inv.graph.newEnv (S.inv.fresh.env_none le_rfl) rfl rfl
      traced := S.draw.inv.traced.newEnv _ rfl
      conserved := S.draw.inv.conserved.newEnv (S.inv.fresh.env_none le_rfl) rfl
      safe := S.inv.safe }
  later := S.draw.later.setEnv fun hlt => absurd hlt (not_lt.mpr S.later.next)

theorem Sound.blank (S : Sound may w₀ { lossy } w) : Blank w.next w.withHandle where
  at_ := by simp [World.withHandle]
  unregistered hmem := by
    obtain ⟨g, hg, -⟩ := S.inv.graph.openHandle hmem
    exact absurd (S.inv.fresh.env hg) (lt_irrefl _)
  sexp := S.inv.fresh.envSexp_none le_rfl
  notCreated c hc hcall := absurd ((S.inv.fresh.log hc).1 _ hcall) (lt_irrefl _)
  notClosed := S.inv.fresh.not_closed le_rfl
  notPanicked := S.inv.fresh.not_panicked le_rfl
  env hmem := absurd (S.inv.fresh.abandoned hmem) (lt_irrefl _)
  txn t hmem := absurd (S.inv.fresh.abandoned hmem).1 (lt_irrefl _)

namespace Opened

variable {r : Except PanicInfo (Status × ℕ)} {w' : World σ}

theorem at_ (O : Opened lossy may w₀ e w r w' h) : w'.envs e = some h := by
  rw [O.unshared.envs, Function.update_self]

/-- No R object has the handle. -/
theorem noSexp (O : Opened lossy may w₀ e w r w' h) (B : Blank e w) :
    ∀ x s, w'.envSexps x = some s → s.addr ≠ some e := by
  intro x s hs haddr
  obtain ⟨rfl, -⟩ := O.sound.inv.graph.envSexp hs haddr
  rw [O.unshared.envSexps, B.sexp] at hs
  cases hs

/-- After a panic the environment is kept in `abandoned` and the handle deleted. -/
theorem abandon (O : Opened lossy may w₀ e w r w' h) (B : Blank e w) :
    ∃ w₁, (abandonEnv e).run w' = (.ok (), w₁) ∧ Sound may w₀ { lossy } (w₁.setEnv e none) := by
  rcases O.env with henv | henv
  · exact ⟨w', abandonEnv_none O.at_ henv O.roots, O.sound.dropEnv O.at_ henv (O.noSexp B)⟩
  · refine ⟨_, abandonEnv_run O.at_ henv, ?_⟩
    have S := (O.sound.givenUpEnv O.at_ henv O.live).dropEnv (e := e) (h := { h with env := none })
      (by simp [World.givenUpEnv]) rfl (O.noSexp B)
    have hfilter : w'.openEnvs.filter (· ≠ e) = w'.openEnvs := by
      refine List.filter_eq_self.mpr fun e' hmem => ?_
      rw [O.unshared.openEnvs] at hmem
      exact decide_eq_true fun heq => B.unregistered (heq ▸ hmem)
    rw [World.givenUpEnv, hfilter] at S
    simpa [World.setEnv] using S

end Opened

theorem Sound.unlisted {v : Waived} (S : Sound may w₀ v w) (he : w.envs e = none) :
    e ∉ w.openEnvs := by
  intro hmem
  obtain ⟨h, hsome, -⟩ := S.inv.graph.openHandle hmem
  simp [he] at hsome

/-- The environment `e` is open here under `key`, and registered. -/
def World.HasOpened (w : World σ) (key : String) (e : EnvRef) : Prop :=
  e ∈ w.openEnvs ∧ ∃ h, OpenEnv w e h ∧ h.key = key

/-- From a key that this process has not open to a registered object. -/
theorem openHandle_spec (hL : lossy = false → L.Allocates) (S : Sound may w₀ { lossy } w)
    (hmay : may (.envCreate w.next)) {key : String}
    (hkey : w.openEnvs.find? (w.keyed key) = none) (path : String) (readonly : Bool)
    (flags maxDbs maxReaders mapSize : ℕ) (mode : ℤ) :
    Triple (openHandle L path key readonly flags maxDbs maxReaders mapSize mode) w
      (fun x w' => x = .env w.next ∧ Sound may w₀ { lossy } w' ∧ w'.HasOpened key w.next ∧
        (w'.envSexps w.next).map EnvSexp.path = some path)
      (fun x w' => Sound may w₀ { lossy } w' ∧ Leaves lossy x ∧ w.next ∉ w'.openEnvs ∧
        (IsStop x → w'.envs w.next = none) ∧ ∀ p other, x ≠ .stop (.alreadyOpen p other)) := by
  refine Triple.step currentPid_run (Triple.step (fresh_run w) ?_)
  refine Triple.step (Prog.run_modify _ _) ?_
  change Triple _ w.withHandle _ _
  have B := S.blank
  obtain ⟨r, w₁, h, hrun, O⟩ := openCall_spec L S.withHandle B S.later.next hmay path flags maxDbs
    maxReaders mapSize mode
  refine Triple.step hrun ?_
  rcases r with info | ⟨rc, actual⟩
  · obtain ⟨w₂, hrun₂, S₂⟩ := O.abandon B
    exact Triple.step hrun₂ (Triple.step rfl ⟨S₂, .stop _, S₂.unlisted (by simp), fun _ => by simp,
      by simp⟩)
  simp only
  by_cases hrc : rc = Status.success
  swap
  · rw [if_pos hrc]
    obtain ⟨r, w₂, h₂, hclose, S₂, he₂, henv₂, hsexps, -, -, hr⟩ :=
      closeHandle_spec L O.sound rfl O.at_ O.live (by simp) false
    obtain rfl : r = .ok () := by simpa using hr
    have S₃ : Sound may w₀ { lossy } (w₂.setEnv w.next none) := S₂.dropEnv he₂ henv₂ (by
      rw [hsexps]
      exact O.noSexp B)
    exact Triple.step hclose (Triple.step rfl
      ⟨S₃, .stop _, S₃.unlisted (by simp), fun _ => by simp, by simp⟩)
  rw [if_neg (not_not.mpr hrc)]
  obtain ⟨henv, hhealthy⟩ := O.open_ actual (by rw [hrc])
  refine Triple.step (updateEnv_run O.at_ _) ?_
  have hopen : w.next ∉ w₁.openEnvs := by
    rw [O.unshared.openEnvs]
    exact B.unregistered
  set h₁ : EnvHandle := { h with key := key, path := path } with hh₁
  set w₂ := w₁.setEnv w.next (some h₁) with hw₂
  have he₂ : w₂.envs w.next = some h₁ := by simp [hw₂]
  have S₂ : Sound may w₀ { lossy } w₂ := O.sound.setEnv O.at_ rfl rfl rfl rfl (.inr hopen)
  obtain ⟨w₃, hroots, R⟩ := recordHeapRoots_run L S₂.inv.graph he₂
  refine Triple.step hroots ?_
  have S₃ := S₂.refreshed R he₂ (by simp)
  obtain ⟨roots, he₃⟩ := R.env he₂
  have hlisted : w₃.openEnvs = w.openEnvs := R.openEnvs.trans O.unshared.openEnvs
  have hpid : w₃.pid = w.pid := R.pid.trans O.unshared.pid
  have B₃ : Built w.next { h₁ with heapRoots := roots } w₃ := by
    refine ⟨⟨he₃, henv, hhealthy, ?_⟩, O.live, ?_, ?_⟩
    · rw [hpid]
      exact O.pid.trans O.unshared.pid
    · rw [hlisted]
      exact B.unregistered
    · intro e' g hmem hg hgpid hsame
      rw [hlisted] at hmem
      have hne : e' ≠ w.next := fun heq => B.unregistered (heq ▸ hmem)
      have hg₀ : w.envs e' = some g := by
        rw [← hg, R.envs_ne hne, hw₂, World.setEnv_envs, Function.update_of_ne hne,
          O.unshared.envs, Function.update_of_ne hne]
        simp [World.withHandle, hne]
      refine List.find?_eq_none.mp hkey e' hmem ?_
      rw [World.keyed, hg₀]
      exact decide_eq_true ⟨hsame, hgpid.trans hpid⟩
  have hsexp : w₃.envSexps w.next = none := by
    rw [R.sexps.1]
    exact (congrFun O.unshared.envSexps _).trans B.sexp
  refine Triple.bind ((newEnvSexp_spec L hL S₃ B₃ S.later.next hsexp path readonly
    (actual &&& flagNosubdir == 0)).mono (fun _ _ h => h) ?_) ?_
  · rintro x w' ⟨S', hunlisted, hlossy, rfl⟩
    have hjump : ¬ IsStop .longjmp := fun ⟨_, hc⟩ => nomatch hc
    exact ⟨S', .inr ⟨hlossy, rfl⟩, hunlisted, fun hstop => absurd hstop hjump, by simp⟩
  · rintro x w₄ ⟨rfl, S₄, B₄, hpath⟩
    have hrun : (do registerEnv w.next; pure (.env w.next) : Pkg σ Sexp).run w₄ =
        (.ok (.env w.next), { w₄ with openEnvs := w₄.openEnvs ++ [w.next] }) := rfl
    have hopened : OpenEnv w₄ w.next { h₁ with heapRoots := roots } := B₄.env
    refine Triple.ok hrun ⟨rfl, B₄.register S₄ S.later.next,
      ⟨?_, { h₁ with heapRoots := roots }, ?_, rfl⟩, hpath⟩
    · exact List.mem_append_right _ (List.mem_singleton_self _)
    · exact ⟨hopened.at_, hopened.env, hopened.healthy, hopened.pid⟩

/-- The arguments pass the checks that come before the registry. -/
def OpenArgs (maxDbs mapSize maxReaders : Double) (extraFlags : List String) : Prop :=
  (∃ bits, bitsFrom envFlags extraFlags = .ok bits) ∧ maxDbs.le maxExactInteger = true ∧
    mapSize.le (maxNativeInteger L) = true ∧ maxReaders.le maxExactInteger = true

/-- The ways of `mdbx_env_open_`: an argument is refused, the key is, or a handle is made. -/
theorem mdbxEnvOpen_cases (G : Graph w) (path key : String) (readonly subdir : Bool)
    (maxDbs mapSize maxReaders : Double) (mode : ℤ) (extraFlags : List String) :
    (¬ OpenArgs L maxDbs mapSize maxReaders extraFlags ∧
      ∃ c, (∀ p other, c ≠ .alreadyOpen p other) ∧
        (mdbxEnvOpen_ L path key readonly subdir maxDbs mapSize maxReaders mode extraFlags).run w
          = (.error (.stop c), w)) ∨
    OpenArgs L maxDbs mapSize maxReaders extraFlags ∧
      ((∃ e ∈ w.openEnvs, w.keyed key e = true ∧ ∃ other,
        (mdbxEnvOpen_ L path key readonly subdir maxDbs mapSize maxReaders mode extraFlags).run w
          = (.error (.stop (.alreadyOpen path other)), w)) ∨
      w.openEnvs.find? (w.keyed key) = none ∧ ∃ flags dbs readers map,
        (mdbxEnvOpen_ L path key readonly subdir maxDbs mapSize maxReaders mode extraFlags).run w
          = (openHandle L path key readonly flags dbs readers map mode).run w) := by
  cases hbits : bitsFrom envFlags extraFlags with
  | error name =>
    refine .inl ⟨?_, .unknownFlag name, by simp, ?_⟩
    · rintro ⟨⟨bits, hbits'⟩, -⟩
      rw [hbits] at hbits'
      cases hbits'
    · rw [mdbxEnvOpen_, envFlagsFromNames, flagsFromNames, hbits]
      rfl
  | ok extra =>
    have hf : (envFlagsFromNames extraFlags).run w = (.ok extra, w) := by
      rw [envFlagsFromNames, flagsFromNames, hbits]
      rfl
    rw [mdbxEnvOpen_, Prog.bind_ok hf]
    by_cases hdbs : maxDbs.le maxExactInteger = true
    swap
    · exact .inl ⟨fun h => hdbs h.2.1, _, by simp, Prog.bind_error (refuse_run hdbs)⟩
    rw [Prog.bind_ok (refuse_pass (not_not.mpr hdbs))]
    by_cases hmap : mapSize.le (maxNativeInteger L) = true
    swap
    · exact .inl ⟨fun h => hmap h.2.2.1, _, by simp, Prog.bind_error (refuse_run hmap)⟩
    rw [Prog.bind_ok (refuse_pass (not_not.mpr hmap))]
    by_cases hreaders : maxReaders.le maxExactInteger = true
    swap
    · exact .inl ⟨fun h => hreaders h.2.2.2, _, by simp, Prog.bind_error (refuse_run hreaders)⟩
    rw [Prog.bind_ok (refuse_pass (not_not.mpr hreaders))]
    refine .inr ⟨⟨⟨extra, hbits⟩, hdbs, hmap, hreaders⟩, ?_⟩
    rcases refuseOpen_run G path key with ⟨hfree, hr⟩ | ⟨e, hmem, hkeyed, other, hr⟩
    swap
    · exact .inl ⟨e, hmem, hkeyed, other, Prog.bind_error hr⟩
    obtain ⟨m, hm, hbound, -, hmax⟩ := maxNativeInteger_eq L
    obtain ⟨dbs, hdbs'⟩ := orZero_converts le_rfl (by norm_num : 2 ^ 53 < 2 ^ 64) hdbs
    obtain ⟨readers, hreaders'⟩ := orZero_converts le_rfl (by norm_num : 2 ^ 53 < 2 ^ 64) hreaders
    obtain ⟨map, hmap'⟩ := orZero_converts hm hbound (hmax ▸ hmap)
    refine .inr ⟨hfree, extra ||| (if readonly then flagRdonly else 0) |||
      (if subdir then 0 else flagNosubdir), dbs, readers, map, ?_⟩
    rw [Prog.bind_ok hr, Prog.bind_ok (narrow_run hdbs' w), Prog.bind_ok (narrow_run hreaders' w),
      Prog.bind_ok (narrow_run hmap' w)]

theorem mdbxEnvOpen_spec (hL : lossy = false → L.Allocates) (S : Sound may w₀ { lossy } w)
    (hmay : may (.envCreate w.next)) (path key : String) (readonly subdir : Bool)
    (maxDbs mapSize maxReaders : Double) (mode : ℤ) (extraFlags : List String) :
    Triple (mdbxEnvOpen_ L path key readonly subdir maxDbs mapSize maxReaders mode extraFlags) w
      (fun x w' => x = .env w.next ∧ Sound may w₀ { lossy } w' ∧ w'.HasOpened key w.next ∧
        (w'.envSexps w.next).map EnvSexp.path = some path)
      (fun x w' => Sound may w₀ { lossy } w' ∧ Leaves lossy x ∧ w.next ∉ w'.openEnvs ∧
        (IsStop x → w'.envs w.next = none)) := by
  have hnone := S.inv.fresh.env_none le_rfl
  have hunlisted := S.unlisted hnone
  rcases mdbxEnvOpen_cases L S.inv.graph path key readonly subdir maxDbs mapSize maxReaders mode
    extraFlags with
    ⟨-, c, -, hr⟩ | ⟨-, ⟨e, -, -, other, hr⟩ | ⟨hfree, flags, dbs, readers, map, hr⟩⟩
  · exact Triple.error hr ⟨S, .stop c, hunlisted, fun _ => hnone⟩
  · exact Triple.error hr ⟨S, .stop _, hunlisted, fun _ => hnone⟩
  · refine Triple.congr hr ((openHandle_spec L hL S hmay hfree path readonly flags dbs readers map
      mode).mono (fun _ _ h => h) fun x w' h => ?_)
    exact ⟨h.1, h.2.1, h.2.2.1, h.2.2.2.1⟩

theorem mdbxEnvOpen_entry (hL : lossy = false → L.Allocates) (hmay : ∀ e, may (.envCreate e))
    (path key : String) (readonly subdir : Bool)
    (maxDbs mapSize maxReaders : Double) (mode : ℤ) (extraFlags : List String) :
    Entry lossy may w₀ (mdbxEnvOpen_ L path key readonly subdir maxDbs mapSize maxReaders mode
      extraFlags) := fun _ S _ =>
  (mdbxEnvOpen_spec L hL S (hmay _) path key readonly subdir maxDbs mapSize maxReaders mode
    extraFlags).mono (fun _ _ h => ⟨h.2.1, trivial⟩) fun _ _ h => ⟨h.1, h.2.1⟩

end Open

end Mdbx
