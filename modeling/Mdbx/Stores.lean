import Mdbx.Cache

/-! What libmdbx promises of transactions: how its states read as a store, what a write transaction
sees, and what becomes of it. -/

namespace Mdbx

open ProofKit

variable {σ V : Type}

/-- How the states of libmdbx read as a store of values: what a transaction sees, what is committed
in an environment, and which transactions are open for writing. -/
structure Stores (σ V : Type) where
  view : σ → TxnPtr → V
  committed : σ → EnvPtr → V
  writing : σ → TxnPtr → Prop

/-- The promises about transactions.  An environment has one write transaction at a time.  It starts
from what is committed and lasts until it is ended, the environment is closed or a call panics.  A
commit publishes what it sees. -/
structure Platform.Transacts (L : Platform σ) (S : Stores σ V) : Prop where
  alone : ∀ {s p q}, S.writing s p → S.writing s q → p.env = q.env → p = q
  starts : ∀ {c s p}, S.writing (L.call c s).2 p → S.writing s p ∨
    ∃ flags, c = .txnBegin p flags ∧ L.outcome c s = .returned Status.success
  begins : ∀ {s p flags}, L.outcome (.txnBegin p flags) s = .returned Status.success →
    S.view (L.call (.txnBegin p flags) s).2 p = S.committed (L.call (.txnBegin p flags) s).2 p.env ∧
      (flags &&& flagRdonly = 0 → S.writing (L.call (.txnBegin p flags) s).2 p)
  lasts : ∀ {c s p} pid, S.writing s p → ¬ Call.Ends ⟨pid, c, L.outcome c s⟩ p →
    ¬ Call.Closes ⟨pid, c, L.outcome c s⟩ p.env → ¬ Call.Panics ⟨pid, c, L.outcome c s⟩ p.env →
      S.writing (L.call c s).2 p
  ends : ∀ {c s p} pid, Call.Ends ⟨pid, c, L.outcome c s⟩ p → ¬ S.writing (L.call c s).2 p
  commits : ∀ {s p}, L.outcome (.txnCommit p) s = .returned Status.success → S.writing s p →
    S.committed (L.call (.txnCommit p) s).2 p.env = S.view s p
  grows : ∀ s, S.view (L.badAlloc s).2 = S.view s ∧ S.committed (L.badAlloc s).2 = S.committed s ∧
    S.writing (L.badAlloc s).2 = S.writing s
  collects : ∀ s, S.view (L.allocate s).2 = S.view s ∧
    S.committed (L.allocate s).2 = S.committed s ∧ S.writing (L.allocate s).2 = S.writing s

/-- A store that also tells which environments are open. -/
structure Bases (σ V : Type) extends Stores σ V where
  opened : σ → EnvPtr → Prop

/-- The promises about what is committed.  Only in an open environment a transaction is begun.
Until that is closed it stays open, and only a commit in it changes what is committed there: no
other process writes to it. -/
structure Platform.Publishes (L : Platform σ) (S : Bases σ V) : Prop
    extends L.Transacts S.toStores where
  opens : ∀ {s p flags}, L.outcome (.txnBegin p flags) s = .returned Status.success →
    S.opened s p.env
  stays : ∀ {c s e} pid, S.opened s e → ¬ Call.Closes ⟨pid, c, L.outcome c s⟩ e →
    S.opened (L.call c s).2 e
  keeps : ∀ {c s e} pid, S.opened s e → ¬ Call.Closes ⟨pid, c, L.outcome c s⟩ e →
    (∀ p, Call.Commits ⟨pid, c, L.outcome c s⟩ p → p.env ≠ e) →
      S.committed (L.call c s).2 e = S.committed s e
  growsOpen : ∀ s, S.opened (L.badAlloc s).2 = S.opened s
  collectsOpen : ∀ s, S.opened (L.allocate s).2 = S.opened s

/-- A call that begins no transaction makes none a writer. -/
theorem Platform.Transacts.was_writing {L : Platform σ} {S : Stores σ V} (hS : L.Transacts S)
    {c : NativeCall} {s : σ} {p : TxnPtr} (hc : ∀ flags, c ≠ .txnBegin p flags)
    (h : S.writing (L.call c s).2 p) : S.writing s p := by
  rcases hS.starts h with h | ⟨flags, hbegin, -⟩
  · exact h
  · exact absurd hbegin (hc flags)

/-! ### What a run keeps of a store -/

section Runs

variable {L : Platform σ}

/-- What is said of the trace and of libmdbx alone, and is kept call by call, is kept. -/
theorem Platform.frame_of_kept {P : List Call → σ → Prop}
    (hcall : ∀ {log s} pid c, P log s → P (⟨pid, c, L.outcome c s⟩ :: log) (L.call c s).2)
    (hgrow : ∀ {log s}, P log s → P log (L.badAlloc s).2)
    (hcollect : ∀ {log s}, P log s → P log (L.allocate s).2) :
    L.Frame fun w w' => P w.log w.lib → P w'.log w'.lib := by
  have := preorder_of_kept fun w : World σ => P w.log w.lib
  refine Platform.frame_of_calls (fun c u hu => ?_) (fun _ hu => hgrow hu) (fun _ hu => hcollect hu)
    fun hlib hlog hu => ?_
  · rw [native_final]
    exact hcall u.pid c hu
  · rw [hlib, hlog]
    exact hu

/-- The write transaction `p` is open unless it was ended, or its environment closed or given
up. -/
def Writes (S : Stores σ V) (p : TxnPtr) (log : List Call) (s : σ) : Prop :=
  ¬ Ended log p → ¬ Closed log p.env → ¬ Panicked log p.env → S.writing s p

theorem writes_frame {S : Stores σ V} (hS : L.Transacts S) (p : TxnPtr) :
    L.Frame fun w w' => Writes S p w.log w.lib → Writes S p w'.log w'.lib := by
  refine Platform.frame_of_kept (fun pid c hp hended hclosed hpanicked => ?_) (fun hp => ?_)
    fun hp => ?_
  · rw [ended_cons, not_or] at hended
    rw [closed_cons, not_or] at hclosed
    rw [panicked_cons, not_or] at hpanicked
    exact hS.lasts pid (hp hended.2 hclosed.2 hpanicked.2) hended.1 hclosed.1 hpanicked.1
  · rwa [Writes, (hS.grows _).2.2]
  · rwa [Writes, (hS.collects _).2.2]

/-- The environment `e` is open unless it was closed. -/
def Opens (S : Bases σ V) (e : EnvPtr) (log : List Call) (s : σ) : Prop :=
  ¬ Closed log e → S.opened s e

theorem opens_frame {S : Bases σ V} (hS : L.Publishes S) (e : EnvPtr) :
    L.Frame fun w w' => Opens S e w.log w.lib → Opens S e w'.log w'.lib := by
  refine Platform.frame_of_kept (fun pid c hp hclosed => ?_) (fun hp => ?_) fun hp => ?_
  · rw [closed_cons, not_or] at hclosed
    exact hS.stays pid (hp hclosed.2) hclosed.1
  · rwa [Opens, hS.growsOpen]
  · rwa [Opens, hS.collectsOpen]

/-- Nothing was committed in the environment `e` between the traces `past` and `log`, and after
`log` it is not closed. -/
structure Unwritten (past log : List Call) (e : EnvPtr) : Prop where
  commits : ∀ new, log = new ++ past → ∀ c ∈ new, ∀ p, c.Commits p → p.env ≠ e
  open_ : ¬ Closed log e

theorem Unwritten.uncons {past log : List Call} {e : EnvPtr} {c : Call}
    (h : Unwritten past (c :: log) e) : Unwritten past log e where
  commits new hnew c' hc' :=
    h.commits (c :: new) (by rw [hnew]; rfl) c' (List.mem_cons_of_mem _ hc')
  open_ hclosed := h.open_ ((closed_cons _ _ _).mpr (.inr hclosed))

theorem Unwritten.refl {log : List Call} {e : EnvPtr} (hopen : ¬ Closed log e) :
    Unwritten log log e where
  commits new hnew c hc := by
    obtain rfl : new = [] := by simpa using hnew
    cases hc
  open_ := hopen

theorem Unwritten.calls {past new : List Call} {e : EnvPtr} (hopen : ¬ Closed past e)
    (hcommits : ∀ c ∈ new, ∀ p, c.Commits p → p.env ≠ e) (hcloses : ∀ c ∈ new, ¬ c.Closes e) :
    Unwritten past (new ++ past) e where
  commits new' hnew c hc p hp := by
    obtain rfl := List.append_cancel_right hnew
    exact hcommits c hc p hp
  open_ := by
    rintro ⟨c, hc, hclosed⟩
    rcases List.mem_append.mp hc with hc | hc
    · exact hcloses c hc hclosed
    · exact hopen ⟨c, hc, hclosed⟩

theorem Unwritten.trans {past mid log : List Call} {e : EnvPtr} (h : Unwritten past mid e)
    (h' : Unwritten mid log e) (hpast : past <:+ mid) (hmid : mid <:+ log) :
    Unwritten past log e where
  commits new hnew c hc p hp := by
    obtain ⟨early, rfl⟩ := hpast
    obtain ⟨late, rfl⟩ := hmid
    rw [← List.append_assoc] at hnew
    obtain rfl := List.append_cancel_right hnew
    rcases List.mem_append.mp hc with hc | hc
    · exact h'.commits late rfl c hc p hp
    · exact h.commits early rfl c hc p hp
  open_ := h'.open_

/-- The run has gone on from the trace `past`, and unless it has committed in the environment `e` or
closed it, `v` is committed there. -/
structure Still (S : Bases σ V) (e : EnvPtr) (v : V) (past log : List Call) (s : σ) : Prop where
  later : past <:+ log
  same : Unwritten past log e → S.opened s e ∧ S.committed s e = v

theorem Still.start {S : Bases σ V} {e : EnvPtr} {s : σ} (h : S.opened s e) (log : List Call) :
    Still S e (S.committed s e) log log s :=
  ⟨List.suffix_rfl, fun _ => ⟨h, rfl⟩⟩

theorem still_frame {S : Bases σ V} (hS : L.Publishes S) (e : EnvPtr) (v : V) (past : List Call) :
    L.Frame fun w w' => Still S e v past w.log w.lib → Still S e v past w'.log w'.lib := by
  refine Platform.frame_of_kept (fun pid c h => ?_) (fun h => ⟨h.later, ?_⟩)
    fun h => ⟨h.later, ?_⟩
  · refine ⟨h.later.trans (List.suffix_cons _ _), fun hnone => ?_⟩
    obtain ⟨hopen, hsame⟩ := h.same hnone.uncons
    obtain ⟨new, hnew⟩ := h.later
    have hcloses : ¬ Call.Closes ⟨pid, c, L.outcome c _⟩ e := fun hcloses =>
      hnone.open_ ((closed_cons _ _ _).mpr (.inl hcloses))
    have hcommits := hnone.commits (_ :: new) (by rw [List.cons_append, hnew]) _ List.mem_cons_self
    exact ⟨hS.stays pid hopen hcloses, (hS.keeps pid hopen hcloses hcommits).trans hsame⟩
  · rw [hS.growsOpen, (hS.grows _).2.1]
    exact h.same
  · rw [hS.collectsOpen, (hS.collects _).2.1]
    exact h.same

end Runs

end Mdbx
