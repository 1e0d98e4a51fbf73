import Mdbx.Cache
import Mdbx.Registry
import Mdbx.Listing

/-! Which database an entry point works on: every call that it makes of libmdbx is on the database
that its `db` argument names, in the transaction that it was given. -/

namespace Mdbx

open ProofKit

variable {σ α β : Type}

/-! ### Calls on a database -/

/-- The open database that a call works on. -/
def NativeCall.target : NativeCall → Option (TxnPtr × Dbi)
  | get txn dbi _ | put txn dbi _ _ _ | del txn dbi _ | cursorOpen txn dbi | cmp txn dbi _ _
  | dbiStat txn dbi | dbiSequence txn dbi _ | drop txn dbi _ => some (txn, dbi)
  | _ => none

/-- The cursor that a call works on. -/
def NativeCall.cursor? : NativeCall → Option CursorPtr
  | cursorGet cursor _ | cursorClose cursor => some cursor
  | _ => none

/-- Made in the library state `s`, the call works in the transaction `p` on the database `name`, or
on main if there is no name. -/
inductive On (N : Names σ) (p : TxnPtr) (name : Option Bytes) (s : σ) : NativeCall → Prop where
  | opens : On N p name s (.dbiOpen p name 0)
  | works {c : NativeCall} {dbi : Dbi} (hc : c.target = some (p, dbi))
      (hslot : N.slot s p name = some dbi) : On N p name s c
  | counts (hmain : name = none) : On N p name s (.enumerateTables p .count)
  | stat (hmain : name = none) : On N p name s (.envStatEx p.env (some p))

/-- A run from `w` whose calls all work in the transaction `p` on the database `name`, some of them
through a cursor that was opened on it in this run. -/
inductive Served (L : Platform σ) (N : Names σ) (p : TxnPtr) (name : Option Bytes) (w : World σ) :
    World σ → Prop where
  | start : Served L N p name w w
  | aside {u u' : World σ} (hu : Served L N p name w u) (hlog : u'.log = u.log)
      (hslot : N.slot u'.lib = N.slot u.lib) : Served L N p name w u'
  | call {u : World σ} {c : NativeCall} (hu : Served L N p name w u) (hc : On N p name u.lib c) :
    Served L N p name w (u.answered L c (L.outcome c u.lib))
  | cursor {u v : World σ} {c : NativeCall} {dbi : Dbi} {r : Reply (.cursorOpen p dbi)}
      (hv : Served L N p name w v) (hslot : N.slot v.lib p name = some dbi)
      (hgiven : (L.call (.cursorOpen p dbi) v.lib).1 = .ok r) (hu : Served L N p name w u)
      (hmade : (v.answered L (.cursorOpen p dbi) (.returned r.rc)).log <:+ u.log)
      (hc : c.cursor? = some ⟨p, r.out⟩) :
    Served L N p name w (u.answered L c (L.outcome c u.lib))

/-- What a use of the transaction `t` does: nothing, or calls in its environment, all of them on the
database `name`. -/
def Addresses (L : Platform σ) (N : Names σ) (t : TxnRef) (name : Option Bytes)
    (w w' : World σ) : Prop :=
  w' = w ∨ ∃ e k, LiveTxn w e t k ∧ Served L N ⟨e, t⟩ name w w'

section

variable {L : Platform σ} {N : Names σ} {p : TxnPtr} {t : TxnRef} {name : Option Bytes} {dbi : Dbi}
  {w w' u v : World σ} {e : EnvRef} {k : TxnHandle} {names : List Bytes} {past : List Call}

theorem Served.trans (h : Served L N p name w u) (h' : Served L N p name u v) :
    Served L N p name w v := by
  induction h' with
  | start => exact h
  | aside _ hlog hslot ih => exact ih.aside hlog hslot
  | call _ hc ih => exact ih.call hc
  | cursor _ hslot hgiven _ hmade hc ihv ihu => exact ihv.cursor hslot hgiven ihu hmade hc

/-- No call on one database is a call on another. -/
theorem On.unique (hN : L.OpensNames N) {s : σ} {c : NativeCall} {name' : Option Bytes}
    (h : On N p name s c) (h' : On N p name' s c) : name' = name := by
  cases h with
  | opens =>
    cases h' with
    | opens => rfl
    | works hc => cases hc
  | works hc hslot =>
    cases h' with
    | works hc' hslot' =>
      rw [hc] at hc'
      cases hc'
      exact (hN.injective hslot hslot').symm
    | opens => cases hc
    | counts => cases hc
    | stat => cases hc
  | counts hmain =>
    cases h' with
    | works hc => cases hc
    | counts hmain' => rw [hmain, hmain']
  | stat hmain =>
    cases h' with
    | works hc => cases hc
    | stat hmain' => rw [hmain, hmain']

/-- What two entry points do one after the other. -/
theorem Addresses.trans (hw : Reachable L w) (hu : Reachable L u) (hlog : w.log <:+ u.log)
    (h : Addresses L N t name w u) (h' : Addresses L N t name u v) :
    Addresses L N t name w v := by
  rcases h with rfl | ⟨e, k, hk, hserved⟩
  · exact h'
  rcases h' with rfl | ⟨e', k', hk', hserved'⟩
  · exact .inr ⟨e, k, hk, hserved⟩
  have I : Inv { lossy := true } w := hw.invariant (by simp)
  have I' : Inv { lossy := true } u := hu.invariant (by simp)
  obtain ⟨c, hc, hbegins⟩ := I.traced.begun hk.at_ hk.owner
  obtain rfl : e' = e := I'.owner_of_begun hk'.at_ ⟨c, hlog.subset hc, hbegins⟩ hk'.owner
  exact .inr ⟨e', k, hk, hserved.trans hserved'⟩

/-! ### Guarded bodies -/

/-- The handle of the transaction `t` points at the database `name`. -/
structure Bearing (N : Names σ) (p : TxnPtr) (t : TxnRef) (name : Option Bytes) (dbi : Dbi)
    (w : World σ) : Prop where
  handle : ∃ k, w.txns t = some k ∧ k.txn = some p ∧ k.dbi = dbi
  slot : N.slot w.lib p name = some dbi

/-- `m` keeps `I` and leaves the handle pointed at the database. -/
abbrev Bears (I : World σ → Prop) (N : Names σ) (p : TxnPtr) (t : TxnRef) (name : Option Bytes)
    (dbi : Dbi) (m : Pkg σ α) : Prop :=
  Keeps I (fun _ _ => True) (Bearing N p t name dbi) m

/-- From a world in which the handle points at the database, all that `m` does is on that
database. -/
abbrev Serves (L : Platform σ) (N : Names σ) (p : TxnPtr) (t : TxnRef) (name : Option Bytes)
    (dbi : Dbi) (w : World σ) (past : List Call) (m : Pkg σ α) : Prop :=
  Bears (fun u => Served L N p name w u ∧ past <:+ u.log) N p t name dbi m

theorem NativeCall.stays {c : NativeCall} (hc : c.target ≠ none ∨ c.cursor? ≠ none) (pid : Pid)
    (o : Outcome) (q : TxnPtr) : ¬ Call.Dismisses ⟨pid, c, o⟩ q := by
  rintro ((⟨hends, -⟩ | ⟨htears, -⟩) | ⟨hcloses, -⟩) <;> cases c <;>
    simp_all [NativeCall.target, NativeCall.cursor?, NativeCall.finishes]

/-- A call on a database or a cursor deletes no database, unless it says so. -/
theorem Platform.OpensNames.stays (hN : L.OpensNames N) {c : NativeCall}
    (hc : c.target ≠ none ∨ c.cursor? ≠ none) (hkeeps : c.keepsNames = true) (s : σ) :
    N.slot (L.call c s).2 = N.slot s :=
  funext fun _ => hN.others 0 (NativeCall.not_renames hkeeps _) (NativeCall.stays hc _ _ _)

/-- A call keeps what its answer keeps. -/
theorem native_answers {I P : World σ → Prop} {c : NativeCall}
    (h : ∀ u, I u → P u → I (u.answered L c (L.outcome c u.lib)) ∧
      P (u.answered L c (L.outcome c u.lib))) :
    Keeps I (fun _ _ => True) P (native L c) := by
  intro u hI hP
  have hkept := h u hI hP
  rw [← native_final (L := L) c u] at hkept
  rw [Triple]
  rcases hr : (native L c).run u with ⟨x | r, u'⟩
  · rw [hr] at hkept
    exact ⟨hkept.1, trivial⟩
  · rw [hr] at hkept
    exact hkept

namespace Bears

variable {I : World σ → Prop}

/-- A program that changes nothing. -/
theorem still {m : Pkg σ α} (h : ∀ u, (m.run u).2 = u) : Bears I N p t name dbi m := by
  intro u hu hbearing
  have hsame := h u
  rcases hr : m.run u with ⟨x | a, u'⟩
  · rw [hr] at hsame
    subst hsame
    exact Triple.error hr ⟨hu, trivial⟩
  · rw [hr] at hsame
    subst hsame
    exact Triple.ok hr ⟨hu, hbearing⟩

theorem refuse (refused : Prop) [Decidable refused] (c : Condition) :
    Bears I N p t name dbi (Mdbx.refuse refused c : Pkg σ Unit) :=
  Keeps.ite (fun _ => Keeps.exit fun _ => trivial) fun _ => .pure _

theorem check (rc : Status) : Bears I N p t name dbi (Mdbx.check rc : Pkg σ Unit) := refuse _ _

theorem narrow (bound : ℕ) (x : Double) :
    Bears I N p t name dbi (Mdbx.narrow bound x : Pkg σ ℕ) := by
  refine still fun u => ?_
  rw [Mdbx.narrow]
  cases x.toUnsigned bound <;> rfl

/-- A call that keeps the numbers of the databases. -/
theorem answers {c : NativeCall} (hslot : ∀ s, N.slot (L.call c s).2 = N.slot s)
    (h : ∀ u, I u → N.slot u.lib p name = some dbi → I (u.answered L c (L.outcome c u.lib))) :
    Bears I N p t name dbi (Mdbx.native L c) := by
  refine native_answers fun u hu hbearing => ⟨h u hu hbearing.slot, hbearing.handle, ?_⟩
  show N.slot (L.call c u.lib).2 p name = some dbi
  rw [hslot]
  exact hbearing.slot

/-- What a body does with the transaction and the database that the handle holds. -/
theorem current {f : TxnPtr × Dbi → Pkg σ α} (hf : Bears I N p t name dbi (f (p, dbi))) :
    Bears I N p t name dbi (current t >>= f) := by
  intro u hu hbearing
  obtain ⟨k, hk, htxn, hdbi⟩ := hbearing.handle
  refine Triple.congr ?_ (hf u hu hbearing)
  rw [Mdbx.current, bind_assoc, Prog.bind_ok (derefTxn_run hk), htxn, hdbi]
  rfl

end Bears

namespace Serves

theorem native_final {c : NativeCall} (hserved : ∀ u, Served L N p name w u → past <:+ u.log →
      N.slot u.lib p name = some dbi → Served L N p name w (u.answered L c (L.outcome c u.lib)))
    (hslot : ∀ s, N.slot (L.call c s).2 = N.slot s) :
    Serves L N p t name dbi w past (native L c) :=
  .answers hslot fun u hu hbearing =>
    ⟨hserved u hu.1 hu.2 hbearing, hu.2.trans (List.suffix_cons _ _)⟩

/-- A call on the database that the handle points at. -/
theorem native (hN : L.OpensNames N) {c : NativeCall} (hc : c.target = some (p, dbi))
    (hkeeps : c.keepsNames = true) : Serves L N p t name dbi w past (native L c) :=
  native_final (fun _ hu _ hslot => hu.call (.works hc hslot))
    (hN.stays (.inl (by simp [hc])) hkeeps)

theorem grow (hN : L.OpensNames N) : Serves L N p t name dbi w past (Mdbx.grow L) := by
  rintro u ⟨hu, hpast⟩ ⟨hhandle, hslot⟩
  have hsame := hN.grows u.lib
  exact ⟨⟨hu.aside rfl hsame, hpast⟩, hhandle, (congrFun₂ hsame p name).trans hslot⟩

end Serves

/-- The world is as it was but for handles. -/
structure Aside (w w' : World σ) : Prop where
  log : w'.log = w.log
  lib : w'.lib = w.lib

instance : IsPreorder (World σ) Aside where
  refl _ := ⟨rfl, rfl⟩
  trans _ _ _ h h' := ⟨h'.log.trans h.log, h'.lib.trans h.lib⟩

theorem updateEnv_aside (e : EnvRef) (f : EnvHandle → EnvHandle) :
    Within Aside (updateEnv e f : Pkg σ Unit) :=
  (Within.derefEnv e).bind fun _ => Within.modify fun _ => ⟨rfl, rfl⟩

theorem updateTxn_aside (t : TxnRef) (f : TxnHandle → TxnHandle) :
    Within Aside (updateTxn t f : Pkg σ Unit) :=
  (Within.derefTxn t).bind fun _ => Within.modify fun _ => ⟨rfl, rfl⟩

theorem poisonTxn_aside (t : TxnRef) : Within Aside (poisonTxn t : Pkg σ Unit) := by
  refine (updateTxn_aside t _).bind fun _ => (Within.derefTxn t).bind fun k => ?_
  cases k.owner with
  | none => exact Within.pure _
  | some e => exact updateEnv_aside e _

theorem poisonEnv_aside (e : EnvRef) : Within Aside (poisonEnv e : Pkg σ Unit) :=
  updateEnv_aside e _

/-- A guarded body ends as the body does; its panic is noted on the handles. -/
theorem guard_triple {body : Pkg σ α} {poison : Pkg σ Unit} {Q : α → World σ → Prop}
    {I : World σ → Prop} (hI : ∀ u u', Aside u u' → I u → I u') (hp : Within Aside poison)
    (h : Triple body u Q fun _ => I) : Triple (guard body poison) u Q fun _ => I := by
  rw [guard, runGuarded, bind_assoc]
  refine Triple.bind (Q := fun r u' => (∀ a, r = .ok a → Q a u') ∧ ∀ x, r = .error x → I u')
    (Triple.attempt (h.mono ?_ ?_)) ?_
  · exact fun a u' hQ => ⟨fun b hb => by cases hb; exact hQ, fun x hx => by cases hx⟩
  · exact fun x u' hI => ⟨fun b hb => (by cases hb), fun _ _ => hI⟩
  · rintro (x | a) u' ⟨hok, herror⟩
    · have hu' := herror x rfl
      cases x with
      | panic info =>
        have hpoisoned := hI u' _ (hp u') hu'
        rcases hr : poison.run u' with ⟨y | a, u''⟩
        · rw [hr] at hpoisoned
          exact Triple.error (by rw [bind_assoc, Prog.bind_error hr]) hpoisoned
        · rw [hr] at hpoisoned
          exact Triple.error (by rw [bind_assoc, Prog.bind_ok hr]; rfl) hpoisoned
      | stop c => exact hu'
      | longjmp => exact hu'
      | undefined why => exact hu'
    · exact hok a rfl

theorem Served.put_aside (hu : Served L N p name w u) (h : Aside u v) : Served L N p name w v :=
  hu.aside h.log (by rw [h.lib])

/-- A guarded body bears what the body does, if a note on the handles does not matter. -/
theorem Bears.guard {I : World σ → Prop} (hI : ∀ u u', Aside u u' → I u → I u')
    {body : Pkg σ α} {poison : Pkg σ Unit} (hp : Within Aside poison)
    (h : Bears I N p t name dbi body) : Bears I N p t name dbi (Mdbx.guard body poison) := by
  intro u hu hbearing
  refine (guard_triple hI hp ((h u hu hbearing).mono (fun _ _ => id) fun _ _ h => h.1)).mono
    (fun _ _ => id) fun _ _ h => ⟨h, trivial⟩

namespace Serves

theorem guard {body : Pkg σ α} {poison : Pkg σ Unit} (hp : Within Aside poison)
    (h : Serves L N p t name dbi w past body) :
    Serves L N p t name dbi w past (Mdbx.guard body poison) :=
  Bears.guard (fun _ _ haside hu => ⟨hu.1.put_aside haside, haside.log ▸ hu.2⟩) hp h

/-! ### Scans -/

section Scan

variable {cursor : CursorPtr} (hcursor : ∀ {c : NativeCall}, c.cursor? = some cursor →
    Serves L N p t name dbi w past (Mdbx.native L c))
include hcursor

theorem cursorGet (op : CursorOp) :
    Serves L N p t name dbi w past (Mdbx.cursorGet L cursor op) :=
  (hcursor rfl).bind fun _ => .pure _

theorem position (hN : L.OpensNames N) (hp : cursor.txn = p) (reverse : Bool)
    (start : Option Bytes) :
    Serves L N p t name dbi w past (Mdbx.position L cursor dbi reverse start) := by
  cases start with
  | none => exact cursorGet hcursor _
  | some from_ =>
    refine (cursorGet hcursor _).bind fun _ => .ite (fun _ => cursorGet hcursor _) fun _ => ?_
    refine .ite (fun _ => ?_) fun _ => .pure _
    refine Keeps.bind (native hN (by rw [hp]; rfl) rfl) fun order => ?_
    exact .ite (fun _ => cursorGet hcursor _) fun _ => .pure _

omit hcursor in
theorem collect (hN : L.OpensNames N) (wantValues : Bool) (key value : Bytes) (found : Scanned) :
    Serves L N p t name dbi w past (Mdbx.collect L wantValues key value found) := by
  refine (grow hN).bind fun room => .ite (fun _ => .pure _) fun _ => ?_
  refine .ite (fun _ => .pure _) fun _ => ?_
  exact (grow hN).bind fun room => .ite (fun _ => .pure _) fun _ => .pure _

theorem scanLoop (hN : L.OpensNames N) (wantValues reverse : Bool) (remaining : ℕ)
    {move : Pkg σ Reached} (hmove : Serves L N p t name dbi w past move) (found : Scanned) :
    Serves L N p t name dbi w past
      (Mdbx.scanLoop L cursor wantValues reverse remaining move found) := by
  induction remaining generalizing move found with
  | zero => exact .pure _
  | succ remaining ih =>
    refine Keeps.bind hmove fun _ => .ite (fun _ => .pure _) fun _ => ?_
    refine .ite (fun _ => .pure _) fun _ => (collect hN _ _ _ _).bind fun _ => ?_
    exact .ite (fun _ => .pure _) fun _ => ih (cursorGet hcursor _) _

end Scan

/-- A scan works through a cursor that it opened on the database. -/
theorem scanCall (hN : L.OpensNames N) (limit : ℕ) (wantValues reverse : Bool)
    (start : Option Bytes) :
    Serves L N p t name dbi w [] (Mdbx.scanCall L t limit wantValues reverse start) := by
  refine Bears.current ?_
  intro u hu hbearing
  have hcall : Serves L N p t name dbi w [] (Mdbx.native L (.cursorOpen p dbi)) :=
    native hN rfl rfl
  have hopens := hcall u hu hbearing
  rcases native_answered L (.cursorOpen p dbi) u with ⟨r, lib, hr, hcall⟩ | ⟨info, lib, hr, hcall⟩
  swap
  · rw [Triple, hr] at hopens
    exact Triple.stopped hr hopens
  have hr' := native_ok L hcall
  rw [Triple, hr'] at hopens
  obtain ⟨⟨hserved, -⟩, hbearing'⟩ := hopens
  refine Triple.step hr' ?_
  have hcursor : ∀ {c : NativeCall}, c.cursor? = some ⟨p, r.out⟩ → Serves L N p t name dbi w
      (u.answered L (.cursorOpen p dbi) (.returned r.rc)).log (Mdbx.native L c) := by
    intro c hc
    refine native_final (fun u' hu' hpast _ => .cursor hu.1 hbearing.slot hcall hu' hpast hc) ?_
    refine hN.stays (.inr (by simp [hc])) ?_
    cases c <;> first | rfl | cases hc
  have hrest : Serves L N p t name dbi w (u.answered L (.cursorOpen p dbi) (.returned r.rc)).log
      (if r.rc ≠ Status.success then pure ⟨[], [], false, r.rc⟩ else do
        let found ← Mdbx.scanLoop L ⟨p, r.out⟩ wantValues reverse limit
          (Mdbx.position L ⟨p, r.out⟩ dbi reverse start) ⟨[], [], false, r.rc⟩
        let _ ← Mdbx.native L (.cursorClose ⟨p, r.out⟩)
        pure found) := by
    refine .ite (fun _ => .pure _) fun _ => ?_
    refine Keeps.bind (scanLoop hcursor hN _ _ _ (position hcursor hN rfl _ _) _) fun found => ?_
    exact (hcursor rfl).bind fun _ => .pure _
  refine (hrest _ ⟨hserved, List.suffix_rfl⟩ hbearing').mono ?_ ?_
  · intro found u' hu'
    exact ⟨⟨hu'.1.1, List.nil_suffix⟩, hu'.2⟩
  · intro x u' hu'
    exact ⟨⟨hu'.1.1, List.nil_suffix⟩, trivial⟩

end Serves

/-! ### Resolving the database -/

theorem TxnHandle.remember_txn (k : TxnHandle) (name : Option Bytes) (dbi : Dbi) :
    (k.remember name dbi).txn = k.txn := by
  cases name <;> rfl

/-- The handle of the transaction `t` is live, and its name cache is right. -/
structure Attached (N : Names σ) (e : EnvRef) (t : TxnRef) (w : World σ) : Prop where
  env : ∃ h, w.envs e = some h ∧ h.env = some e
  txn : ∃ k, w.txns t = some k ∧ k.owner = some e ∧ k.txn = some ⟨e, t⟩ ∧
    ∀ {name dbi}, k.cached name = some dbi → N.slot w.lib ⟨e, t⟩ name = some dbi

theorem Reachable.attached (hN : L.OpensNames N) (hr : Reachable L w) (ht : LiveTxn w e t k) :
    Attached N e t w := by
  have I : Inv { lossy := true } w := hr.invariant (by simp)
  obtain ⟨h, he, henv, -⟩ := I.graph.owner ht.at_ ht.owner
  exact ⟨⟨h, he, henv⟩, k, ht.at_, ht.owner, I.graph.txnPtr ht, (hr.cached hN ht).slot⟩

/-- `ensure_dbi` opens the database or finds it open, and points the handle at it.  It keeps what
that open keeps. -/
theorem ensureDbi_bears (hN : L.OpensNames N) {I : World σ → Prop}
    (hI : ∀ u u', Aside u u' → I u → I u') (names : List Bytes)
    (hopen : ∀ u, I u → I (u.answered L (.dbiOpen ⟨e, t⟩ names.head? 0)
      (L.outcome (.dbiOpen ⟨e, t⟩ names.head? 0) u.lib))) (hu : I u) (A : Attached N e t u) :
    Triple (ensureDbi L t names) u
      (fun dbi u' => I u' ∧ Bearing N ⟨e, t⟩ t names.head? dbi u') (fun _ => I) := by
  obtain ⟨h, he, -⟩ := A.env
  obtain ⟨k, hk, howner, htxn, hcache⟩ := A.txn
  have hends := ensureDbiNamed_run (L := L) he hk howner htxn names.head?
  have hcall := hopen u hu
  rw [ensureDbi, Triple]
  rcases hrun : (ensureDbiNamed L t names.head?).run u with ⟨x | dbi, u₁⟩
  · rw [hrun] at hends
    cases hends with
    | failed r _ hopen _ hw =>
      subst hw
      rw [outcome_ok hopen] at hcall
      exact hcall
    | panicked info _ hopen hw =>
      subst hw
      rw [outcome_error hopen] at hcall
      refine hI _ _ ?_ hcall
      exact ⟨rfl, rfl⟩
  · rw [hrun] at hends
    cases hends with
    | cached _ hcached hw =>
      subst hw
      refine ⟨hI _ _ ?_ hu, ⟨{ k with dbi := dbi }, by simp, htxn, rfl⟩, hcache hcached⟩
      exact ⟨rfl, rfl⟩
    | opened r _ hopen hrc hw =>
      subst hw
      rw [outcome_ok hopen, hrc] at hcall
      refine ⟨hI _ _ ?_ hcall,
        ⟨{ k.remember names.head? r.out with dbi := r.out }, by simp, ?_, rfl⟩, ?_⟩
      · exact ⟨rfl, rfl⟩
      · exact (TxnHandle.remember_txn ..).trans htxn
      · show N.slot (L.call (.dbiOpen ⟨e, t⟩ names.head? 0) u.lib).2 ⟨e, t⟩ names.head? = some r.out
        rw [hN.opens hopen hrc, Function.update_self]

/-- All that `ensure_dbi` does is on the database that it points the handle at. -/
theorem ensureDbi_served (hN : L.OpensNames N) (names : List Bytes)
    (hu : Served L N ⟨e, t⟩ names.head? w u) (A : Attached N e t u) :
    Triple (ensureDbi L t names) u
      (fun dbi u' => Served L N ⟨e, t⟩ names.head? w u' ∧ Bearing N ⟨e, t⟩ t names.head? dbi u')
      (fun _ u' => Served L N ⟨e, t⟩ names.head? w u') :=
  ensureDbi_bears hN (fun _ _ haside hu => hu.put_aside haside) names (fun _ hu => hu.call .opens)
    hu A

/-- Counting the named databases is a question about main. -/
theorem count_attached (hN : L.OpensNames N) (hmain : name = none) :
    Keeps (Served L N ⟨e, t⟩ name w) (fun _ _ => True) (Attached N e t)
      (native L (.enumerateTables ⟨e, t⟩ .count)) := by
  refine native_answers fun u hu A => ⟨hu.call (.counts hmain), A.env, ?_⟩
  obtain ⟨k, hk, howner, htxn, hcache⟩ := A.txn
  refine ⟨k, hk, howner, htxn, fun {name dbi} hcached => ?_⟩
  show N.slot (L.call (.enumerateTables ⟨e, t⟩ .count) u.lib).2 ⟨e, t⟩ name = some dbi
  rw [hN.others 0 (NativeCall.not_renames rfl _)]
  · exact hcache hcached
  · rintro ((⟨hends, -⟩ | ⟨htears, -⟩) | ⟨hcloses, -⟩)
    · cases hends
    · cases htears
    · cases hcloses

/-- How an entry point gets at its transaction: it refuses, or has a live one. -/
def Accesses (acc : Pkg σ TxnRef) (t : TxnRef) (w : World σ) : Prop :=
  (∃ c, acc.run w = (.error (.stop c), w)) ∨ ∃ e k, acc.run w = (.ok t, w) ∧ LiveTxn w e t k

theorem txnFromSexp_accesses (hr : Reachable L w) (t : TxnRef) :
    Accesses (txnFromSexp (.txn t)) t w := by
  have I : Inv { lossy := true } w := hr.invariant (by simp)
  rcases txnFromSexp_run I.graph (.txn t) with ⟨c, hrun⟩ | ⟨e, h, _, k, s, hx, -, -, hrun, -, hk⟩
  · exact .inl ⟨c, hrun⟩
  · cases hx
    exact .inr ⟨e, k, hrun, hk⟩

theorem writableTxn_accesses (hr : Reachable L w) (t : TxnRef) :
    Accesses (writableTxn (.txn t)) t w := by
  rcases txnFromSexp_accesses hr t with ⟨c, hrun⟩ | ⟨e, k, hrun, hk⟩
  · exact .inl ⟨c, Prog.bind_error hrun⟩
  rw [Accesses, writableTxn, Prog.bind_ok hrun, Prog.bind_ok (derefTxn_run hk.at_)]
  by_cases hwrite : k.write = false
  · exact .inl ⟨_, Prog.bind_error (refuse_run hwrite)⟩
  · exact .inr ⟨e, k, by rw [Prog.bind_ok (refuse_pass hwrite)]; rfl, hk⟩

theorem sequenceTxn_accesses (hr : Reachable L w) (t : TxnRef) (increment : Double) :
    Accesses (sequenceTxn (.txn t) increment) t w := by
  rw [sequenceTxn]
  split
  · exact writableTxn_accesses hr t
  · exact txnFromSexp_accesses hr t

theorem Accesses.addresses {acc : Pkg σ TxnRef} (h : Accesses acc t w) {f : TxnRef → Pkg σ α}
    (hf : ∀ e k, LiveTxn w e t k → Triple (f t) w (fun _ => Served L N ⟨e, t⟩ name w)
      (fun _ => Served L N ⟨e, t⟩ name w)) : Addresses L N t name w ((acc >>= f).run w).2 := by
  rcases h with ⟨c, hrun⟩ | ⟨e, k, hrun, hk⟩
  · rw [Prog.bind_error hrun]
    exact .inl rfl
  · rw [Prog.bind_ok hrun]
    exact .inr ⟨e, k, hk, (hf e k hk).final⟩

/-- An entry point that resolves its database and then works on it. -/
theorem ensureDbi_addresses (hN : L.OpensNames N) (hr : Reachable L w) {acc : Pkg σ TxnRef}
    (h : Accesses acc t w) {f : TxnRef → Pkg σ α}
    (hf : ∀ p dbi, Serves L N p t names.head? dbi w [] (f t)) : Addresses L N t names.head? w
      ((acc >>= fun t => ensureDbi L t names >>= fun _ => f t).run w).2 := by
  refine h.addresses fun e k hk =>
    Triple.bind (ensureDbi_served hN names .start (hr.attached hN hk)) ?_
  intro dbi u hu
  refine (hf ⟨e, t⟩ dbi u ⟨hu.1, List.nil_suffix⟩ hu.2).mono ?_ ?_
  · exact fun _ _ hu' => hu'.1.1
  · exact fun _ _ hu' => hu'.1.1

/-! ### The entry points -/

section Entries

variable (hN : L.OpensNames N) (hr : Reachable L w) (names : List Bytes)
include hN hr

theorem mdbxGet_addresses (key : Bytes) :
    Addresses L N t names.head? w ((mdbxGet_ L (.txn t) key names).run w).2 := by
  refine ensureDbi_addresses hN hr (txnFromSexp_accesses hr t) fun p dbi => ?_
  refine (Serves.guard (poisonTxn_aside t) (.current ?_)).bind fun _ => ?_
  · exact (Serves.native hN rfl rfl).bind fun _ => .pure _
  · exact .ite (fun _ => .pure _) fun _ => (Bears.check _).bind fun _ => .pure _

theorem mdbxPut_addresses (key value : Bytes) (overwrite : Bool) :
    Addresses L N t names.head? w ((mdbxPut_ L (.txn t) key value overwrite names).run w).2 := by
  refine ensureDbi_addresses hN hr (writableTxn_accesses hr t) fun p dbi => ?_
  refine (Serves.guard (poisonTxn_aside t) (.current ?_)).bind fun _ => ?_
  · exact (Serves.native hN rfl rfl).bind fun _ => .pure _
  · exact .ite (fun _ => .pure _) fun _ => (Bears.check _).bind fun _ => .pure _

theorem mdbxDel_addresses (key : Bytes) :
    Addresses L N t names.head? w ((mdbxDel_ L (.txn t) key names).run w).2 := by
  refine ensureDbi_addresses hN hr (writableTxn_accesses hr t) fun p dbi => ?_
  refine (Serves.guard (poisonTxn_aside t) (.current ?_)).bind fun _ => ?_
  · exact (Serves.native hN rfl rfl).bind fun _ => .pure _
  · exact .ite (fun _ => .pure _) fun _ => (Bears.check _).bind fun _ => .pure _

theorem mdbxScan_addresses (limit : Double) (values : Bool) (start : Option Bytes)
    (reverse : Bool) : Addresses L N t names.head? w
      ((mdbxScan_ L (.txn t) limit values names start reverse).run w).2 := by
  by_cases hlarge : ¬ limit.le (maxNativeInteger L) = true
  · rw [mdbxScan_, Prog.bind_error (refuse_run hlarge)]
    exact .inl rfl
  rw [mdbxScan_, Prog.bind_ok (refuse_pass hlarge)]
  refine ensureDbi_addresses hN hr (txnFromSexp_accesses hr t) fun p dbi => ?_
  refine Keeps.bind (.ite (fun _ => .pure _) fun _ => Bears.narrow _ _) fun bound => ?_
  refine (Serves.guard (poisonTxn_aside t) (Serves.scanCall hN _ _ _ _)).bind fun found => ?_
  exact (Bears.refuse _ _).bind fun _ => (Bears.check _).bind fun _ => .pure _

theorem mdbxDbiSequence_addresses (increment : Double) :
    Addresses L N t names.head? w ((mdbxDbiSequence_ L (.txn t) names increment).run w).2 := by
  have hcall : ∀ p dbi amount, Serves L N p t names.head? dbi w []
      (guard (sequenceCall L t amount) (poisonTxn t)) := fun p dbi amount =>
    Serves.guard (poisonTxn_aside t) (.current ((Serves.native hN rfl rfl).bind fun _ => .pure _))
  refine ensureDbi_addresses hN hr (sequenceTxn_accesses hr t increment) fun p dbi => ?_
  refine (hcall p dbi 0).bind fun _ => (Bears.check _).bind fun _ => ?_
  refine .ite (fun _ => .pure _) fun _ => (Bears.refuse _ _).bind fun _ => ?_
  refine (Bears.narrow _ _).bind fun amount => (hcall p dbi amount).bind fun _ => ?_
  exact (Bears.refuse _ _).bind fun _ => (Bears.check _).bind fun _ => .pure _

/-- The count that keeps main from being emptied is a question about main. -/
theorem refuseMainWithNamed_served (ht : LiveTxn w e t k) (del : Bool) :
    Triple (refuseMainWithNamed L t names del) w
      (fun _ u => Served L N ⟨e, t⟩ names.head? w u ∧ Attached N e t u)
      (fun _ u => Served L N ⟨e, t⟩ names.head? w u) := by
  have A := hr.attached hN ht
  by_cases hmain : del = false ∧ names = []
  swap
  · rw [refuseMainWithNamed, whenever_neg hmain]
    exact Triple.pure ⟨.start, A⟩
  rw [refuseMainWithNamed, whenever_pos hmain]
  have hnone : names.head? = none := by rw [hmain.2]; rfl
  obtain ⟨k', hk, howner, htxn, hcache⟩ := A.txn
  have hcount : Triple (countCall L t) w
      (fun _ u => Served L N ⟨e, t⟩ names.head? w u ∧ Attached N e t u)
      (fun _ u => Served L N ⟨e, t⟩ names.head? w u) := by
    rw [countCall, current, bind_assoc]
    refine Triple.step (derefTxn_run hk) ?_
    rw [htxn, nonNull_some, pure_bind, pure_bind]
    have hcall := count_attached hN hnone w .start A
    exact Triple.bind (hcall.mono (fun _ _ => id) fun _ _ h => h.1) fun r u hu => hu
  rw [countNamedTables, bind_assoc]
  refine Triple.bind (guard_triple (fun u u' => fun ha hu => hu.put_aside ha) (poisonTxn_aside t)
    hcount) ?_
  rintro ⟨rc, count⟩ u hu
  by_cases hrc : rc = Status.success
  swap
  · exact Triple.error (by rw [bind_assoc, Prog.bind_error (check_failure hrc)]) hu.1
  subst hrc
  rw [bind_assoc]
  refine Triple.step check_success ?_
  by_cases hsome : 0 < count
  · exact Triple.error (refuse_run hsome) hu.1
  · exact Triple.ok (refuse_pass hsome) hu

theorem mdbxDbiDrop_addresses (del : Bool) :
    Addresses L N t names.head? w ((mdbxDbiDrop_ L (.txn t) names del).run w).2 := by
  refine (writableTxn_accesses hr t).addresses fun e k hk => ?_
  refine Triple.bind (refuseMainWithNamed_served hN hr names hk del) ?_
  rintro - u ⟨hu, A⟩
  by_cases hmain : del = true ∧ names = []
  · exact Triple.stopped (refuse_run hmain) hu
  refine Triple.step (refuse_pass hmain) (Triple.bind (ensureDbi_served hN names hu A) ?_)
  rintro dbi u₁ ⟨hu₁, hbearing⟩
  have hdrop : Triple (guard (dropCall L t del) (poisonTxn t)) u₁
      (fun _ => Served L N ⟨e, t⟩ names.head? w) (fun _ => Served L N ⟨e, t⟩ names.head? w) := by
    refine guard_triple (fun u u' => fun ha hu => hu.put_aside ha) (poisonTxn_aside t) ?_
    obtain ⟨k₁, hk₁, htxn, hdbi⟩ := hbearing.handle
    rw [dropCall, current, bind_assoc]
    refine Triple.step (derefTxn_run hk₁) ?_
    rw [htxn, hdbi]
    rw [nonNull_some, pure_bind, pure_bind]
    refine Triple.of_final (P := Served L N ⟨e, t⟩ names.head? w) ?_
    show Served L N ⟨e, t⟩ names.head? w
      ((Reply.rc <$> native L (.drop ⟨e, t⟩ dbi del)).run u₁).2
    rw [Prog.map_final, native_final]
    exact hu₁.call (.works rfl hbearing.slot)
  refine Triple.bind hdrop fun rc u₂ hu₂ => Triple.of_final ?_
  have haside : Within Aside (do
      check rc
      whenever (del = true) <| ifSome names.head? fun name =>
        updateTxn t fun k => { k with named := k.named.eraseP (·.1 == name) } : Pkg σ Unit) :=
    (Within.check rc).bind fun _ => .whenever (.ifSome _ fun _ => updateTxn_aside t _)
  exact hu₂.put_aside (haside u₂)

theorem mdbxTxnStat_addresses :
    Addresses L N t names.head? w ((mdbxTxnStat_ L (.txn t) names).run w).2 := by
  have hrest : ∀ (r : Status × Stat), Within Aside (do
      check r.1
      pure (statList r.2) : Pkg σ (List (String × Double))) := fun r =>
    (Within.check r.1).bind fun _ => .pure _
  refine (txnFromSexp_accesses hr t).addresses fun e k hk => Triple.step (derefTxn_run hk.at_) ?_
  have A := hr.attached hN hk
  by_cases hmain : names = []
  · subst hmain
    obtain ⟨h, he, henv⟩ := A.env
    have htxn := (Reachable.invariant (by simp) hr : Inv { lossy := true } w).graph.txnPtr hk
    rw [if_pos rfl, hk.owner, nonNull_some, pure_bind, runStat]
    refine Triple.step (derefEnv_run he) ?_
    rw [henv, htxn, nonNull_some, pure_bind]
    refine Triple.bind (Q := fun _ => Served L N ⟨e, t⟩ none w)
      (guard_triple (fun u u' => fun ha hu => hu.put_aside ha) (poisonEnv_aside e) ?_)
      fun r u hu => Triple.of_final (hu.put_aside (hrest r u))
    refine Triple.of_final (P := Served L N ⟨e, t⟩ none w) ?_
    show Served L N ⟨e, t⟩ none w
      (((fun r => (r.rc, r.out)) <$> native L (.envStatEx e (some ⟨e, t⟩))).run w).2
    rw [Prog.map_final, native_final]
    exact Served.start.call (.stat rfl)
  · rw [if_neg hmain]
    refine Triple.bind (ensureDbi_served hN names .start A) fun dbi u hu => ?_
    have hask : Serves L N ⟨e, t⟩ t names.head? dbi w [] (guard (dbiStatCall L t) (poisonTxn t)) :=
      Serves.guard (poisonTxn_aside t) (.current ((Serves.native hN rfl rfl).bind fun _ => .pure _))
    refine Triple.bind ((hask u ⟨hu.1, List.nil_suffix⟩ hu.2).mono (fun _ _ hu' => hu'.1.1)
      fun _ _ hu' => hu'.1.1) fun r u' hu' => Triple.of_final (hu'.put_aside (hrest r u'))

end Entries

end

end Mdbx
