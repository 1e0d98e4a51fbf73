import Mdbx.Frame

/-! The name cache of a transaction.  What libmdbx promises of the databases that a transaction has
open, and that in every reachable state the cache of each live transaction says the same. -/

namespace Mdbx

open ProofKit

variable {σ α : Type}

/-! ### Lists of names -/

/-- The number that a list of names gives for one of them. -/
def numberOf (name : Bytes) (named : List (Bytes × Dbi)) : Option Dbi :=
  (named.find? fun entry => entry.1 == name).map Prod.snd

section Lists

variable {name other : Bytes} {dbi : Dbi} {named : List (Bytes × Dbi)}

theorem numberOf_cons (entry : Bytes × Dbi) :
    numberOf name (entry :: named) =
      if entry.1 = name then some entry.2 else numberOf name named := by
  by_cases h : entry.1 = name
  · simp [numberOf, h]
  · have hne : (entry.1 == name) = false := by simpa using h
    simp [numberOf, hne, h]

theorem numberOf_eq_none : numberOf name named = none ↔ name ∉ named.map Prod.fst := by
  induction named with
  | nil => simp [numberOf]
  | cons entry rest ih =>
    rw [numberOf_cons, List.map_cons, List.mem_cons, not_or, ← ih]
    by_cases h : entry.1 = name
    · simp [h]
    · simp [h, Ne.symm h]

theorem numberOf_append (dbi : Dbi) : numberOf other (named ++ [(name, dbi)]) =
    (numberOf other named).or (if name = other then some dbi else none) := by
  induction named with
  | nil => simp [numberOf]
  | cons entry rest ih =>
    rw [List.cons_append, numberOf_cons, numberOf_cons, ih]
    split <;> simp

theorem numberOf_assign (named : List (Bytes × Dbi)) : numberOf other (assignNamed name dbi named) =
    if name = other then some dbi else numberOf other named := by
  induction named with
  | nil => simp [assignNamed, numberOf]
  | cons entry rest ih =>
    rw [assignNamed]
    by_cases h : entry.1 = name
    · rw [if_pos h, numberOf_cons, numberOf_cons, h]
      by_cases hother : name = other <;> simp [hother]
    · rw [if_neg h, numberOf_cons, numberOf_cons, ih]
      by_cases hother : name = other
      · subst hother
        simp [h]
      · simp [hother]

theorem assign_subset : ∀ n ∈ (assignNamed name dbi named).map Prod.fst,
    n = name ∨ n ∈ named.map Prod.fst := by
  intro n hn
  by_contra hno
  obtain ⟨hne, hnot⟩ := not_or.mp hno
  have hnone : numberOf n (assignNamed name dbi named) = none := by
    rw [numberOf_assign, if_neg (Ne.symm hne)]
    exact numberOf_eq_none.mpr hnot
  exact numberOf_eq_none.mp hnone hn

theorem assign_nodup (h : (named.map Prod.fst).Nodup) :
    ((assignNamed name dbi named).map Prod.fst).Nodup := by
  induction named with
  | nil => simp [assignNamed]
  | cons entry rest ih =>
    obtain ⟨hnot, hrest⟩ := List.nodup_cons.mp h
    rw [assignNamed]
    by_cases heq : entry.1 = name
    · rw [if_pos heq]
      exact List.nodup_cons.mpr ⟨heq ▸ hnot, hrest⟩
    · rw [if_neg heq]
      refine List.nodup_cons.mpr ⟨fun hmem => ?_, ih hrest⟩
      exact (assign_subset _ hmem).elim heq hnot

theorem numberOf_erase (h : (named.map Prod.fst).Nodup) :
    numberOf other (named.eraseP (·.1 == name)) =
      if name = other then none else numberOf other named := by
  induction named with
  | nil => simp [numberOf]
  | cons entry rest ih =>
    obtain ⟨hnot, hrest⟩ := List.nodup_cons.mp h
    by_cases heq : entry.1 = name
    · rw [List.eraseP_cons_of_pos (by simpa using heq), numberOf_cons]
      by_cases hother : name = other
      · rw [if_pos hother]
        exact numberOf_eq_none.mpr (hother ▸ heq ▸ hnot)
      · rw [if_neg hother, if_neg (heq ▸ hother)]
    · rw [List.eraseP_cons_of_neg (by simpa using heq), numberOf_cons, numberOf_cons, ih hrest]
      by_cases hother : name = other
      · subst hother
        simp [heq]
      · simp [hother]

theorem erase_nodup (h : (named.map Prod.fst).Nodup) :
    ((named.eraseP (·.1 == name)).map Prod.fst).Nodup :=
  h.sublist ((List.eraseP_sublist ..).map _)

end Lists

/-! ### The databases that a transaction has open -/

/-- How the states of libmdbx read as the databases that each transaction has open. -/
structure Names (σ : Type) where
  slot : σ → TxnPtr → Option Bytes → Option Dbi

/-- How the library ends a call. -/
def Platform.outcome (L : Platform σ) (c : NativeCall) (s : σ) : Outcome :=
  match (L.call c s).1 with
  | .ok r => .returned r.rc
  | .error _ => .panicked

/-- A call that opens or deletes a database in the transaction `p`. -/
def NativeCall.Renames (c : NativeCall) (p : TxnPtr) : Prop :=
  (∃ name flags, c = dbiOpen p name flags) ∨ ∃ dbi, c = drop p dbi true

/-- After the call the package is done with the transaction `p`. -/
def Call.Dismisses (c : Call) (p : TxnPtr) : Prop := (c.Ends p ∨ c.TearsDown p) ∨ c.Closes p.env

/-- The promises of libmdbx about open databases: no two have one number, each stays open until it
is deleted, and a call that fails opens and deletes none. -/
structure Platform.OpensNames (L : Platform σ) (N : Names σ) : Prop where
  injective : ∀ {s p name name' dbi}, N.slot s p name = some dbi → N.slot s p name' = some dbi →
    name = name'
  opens : ∀ {s p name flags r}, (L.call (.dbiOpen p name flags) s).1 = .ok r →
    r.rc = Status.success → N.slot (L.call (.dbiOpen p name flags) s).2 p =
      Function.update (N.slot s p) name (some r.out)
  deletes : ∀ {s p dbi r}, (L.call (.drop p dbi true) s).1 = .ok r → r.rc = Status.success →
    ∀ name, N.slot (L.call (.drop p dbi true) s).2 p name =
      if N.slot s p name = some dbi then none else N.slot s p name
  fails : ∀ {c s p}, c.Renames p → L.outcome c s ≠ .returned Status.success →
    N.slot (L.call c s).2 p = N.slot s p
  others : ∀ {c s p} pid, ¬ c.Renames p → ¬ Call.Dismisses ⟨pid, c, L.outcome c s⟩ p →
    N.slot (L.call c s).2 p = N.slot s p
  grows : ∀ s, N.slot (L.badAlloc s).2 = N.slot s
  collects : ∀ s, N.slot (L.allocate s).2 = N.slot s

/-- Main is open in every transaction, and nothing else is. -/
def mainOnly : Names σ where
  slot _ _
    | none => some 0
    | some _ => none

/-- A library that opens main under the number 0 and opens or deletes nothing else. -/
theorem mainOnly_opensNames {L : Platform σ}
    (hmain : ∀ {s p flags r}, (L.call (.dbiOpen p none flags) s).1 = .ok r →
      r.rc = Status.success → r.out = (0 : ℕ))
    (hopen : ∀ {s p name flags r}, (L.call (.dbiOpen p (some name) flags) s).1 = .ok r →
      r.rc ≠ Status.success)
    (hdrop : ∀ {s p dbi r}, (L.call (.drop p dbi true) s).1 = .ok r → r.rc ≠ Status.success) :
    L.OpensNames mainOnly where
  injective := by
    rintro s p (_ | name) (_ | name') dbi h h'
    · rfl
    · cases h'
    · cases h
    · cases h
  opens := by
    rintro s p (_ | name) flags r hcall hrc
    · funext other
      cases other with
      | none => exact congrArg some (hmain hcall hrc).symm
      | some _ => rfl
    · exact absurd hrc (hopen hcall)
  deletes := fun hcall hrc => absurd hrc (hdrop hcall)
  fails := fun _ _ => rfl
  others := fun _ _ _ => rfl
  grows _ := rfl
  collects _ := rfl

/-- What the name cache of `k` says of the transaction `p` is what a fresh open would answer. -/
structure Cached (N : Names σ) (s : σ) (p : TxnPtr) (k : TxnHandle) : Prop where
  slot : ∀ {name dbi}, k.cached name = some dbi → N.slot s p name = some dbi
  nodup : (k.named.map Prod.fst).Nodup

/-- After the trace the package still works in the transaction `p`. -/
def Working (log : List Call) (p : TxnPtr) : Prop := ¬ Released log p ∧ ¬ Closed log p.env

/-- The name cache of each handle is right. -/
structure World.Cached (N : Names σ) (w : World σ) : Prop where
  id : ∀ {t k p}, w.txns t = some k → k.txn = some p → p.id = t
  sound : ∀ {t k p}, w.txns t = some k → k.txn = some p → Working w.log p →
    Mdbx.Cached N w.lib p k

section Handle

variable {N : Names σ} {s s' : σ} {p : TxnPtr} {k j : TxnHandle} {name other : Option Bytes}
  {dbi : Dbi}

theorem SameCache.cached (h : SameCache k j) (name : Option Bytes) :
    j.cached name = k.cached name := by
  cases name with
  | none => simp [TxnHandle.cached, h.mainReady, h.mainDbi]
  | some name => simp [TxnHandle.cached, h.named]

theorem Cached.congr (C : Cached N s p k) (h : SameCache k j) (hs : N.slot s' p = N.slot s p) :
    Cached N s' p j where
  slot hj := by
    rw [hs]
    exact C.slot (h.cached _ ▸ hj)
  nodup := h.named ▸ C.nodup

theorem Cached.empty (hready : k.mainReady = false) (hnamed : k.named = []) :
    Cached N s p k where
  slot {name dbi} h := by
    cases name with
    | none => simp [TxnHandle.cached, hready] at h
    | some name => simp [TxnHandle.cached, hnamed] at h
  nodup := by simp [hnamed]

/-- A name that was not cached is remembered, and every other one stays as it was. -/
theorem TxnHandle.remember_cached (hnew : k.cached name = none) :
    (k.remember name dbi).cached other = if name = other then some dbi else k.cached other := by
  cases name with
  | none =>
    cases other with
    | none => rfl
    | some other => rfl
  | some name =>
    cases other with
    | none => rfl
    | some other =>
      have hfind : numberOf name k.named = none := hnew
      show numberOf other (k.named ++ [(name, dbi)]) = _
      rw [numberOf_append]
      by_cases heq : name = other
      · subst heq
        simp [hfind]
      · simp [heq, TxnHandle.cached, numberOf]

theorem TxnHandle.remember_nodup (hnew : k.cached name = none) (h : (k.named.map Prod.fst).Nodup) :
    ((k.remember name dbi).named.map Prod.fst).Nodup := by
  cases name with
  | none => exact h
  | some name =>
    have hnot : name ∉ k.named.map Prod.fst := numberOf_eq_none.mp hnew
    show ((k.named ++ [(name, dbi)]).map Prod.fst).Nodup
    simp only [List.map_append, List.map_cons, List.map_nil]
    refine List.nodup_append.mpr ⟨h, List.nodup_singleton _, fun a ha b hb heq => ?_⟩
    rw [List.mem_singleton] at hb
    exact hnot (hb ▸ heq ▸ ha)

end Handle

theorem NativeCall.not_renames {c : NativeCall} (hc : c.keepsNames = true) (p : TxnPtr) :
    ¬ c.Renames p := by
  rintro (⟨name, flags, rfl⟩ | ⟨dbi, rfl⟩) <;> cases hc

theorem working_cons {c : Call} {log : List Call} {p : TxnPtr} (h : Working (c :: log) p) :
    Working log p ∧ ¬ c.Dismisses p := by
  obtain ⟨hreleased, hclosed⟩ := h
  rw [released_cons, not_or] at hreleased
  rw [closed_cons, not_or] at hclosed
  exact ⟨⟨hreleased.2, hclosed.2⟩, not_or.mpr ⟨hreleased.1, hclosed.1⟩⟩

/-! ### One step -/

section Frame

variable {L : Platform σ} {N : Names σ} (hN : L.OpensNames N) {w w' : World σ} {t : TxnRef}
  {k j : TxnHandle} {p : TxnPtr}

theorem native_final (c : NativeCall) (w : World σ) :
    ((native L c).run w).2 = w.answered L c (L.outcome c w.lib) := by
  rw [Platform.outcome]
  rcases native_answered L c w with ⟨r, lib, -, hcall⟩ | ⟨info, lib, -, hcall⟩
  · rw [native_ok L hcall, hcall]
    rfl
  · rw [native_panicked hcall, hcall]

namespace World.Cached

variable (C : w.Cached N)
include C

theorem congr (hlib : ∀ p, N.slot w'.lib p = N.slot w.lib p) (hlog : w'.log = w.log)
    (htxns : w'.txns = w.txns) : w'.Cached N where
  id ht hp := C.id (htxns ▸ ht) hp
  sound ht hp hworking :=
    (C.sound (htxns ▸ ht) hp (hlog ▸ hworking)).congr ⟨rfl, rfl, rfl⟩ (hlib _)

/-- The handle `t` gets another value. -/
theorem setTxn (hid : ∀ p, j.txn = some p → p.id = t)
    (hsound : ∀ p, j.txn = some p → Working w.log p → Mdbx.Cached N w.lib p j) :
    (w.setTxn t (some j)).Cached N where
  id {t' k' p} ht' hp := by
    rw [World.setTxn_txns, Function.update_apply] at ht'
    split at ht'
    · obtain rfl := ‹t' = t›
      cases ht'
      exact hid p hp
    · exact C.id ht' hp
  sound {t' k' p} ht' hp hworking := by
    rw [World.setTxn_txns, Function.update_apply] at ht'
    split at ht'
    · cases ht'
      exact hsound p hp hworking
    · exact C.sound ht' hp hworking

/-- The handle `t` keeps its cache and its transaction, or ends. -/
theorem assign (ht : w.txns t = some k) (hsame : SameCache k j)
    (htxn : j.txn = k.txn ∨ j.txn = none) : (w.setTxn t (some j)).Cached N := by
  have hk : ∀ p, j.txn = some p → k.txn = some p := by
    intro p hp
    rcases htxn with h | h
    · exact h ▸ hp
    · simp [h] at hp
  refine C.setTxn (fun p hp => C.id ht (hk p hp)) fun p hp hworking => ?_
  exact (C.sound ht (hk p hp) hworking).congr hsame rfl

theorem deleteTxn (t : TxnRef) : (w.setTxn t none).Cached N where
  id {t' k' p} ht' hp := by
    rw [World.setTxn_txns, Function.update_apply] at ht'
    split at ht'
    · cases ht'
    · exact C.id ht' hp
  sound {t' k' p} ht' hp hworking := by
    rw [World.setTxn_txns, Function.update_apply] at ht'
    split at ht'
    · cases ht'
    · exact C.sound ht' hp hworking

include hN in
/-- A call that opens and deletes no database. -/
theorem answered {c : NativeCall} (hc : c.keepsNames = true) :
    (w.answered L c (L.outcome c w.lib)).Cached N where
  id ht hp := C.id ht hp
  sound ht hp hworking := by
    obtain ⟨hworking, hkept⟩ := working_cons hworking
    exact (C.sound ht hp hworking).congr ⟨rfl, rfl, rfl⟩
      (hN.others w.pid (NativeCall.not_renames hc _) hkept)

end World.Cached

/-- What each step does to the name caches leaves them right. -/
def KeepsCached (N : Names σ) (w w' : World σ) : Prop := w.Cached N → w'.Cached N

include hN in
theorem keepsCached_parts : L.Parts (KeepsCached N) where
  refl _ := id
  trans _ _ _ h h' C := h' (h C)
  native hc w C := by
    rw [native_final]
    exact C.answered hN hc
  grow w C := C.congr (fun p => congrFun (hN.grows w.lib) p) rfl rfl
  collect w C := C.congr (fun p => congrFun (hN.collects w.lib) p) rfl rfl
  aside hlib hlog htxns C := C.congr (fun _ => by rw [hlib]) hlog htxns
  txn ht hsame htxn C := C.assign ht hsame htxn
  newTxn w t hready hnamed hid C := C.setTxn hid fun p _ _ => .empty hready hnamed
  deleteTxn w t C := C.deleteTxn t

/-! ### The functions that use the cache -/

/-- A guarded body that makes one call replies, or panics and leaves what the callback leaves. -/
theorem guard_call {body : Pkg σ α} (poison : Pkg σ Unit) {c : NativeCall} (f : Reply c → α)
    (hbody : body.run w = (native L c >>= fun r => pure (f r)).run w) :
    (∃ r, (L.call c w.lib).1 = .ok r ∧
      (guard body poison).run w = (.ok (f r), w.answered L c (.returned r.rc))) ∨
    ∃ info x, (L.call c w.lib).1 = .error info ∧
      (guard body poison).run w = (.error x, (poison.run (w.answered L c .panicked)).2) := by
  cases hcall : (L.call c w.lib).1 with
  | ok r =>
    refine .inl ⟨r, rfl, guard_ok ?_⟩
    rw [hbody, Prog.bind_ok (native_ok L hcall)]
    rfl
  | error info =>
    have hpanic : body.run w = (.error (.panic info), w.answered L c .panicked) := by
      rw [hbody, Prog.bind_error (native_panicked hcall)]
    rcases hpoison : poison.run (w.answered L c .panicked) with ⟨x | _, w'⟩
    · refine .inr ⟨info, x, rfl, ?_⟩
      rw [guard, Prog.bind_error]
      rw [runGuarded, Prog.bind_ok (Prog.run_attempt _ _), hpanic]
      exact Prog.bind_error hpoison
    · exact .inr ⟨info, _, rfl, guard_panic hpanic hpoison⟩

theorem outcome_ok {c : NativeCall} {s : σ} {r : Reply c} (h : (L.call c s).1 = .ok r) :
    L.outcome c s = .returned r.rc := by
  rw [Platform.outcome, h]

theorem outcome_error {c : NativeCall} {s : σ} {info : PanicInfo}
    (h : (L.call c s).1 = .error info) : L.outcome c s = .panicked := by
  rw [Platform.outcome, h]

theorem outcome_returned {c : NativeCall} {s : σ} {rc : Status}
    (h : L.outcome c s = .returned rc) : ∃ r, (L.call c s).1 = .ok r ∧ r.rc = rc := by
  rcases hcall : (L.call c s).1 with info | r
  · rw [outcome_error hcall] at h
    cases h
  · rw [outcome_ok hcall] at h
    exact ⟨r, rfl, Outcome.returned.inj h⟩

theorem derefTxn_none (ht : w.txns t = none) :
    (derefTxn t : Pkg σ TxnHandle).run w = (.error (.undefined .danglingPointer), w) := by
  simp [derefTxn, ht]

section Calls

variable (C : w.Cached N)
include hN C

omit hN C in
theorem NativeCall.Renames.not_dismisses {c : NativeCall} (hc : c.Renames p) (pid : Pid)
    (o : Outcome) (q : TxnPtr) : ¬ Call.Dismisses ⟨pid, c, o⟩ q := by
  rintro ((⟨hends, -⟩ | ⟨htears, -⟩) | ⟨hcloses, -⟩) <;>
    rcases hc with ⟨name, flags, rfl⟩ | ⟨dbi, rfl⟩ <;> simp_all [NativeCall.finishes]

omit hN C in
theorem NativeCall.Renames.unique {c : NativeCall} {q : TxnPtr} (hc : c.Renames p)
    (hq : c.Renames q) : q = p := by
  rcases hc with ⟨name, flags, rfl⟩ | ⟨dbi, rfl⟩ <;>
    rcases hq with ⟨name', flags', heq⟩ | ⟨dbi', heq⟩ <;> cases heq <;> rfl

/-- The cache is right after a failed call. -/
theorem World.Cached.failed {c : NativeCall} (hc : c.Renames p)
    (ho : L.outcome c w.lib ≠ .returned Status.success) :
    (w.answered L c (L.outcome c w.lib)).Cached N where
  id ht hq := C.id ht hq
  sound {t' k' q} ht hq hworking := by
    refine (C.sound ht hq (working_cons hworking).1).congr ⟨rfl, rfl, rfl⟩ ?_
    by_cases hqp : q = p
    · subst hqp
      exact hN.fails hc ho
    · refine hN.others w.pid (fun hq => hqp (hc.unique hq)) (hc.not_dismisses _ _ _)

/-- A call that opens or deletes a database, and the assignment to its handle that follows. -/
theorem World.Cached.renamed {c : NativeCall} {o : Outcome} (hc : c.Renames p)
    (ht : w.txns t = some k) (hp : k.txn = some p)
    (hjp : j.txn = k.txn)
    (hj : Mdbx.Cached N w.lib p k → Mdbx.Cached N (L.call c w.lib).2 p j) :
    ((w.answered L c o).setTxn t (some j)).Cached N := by
  have hid := C.id ht hp
  constructor
  · intro t' k' q ht' hq
    rw [World.setTxn_txns, Function.update_apply] at ht'
    split at ht'
    · obtain rfl := ‹t' = t›
      cases ht'
      rw [hjp, hp] at hq
      exact Option.some.inj hq ▸ hid
    · exact C.id ht' hq
  · intro t' k' q ht' hq hworking
    obtain ⟨hworking, -⟩ := working_cons hworking
    rw [World.setTxn_txns, Function.update_apply] at ht'
    split at ht'
    · cases ht'
      rw [hjp, hp] at hq
      obtain rfl := Option.some.inj hq
      exact hj (C.sound ht hp hworking)
    · have hne : q ≠ p := by
        rintro rfl
        exact ‹¬ t' = t› ((C.id ht' hq).symm.trans hid)
      refine (C.sound ht' hq hworking).congr ⟨rfl, rfl, rfl⟩ (hN.others w.pid ?_ ?_)
      · exact fun hq => hne (hc.unique hq)
      · exact hc.not_dismisses _ _ _

/-- A successful open gives the name a number, whatever it had before. -/
theorem World.Cached.opened {name : Option Bytes} {flags : ℕ} {r : Reply (.dbiOpen p name flags)}
    (hcall : (L.call (.dbiOpen p name flags) w.lib).1 = .ok r) (hrc : r.rc = Status.success)
    (ht : w.txns t = some k) (hp : k.txn = some p) (hjp : j.txn = k.txn)
    (hj : ∀ other, j.cached other = if name = other then some r.out else k.cached other)
    (hnodup : (k.named.map Prod.fst).Nodup → (j.named.map Prod.fst).Nodup) :
    ((w.answered L (.dbiOpen p name flags) (.returned r.rc)).setTxn t (some j)).Cached N := by
  refine C.renamed hN (.inl ⟨name, flags, rfl⟩) ht hp hjp fun hk => ?_
  refine ⟨fun {other dbi} h => ?_, hnodup hk.nodup⟩
  rw [hj] at h
  rw [hN.opens hcall hrc, Function.update_apply]
  by_cases hother : name = other
  · rw [if_pos hother] at h
    rw [if_pos hother.symm, h]
  · rw [if_neg hother] at h
    rw [if_neg (Ne.symm hother), hk.slot h]

omit hN in
theorem World.Cached.within {m : Pkg σ α} (hm : Within (KeepsCached N) m) :
    Triple m w (fun _ w' => w'.Cached N) (fun _ w' => w'.Cached N) := Triple.of_final (hm w C)

theorem ensureDbiNamed_names (t : TxnRef) (name : Option Bytes) :
    Triple (ensureDbiNamed L t name) w
      (fun dbi w' => w'.Cached N ∧ ∃ k, w'.txns t = some k ∧ k.dbi = dbi ∧ k.cached name = some dbi)
      (fun _ w' => w'.Cached N) := by
  have F := keepsCached_parts hN
  have := F.toIsPreorder
  cases ht : w.txns t with
  | none => exact Triple.stopped (derefTxn_none ht) C
  | some k =>
    refine Triple.step (derefTxn_run ht) ?_
    cases hcached : k.cached name with
    | some dbi =>
      refine Triple.step (updateTxn_run ht _) ?_
      have hsame : SameCache k { k with dbi := dbi } := ⟨rfl, rfl, rfl⟩
      exact ⟨C.assign ht hsame (.inl rfl), _, by simp, rfl, (hsame.cached name).trans hcached⟩
    | none =>
      cases hp : k.txn with
      | none =>
        have hnull : (guard (dbiCall L k name 0) (poisonTxn t)).run w =
            (.error (.undefined .danglingPointer), w) := by
          rw [dbiCall, hp]
          rfl
        exact Triple.stopped hnull C
      | some p =>
        have hbody : (dbiCall L k name 0).run w =
            (native L (.dbiOpen p name 0) >>= fun r => pure (r.rc, r.out)).run w := by
          rw [dbiCall, hp, nonNull_some, pure_bind]
        rcases guard_call (poisonTxn t)
          (fun r : Reply (.dbiOpen p name 0) => ((r.rc, r.out) : Status × Dbi)) hbody with
          ⟨r, hcall, hrun⟩ | ⟨info, x, hcall, hrun⟩
        swap
        · have C₁ := C.failed hN (.inl ⟨name, 0, rfl⟩) (by rw [outcome_error hcall]; simp)
          rw [outcome_error hcall] at C₁
          exact Triple.stopped hrun (F.poisonTxn t _ C₁)
        refine Triple.step hrun ?_
        by_cases hrc : r.rc = Status.success
        · have hpass : (ifSome name fun name => whenever (r.rc = Status.notFound)
              (stopMissingDbi k name) : Pkg σ Unit) = pure () := by
            cases name with
            | none => rfl
            | some name => rw [ifSome_some, whenever_neg (by rw [hrc]; decide)]
          dsimp only
          rw [hpass, pure_bind, hrc]
          refine Triple.step check_success (Triple.step (updateTxn_run (by exact ht) _) ?_)
          have hremember : ∀ other, ({ k.remember name r.out with dbi := r.out } :
              TxnHandle).cached other = if name = other then some r.out else k.cached other := by
            intro other
            rw [← TxnHandle.remember_cached hcached]
            exact SameCache.cached ⟨rfl, rfl, rfl⟩ other
          refine ⟨?_, { k.remember name r.out with dbi := r.out }, by simp, rfl, by
            rw [hremember, if_pos rfl]⟩
          have htxn : (k.remember name r.out).txn = k.txn := by cases name <;> rfl
          have C₁ := C.opened hN (j := { k.remember name r.out with dbi := r.out }) hcall hrc ht hp
            htxn hremember (TxnHandle.remember_nodup hcached)
          rwa [hrc] at C₁
        · have C₁ := C.failed hN (.inl ⟨name, 0, rfl⟩) (by rw [outcome_ok hcall]; simpa using hrc)
          rw [outcome_ok hcall] at C₁
          refine Triple.bind (C₁.within (.ifSome name fun name =>
            .whenever (.stopMissingDbi k name))) fun _ w' C' => ?_
          exact Triple.stopped (check_failure hrc) C'

theorem mdbxDbiOpen_names (x : Sexp) (name : Bytes) (create : Bool) :
    Triple (mdbxDbiOpen_ L x name create) w (fun _ w' => w'.Cached N) fun _ w' => w'.Cached N := by
  have F := keepsCached_parts hN
  have := F.toIsPreorder
  refine Triple.bind (C.within (.txnFromSexp x)) fun t w C => ?_
  cases ht : w.txns t with
  | none => exact Triple.stopped (derefTxn_none ht) C
  | some k =>
    refine Triple.step (derefTxn_run ht) ?_
    by_cases hrefused : create = true ∧ k.write = false
    · exact Triple.stopped (refuse_run hrefused) C
    refine Triple.step (refuse_pass hrefused) ?_
    generalize (if create = true then flagCreate else 0) = flags
    cases hp : k.txn with
    | none =>
      have hnull : (guard (dbiCall L k (some name) flags) (poisonTxn t)).run w =
          (.error (.undefined .danglingPointer), w) := by
        rw [dbiCall, hp]
        rfl
      exact Triple.stopped hnull C
    | some p =>
      have hbody : (dbiCall L k (some name) flags).run w =
          (native L (.dbiOpen p (some name) flags) >>= fun r => pure (r.rc, r.out)).run w := by
        rw [dbiCall, hp, nonNull_some, pure_bind]
      rcases guard_call (poisonTxn t)
        (fun r : Reply (.dbiOpen p (some name) flags) => ((r.rc, r.out) : Status × Dbi)) hbody with
        ⟨r, hcall, hrun⟩ | ⟨info, x, hcall, hrun⟩
      swap
      · have C₁ := C.failed hN (.inl ⟨some name, flags, rfl⟩) (by rw [outcome_error hcall]; simp)
        rw [outcome_error hcall] at C₁
        exact Triple.stopped hrun (F.poisonTxn t _ C₁)
      refine Triple.step hrun ?_
      by_cases hrc : r.rc = Status.success
      · have hpass : ¬ r.rc = Status.notFound := by rw [hrc]; decide
        dsimp only
        rw [whenever_neg hpass, pure_bind, hrc]
        refine Triple.step check_success (Triple.ok (updateTxn_run (by exact ht) _) ?_)
        have hassign : ∀ other, ({ k with named := assignNamed name r.out k.named } :
            TxnHandle).cached other = if some name = other then some r.out else k.cached other := by
          intro other
          cases other with
          | none => rfl
          | some other =>
            show numberOf other (assignNamed name r.out k.named) = _
            rw [numberOf_assign]
            simp only [Option.some.injEq]
            rfl
        have C₁ := C.opened hN (j := { k with named := assignNamed name r.out k.named }) hcall hrc
          ht
          hp rfl hassign assign_nodup
        rwa [hrc] at C₁
      · have C₁ := C.failed hN (.inl ⟨some name, flags, rfl⟩)
          (by rw [outcome_ok hcall]; simpa using hrc)
        rw [outcome_ok hcall] at C₁
        refine Triple.bind (C₁.within (.whenever (.stopMissingDbi k name))) fun _ w' C' => ?_
        exact Triple.stopped (check_failure hrc) C'

/-- A deleted database is forgotten. -/
theorem World.Cached.deleted {name : Bytes} {dbi : Dbi} {r : Reply (.drop p dbi true)}
    (hcall : (L.call (.drop p dbi true) w.lib).1 = .ok r) (hrc : r.rc = Status.success)
    (ht : w.txns t = some k) (hp : k.txn = some p) (hname : k.cached (some name) = some dbi) :
    ((w.answered L (.drop p dbi true) (.returned r.rc)).setTxn t
      (some { k with named := k.named.eraseP (·.1 == name) })).Cached N := by
  refine C.renamed hN (.inr ⟨dbi, rfl⟩) ht hp rfl fun hk => ?_
  refine ⟨fun {other d} h => ?_, erase_nodup hk.nodup⟩
  have hother : k.cached other = some d ∧ other ≠ some name := by
    cases other with
    | none => exact ⟨h, by simp⟩
    | some other =>
      have hfound : numberOf other (k.named.eraseP (·.1 == name)) = some d := h
      rw [numberOf_erase hk.nodup] at hfound
      split at hfound
      · cases hfound
      · exact ⟨hfound, fun heq => ‹¬ name = other› (Option.some.inj heq).symm⟩
  have hne : N.slot w.lib p other ≠ some dbi := fun heq =>
    hother.2 (hN.injective heq (hk.slot hname))
  rw [hN.deletes hcall hrc, if_neg hne, hk.slot hother.1]

theorem mdbxDbiDrop_names (x : Sexp) (db : List Bytes) (del : Bool) :
    Triple (mdbxDbiDrop_ L x db del) w (fun _ w' => w'.Cached N) (fun _ w' => w'.Cached N) := by
  have F := keepsCached_parts hN
  have := F.toIsPreorder
  have hcount : ∀ t, Within (KeepsCached N) (refuseMainWithNamed L t db del) := by
    intro t
    refine .whenever (Within.bind ?_ fun count => .refuse _ _)
    refine Within.bind (.guard ?_ (F.poisonTxn t)) fun _ => (Within.check _).bind fun _ => .pure _
    exact (Within.current t).bind fun _ => (F.native rfl).bind fun _ => .pure _
  refine Triple.bind (C.within (.writableTxn x)) fun t w C => ?_
  refine Triple.bind (C.within (hcount t)) fun _ w C => ?_
  by_cases hmain : del = true ∧ db = []
  · exact Triple.stopped (refuse_run hmain) C
  refine Triple.step (refuse_pass hmain) ?_
  refine Triple.bind (ensureDbiNamed_names hN C t db.head?) ?_
  rintro dbi w ⟨C, k, ht, rfl, hcached⟩
  cases hdel : del with
  | false =>
    refine C.within ?_
    refine Within.bind (.guard ?_ (F.poisonTxn t)) fun _ => (Within.check _).bind fun _ => ?_
    · exact (Within.current t).bind fun _ => (F.native rfl).bind fun _ => .pure _
    · rw [whenever_neg (by simp)]
      exact .pure _
  | true =>
    cases db with
    | nil => exact absurd ⟨hdel, rfl⟩ hmain
    | cons name rest =>
      cases hp : k.txn with
      | none =>
        have hnull : (guard (dropCall L t true) (poisonTxn t)).run w =
            (.error (.undefined .danglingPointer), w) := by
          have hbody : (dropCall L t true).run w = (.error (.undefined .danglingPointer), w) := by
            rw [dropCall, current]
            simp only [bind_assoc]
            rw [Prog.bind_ok (derefTxn_run ht), hp]
            rfl
          rw [guard, runGuarded, bind_assoc, Prog.bind_ok (Prog.run_attempt _ _), hbody]
          rfl
        exact Triple.stopped hnull C
      | some p =>
        have hbody : (dropCall L t true).run w =
            (native L (.drop p k.dbi true) >>= fun r => pure r.rc).run w := by
          rw [dropCall, current]
          simp only [bind_assoc]
          rw [Prog.bind_ok (derefTxn_run ht), hp]
          rfl
        rcases guard_call (poisonTxn t) (fun r : Reply (.drop p k.dbi true) => r.rc) hbody with
          ⟨r, hcall, hrun⟩ | ⟨info, x, hcall, hrun⟩
        swap
        · have C₁ := C.failed hN (.inr ⟨k.dbi, rfl⟩) (by rw [outcome_error hcall]; simp)
          rw [outcome_error hcall] at C₁
          exact Triple.stopped hrun (F.poisonTxn t _ C₁)
        refine Triple.step hrun ?_
        by_cases hrc : r.rc = Status.success
        · have C₁ := C.deleted hN hcall hrc ht hp hcached
          rw [hrc] at C₁ ⊢
          refine Triple.step check_success ?_
          rw [whenever_pos rfl]
          exact Triple.ok (updateTxn_run (by exact ht) _) C₁
        · have C₁ := C.failed hN (.inr ⟨k.dbi, rfl⟩) (by rw [outcome_ok hcall]; simpa using hrc)
          rw [outcome_ok hcall] at C₁
          exact Triple.stopped (check_failure hrc) C₁

end Calls

include hN in
theorem keepsCached_frame : L.Frame (KeepsCached N) where
  toParts := keepsCached_parts hN
  ensureDbi t name _ C :=
    ((ensureDbiNamed_names hN C t name).mono (fun _ _ h => h.1) fun _ _ h => h).final
  dbiOpen x name create _ C := (mdbxDbiOpen_names hN C x name create).final
  dbiDrop x db del _ C := (mdbxDbiDrop_names hN C x db del).final

end Frame

/-! ### Every run -/

section Runs

variable {L : Platform σ} {N : Names σ} {w : World σ} {e : EnvRef} {t : TxnRef} {k : TxnHandle}
  {p : TxnPtr}

theorem World.Cached.start (lib : σ) (pid : Pid) : (World.start lib pid).Cached N where
  id ht := by cases ht
  sound ht := by cases ht

theorem Reachable.caches (hN : L.OpensNames N) (h : Reachable L w) : w.Cached N := by
  obtain ⟨lib, pid, hsteps⟩ := h
  exact (keepsCached_frame hN).steps hsteps (.start lib pid)

/-- A live transaction that no guard has seen panic is one that the package works in. -/
theorem Inv.working {lossy : Bool} (I : Inv { lossy } w) (ht : LiveTxn w e t k) :
    Working w.log ⟨e, t⟩ := by
  obtain ⟨h, he, henv, -⟩ := I.graph.owner ht.at_ ht.owner
  refine ⟨?_, I.traced.notClosed he henv⟩
  rintro (hended | htorn)
  · exact I.traced.notEnded ht.at_ ht.owner (by simp) hended
  · exact I.traced.notTornDown ht.at_ ht.owner (by simp) htorn

/-- In every reachable state, what a live transaction's cache says is what a fresh open would
answer, and no name is in it twice. -/
theorem Reachable.cached (hN : L.OpensNames N) (h : Reachable L w) (ht : LiveTxn w e t k) :
    Cached N w.lib ⟨e, t⟩ k := by
  have I : Inv { lossy := true } w := h.invariant (by simp)
  refine (h.caches hN).sound ht.at_ ?_ (I.working ht)
  rw [I.graph.txn ht.at_, ht.owner]
  rfl

end Runs

end Mdbx
