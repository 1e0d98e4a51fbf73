import Mdbx.Addressing

/-! Named databases are records of the main database.  What the operations on main do to them, and
what emptying main takes away. -/

namespace Mdbx

open ProofKit

variable {σ D : Type}

/-! ### What a transaction sees of main -/

/-- A record of main: a value, or the root of a named database with all that the database holds. -/
inductive MainRecord (D : Type) where
  | plain (value : Bytes)
  | table (contents : D)

/-- Main as one transaction sees it. -/
structure MainView (D : Type) where
  records : Bytes → Option (MainRecord D)
  sequence : ℕ

namespace MainView

/-- The named database that main records under a name. -/
def tables (m : MainView D) (name : Bytes) : Option D :=
  match m.records name with
  | some (.table contents) => some contents
  | _ => none

/-- The named database `name` is visible. -/
def HasTable (m : MainView D) (name : Bytes) : Prop := m.tables name ≠ none

/-- Main with another record, or none, under `key`. -/
def set (m : MainView D) (key : Bytes) (value : Option Bytes) : MainView D :=
  { m with records := Function.update m.records key (value.map .plain) }

theorem set_records (m : MainView D) (key : Bytes) (value : Option Bytes) :
    (m.set key value).records = Function.update m.records key (value.map .plain) := rfl

/-- A single record changes no named database. -/
theorem set_tables {m : MainView D} {key : Bytes} (h : ¬ m.HasTable key) (value : Option Bytes) :
    (m.set key value).tables = m.tables := by
  funext name
  by_cases hname : name = key
  · subst hname
    have hnone : m.tables name = none := not_ne_iff.mp h
    rw [hnone, tables, set_records, Function.update_self]
    cases value <;> rfl
  · rw [tables, set_records, Function.update_of_ne hname]
    rfl

theorem tables_congr {m m' : MainView D} (h : m'.records = m.records) :
    m'.tables = m.tables := by
  funext name
  rw [tables, h]
  rfl

end MainView

/-- What libmdbx promises about main.  A record that holds a named database is not written or
deleted singly, a purge takes every record and a purge that fails takes none, opening main and
enumerating its tables change nothing, an enumeration visits only named databases, and all of them
if it succeeds, and it is the visitor alone that answers `MDBX_RESULT_TRUE`. -/
structure Platform.KeepsMain (L : Platform σ) (N : Names σ) (V : σ → TxnPtr → MainView D) :
    Prop where
  opens : ∀ s p, V (L.call (.dbiOpen p none 0) s).2 p = V s p
  puts : ∀ {s p dbi} key value flags, N.slot s p none = some dbi →
    V (L.call (.put p dbi key value flags) s).2 p = V s p ∨
      ¬ (V s p).HasTable key ∧
        V (L.call (.put p dbi key value flags) s).2 p = (V s p).set key (some value)
  dels : ∀ {s p dbi} key, N.slot s p none = some dbi →
    V (L.call (.del p dbi key) s).2 p = V s p ∨
      ¬ (V s p).HasTable key ∧ V (L.call (.del p dbi key) s).2 p = (V s p).set key none
  counts : ∀ {s p dbi} amount, N.slot s p none = some dbi →
    (V (L.call (.dbiSequence p dbi amount) s).2 p).records = (V s p).records
  purges : ∀ {s p dbi del}, N.slot s p none = some dbi →
    L.outcome (.drop p dbi del) s = .returned Status.success →
      (V (L.call (.drop p dbi del) s).2 p).records = fun _ => none
  fails : ∀ {s p dbi del}, N.slot s p none = some dbi →
    L.outcome (.drop p dbi del) s ≠ .returned Status.success →
      V (L.call (.drop p dbi del) s).2 p = V s p
  enumerates : ∀ s p, V (L.call (.enumerateTables p .count) s).2 p = V s p
  visits : ∀ {s p r}, (L.call (.enumerateTables p .count) s).1 = .ok r →
    ∀ name ∈ r.out, (V s p).HasTable name
  visitsAll : ∀ {s p r}, (L.call (.enumerateTables p .count) s).1 = .ok r →
    r.rc = Status.success → ∀ name, (V s p).HasTable name → name ∈ r.out
  stops : ∀ {s p r}, (L.call (.enumerateTables p .count) s).1 = .ok r → r.rc ≠ Status.resultTrue

section Main

variable {L : Platform σ} {N : Names σ} {V : σ → TxnPtr → MainView D} {w w' u : World σ}
  {e : EnvRef} {t : TxnRef} {k : TxnHandle}

/-! ### Records and the sequence -/

/-- The transaction sees the named databases that it saw in `w`. -/
def SameTables (V : σ → TxnPtr → MainView D) (p : TxnPtr) (w u : World σ) : Prop :=
  (V u.lib p).tables = (V w.lib p).tables

theorem SameTables.aside (p : TxnPtr) (w u u' : World σ) (h : Aside u u')
    (hu : SameTables V p w u) : SameTables V p w u' := by
  rw [SameTables, h.lib]
  exact hu

/-- A call that writes or deletes a single record at most, and none that holds a database. -/
theorem SameTables.edited {p : TxnPtr} {c : NativeCall} {key : Bytes} {value : Option Bytes}
    (hu : SameTables V p w u) (o : Outcome)
    (h : V (L.call c u.lib).2 p = V u.lib p ∨
      ¬ (V u.lib p).HasTable key ∧ V (L.call c u.lib).2 p = (V u.lib p).set key value) :
    SameTables V p w (u.answered L c o) := by
  rw [SameTables]
  show (V (L.call c u.lib).2 p).tables = _
  rcases h with h | ⟨hplain, h⟩
  · rw [h]
    exact hu
  · rw [h, MainView.set_tables hplain]
    exact hu

section Records

variable (hN : L.OpensNames N) (hV : L.KeepsMain N V) (hr : Reachable L w)
include hN hV hr

/-- An entry point that resolves main and then keeps the named databases as they were. -/
theorem ensureMain_tables (ht : LiveTxn w e t k) {α : Type} {acc : Pkg σ TxnRef}
    (hacc : Accesses acc t w) {f : TxnRef → Pkg σ α}
    (hf : ∀ dbi, Bears (SameTables V ⟨e, t⟩ w) N ⟨e, t⟩ t none dbi (f t)) :
    SameTables V ⟨e, t⟩ w
      ((acc >>= fun t => ensureDbi L t [] >>= fun _ => f t).run w).2 := by
  rcases hacc with ⟨c, hrun⟩ | ⟨_, _, hrun, -⟩
  · rw [Prog.bind_error hrun]
    rfl
  rw [Prog.bind_ok hrun]
  refine Triple.final ?_
  refine Triple.bind (ensureDbi_bears hN (SameTables.aside _ w) [] (fun u hu => ?_) rfl
    (hr.attached hN ht)) ?_
  · show (V (L.call (.dbiOpen ⟨e, t⟩ none 0) u.lib).2 ⟨e, t⟩).tables = _
    rw [hV.opens]
    exact hu
  · intro dbi u hu
    exact (hf dbi u hu.1 hu.2).mono (fun _ _ h => h.1) fun _ _ h => h.1

theorem mdbxPut_tables (ht : LiveTxn w e t k) (key value : Bytes) (overwrite : Bool) :
    SameTables V ⟨e, t⟩ w ((mdbxPut_ L (.txn t) key value overwrite []).run w).2 := by
  refine ensureMain_tables hN hV hr ht (writableTxn_accesses hr t) fun dbi => ?_
  refine (Bears.guard (SameTables.aside _ w) (poisonTxn_aside t) (.current ?_)).bind fun _ => ?_
  · refine Keeps.bind (Bears.answers (hN.stays (.inl (by simp [NativeCall.target])) rfl) ?_)
      fun _ => .pure _
    exact fun u hu hslot => hu.edited _ (hV.puts key value _ hslot)
  · exact .ite (fun _ => .pure _) fun _ => (Bears.check _).bind fun _ => .pure _

theorem mdbxDel_tables (ht : LiveTxn w e t k) (key : Bytes) :
    SameTables V ⟨e, t⟩ w ((mdbxDel_ L (.txn t) key []).run w).2 := by
  refine ensureMain_tables hN hV hr ht (writableTxn_accesses hr t) fun dbi => ?_
  refine (Bears.guard (SameTables.aside _ w) (poisonTxn_aside t) (.current ?_)).bind fun _ => ?_
  · refine Keeps.bind (Bears.answers (hN.stays (.inl (by simp [NativeCall.target])) rfl) ?_)
      fun _ => .pure _
    exact fun u hu hslot => hu.edited _ (hV.dels key hslot)
  · exact .ite (fun _ => .pure _) fun _ => (Bears.check _).bind fun _ => .pure _

theorem mdbxDbiSequence_tables (ht : LiveTxn w e t k) (increment : Double) :
    SameTables V ⟨e, t⟩ w ((mdbxDbiSequence_ L (.txn t) [] increment).run w).2 := by
  have hcall : ∀ dbi amount, Bears (SameTables V ⟨e, t⟩ w) N ⟨e, t⟩ t none dbi
      (guard (sequenceCall L t amount) (poisonTxn t)) := by
    intro dbi amount
    refine Bears.guard (SameTables.aside _ w) (poisonTxn_aside t) (.current ?_)
    refine Keeps.bind (Bears.answers (hN.stays (.inl (by simp [NativeCall.target])) rfl) ?_)
      fun _ => .pure _
    intro u hu hslot
    exact (MainView.tables_congr (hV.counts amount hslot)).trans hu
  refine ensureMain_tables hN hV hr ht (sequenceTxn_accesses hr t increment) fun dbi => ?_
  refine (hcall dbi 0).bind fun _ => (Bears.check _).bind fun _ => ?_
  refine .ite (fun _ => .pure _) fun _ => (Bears.refuse _ _).bind fun _ => ?_
  refine (Bears.narrow _ _).bind fun amount => (hcall dbi amount).bind fun _ => ?_
  exact (Bears.refuse _ _).bind fun _ => (Bears.check _).bind fun _ => .pure _

end Records

/-! ### Emptying main -/

/-- The transaction sees main as it was in `w`, named databases and all. -/
def SameMain (V : σ → TxnPtr → MainView D) (p : TxnPtr) (w u : World σ) : Prop :=
  V u.lib p = V w.lib p

theorem SameMain.aside (p : TxnPtr) (w u u' : World σ) (h : Aside u u') (hu : SameMain V p w u) :
    SameMain V p w u' := by
  rw [SameMain, h.lib]
  exact hu

theorem SameMain.tables {p : TxnPtr} (h : SameMain V p w u) : SameTables V p w u :=
  congrArg MainView.tables h

/-- The enumeration that stops at the first named database has seen one just when there is one. -/
theorem countVisit_pos (hV : L.KeepsMain N V) {s : σ} {p : TxnPtr}
    {r : Reply (.enumerateTables p .count)}
    (hcall : (L.call (.enumerateTables p .count) s).1 = .ok r)
    (hrc : (countVisit r.rc r.out).1 = Status.resultTrue ∨
      (countVisit r.rc r.out).1 = Status.success) :
    0 < (countVisit r.rc r.out).2 ↔ ∃ name, (V s p).HasTable name := by
  cases hout : r.out with
  | nil =>
    rw [hout] at hrc
    have hsuccess : r.rc = Status.success := hrc.resolve_left (hV.stops hcall)
    refine ⟨fun h => absurd h (by simp [countVisit]), ?_⟩
    rintro ⟨name, hname⟩
    have hmem := hV.visitsAll hcall hsuccess name hname
    rw [hout] at hmem
    cases hmem
  | cons name rest =>
    refine ⟨fun _ => ⟨name, hV.visits hcall name ?_⟩, fun _ => Nat.one_pos⟩
    rw [hout]
    exact List.mem_cons_self

section Drop

variable (hN : L.OpensNames N) (hV : L.KeepsMain N V)
include hN hV

/-- What the count of named databases says, and that it changes nothing. -/
theorem countNamedTables_main (hr : Reachable L w) (ht : LiveTxn w e t k) :
    Triple (countNamedTables L t) w
      (fun count u => SameMain V ⟨e, t⟩ w u ∧ Attached N e t u ∧
        (0 < count ↔ ∃ name, (V w.lib ⟨e, t⟩).HasTable name))
      (fun _ u => SameMain V ⟨e, t⟩ w u) := by
  have A := hr.attached hN ht
  obtain ⟨k', hk, howner, htxn, hcache⟩ := A.txn
  have hbody : (countCall L t).run w = (native L (.enumerateTables ⟨e, t⟩ .count) >>= fun r =>
      pure (if (countVisit r.rc r.out).1 = Status.resultTrue then Status.success
        else (countVisit r.rc r.out).1, (countVisit r.rc r.out).2)).run w := by
    rw [countCall, current, bind_assoc, Prog.bind_ok (derefTxn_run hk), htxn]
    rfl
  have hsame : ∀ o, SameMain V ⟨e, t⟩ w (w.answered L (.enumerateTables ⟨e, t⟩ .count) o) :=
    fun o => hV.enumerates w.lib ⟨e, t⟩
  rcases guard_call (poisonTxn t) _ hbody with ⟨r, hcall, hrun⟩ | ⟨info, x, hcall, hrun⟩
  swap
  · exact Triple.stopped hrun (SameMain.aside _ w _ _ (poisonTxn_aside t _) (hsame _))
  refine Triple.step hrun ?_
  dsimp only
  by_cases hrc : (if (countVisit r.rc r.out).1 = Status.resultTrue then Status.success
      else (countVisit r.rc r.out).1) = Status.success
  swap
  · exact Triple.stopped (check_failure hrc) (hsame _)
  rw [hrc]
  refine Triple.step check_success (Triple.pure ⟨hsame _, ?_, countVisit_pos hV hcall ?_⟩)
  · have hcounted := (count_attached hN rfl : Keeps (Served L N ⟨e, t⟩ none w) _ _ _) w .start A
    rw [Triple, native_ok L hcall] at hcounted
    exact hcounted.2
  · split at hrc
    · exact .inl ‹_›
    · exact .inr hrc

/-- A drop of main changes nothing and raises, or it was to empty main, which has no named
database, and every record is gone. -/
theorem mdbxDbiDrop_main (hr : Reachable L w) (ht : LiveTxn w e t k) (del : Bool) :
    Triple (mdbxDbiDrop_ L (.txn t) [] del) w
      (fun _ u => del = false ∧ (∀ name, ¬ (V w.lib ⟨e, t⟩).HasTable name) ∧
        (V u.lib ⟨e, t⟩).records = fun _ => none)
      (fun _ u => SameMain V ⟨e, t⟩ w u) := by
  rcases writableTxn_accesses hr t with ⟨c, hrun⟩ | ⟨_, _, hrun, -⟩
  · exact Triple.stopped hrun rfl
  refine Triple.step hrun ?_
  cases del with
  | true =>
    have hskip : (refuseMainWithNamed L t [] true).run w = (.ok (), w) := by
      rw [refuseMainWithNamed, whenever_neg (by simp)]
      rfl
    exact Triple.step hskip (Triple.stopped (refuse_run ⟨rfl, rfl⟩) rfl)
  | false =>
    rw [refuseMainWithNamed, whenever_pos ⟨rfl, rfl⟩, bind_assoc]
    refine Triple.bind (countNamedTables_main hN hV hr ht) ?_
    rintro count u ⟨hsame, A, hcount⟩
    by_cases hsome : 0 < count
    · exact Triple.stopped (refuse_run hsome) hsame
    have hnone : ∀ name, ¬ (V w.lib ⟨e, t⟩).HasTable name := fun name hname =>
      hsome (hcount.mpr ⟨name, hname⟩)
    refine Triple.step (refuse_pass hsome) (Triple.step (refuse_pass (by simp)) ?_)
    refine Triple.bind (ensureDbi_bears hN (SameMain.aside _ w) [] (fun u hu => ?_) hsame A) ?_
    · exact (hV.opens u.lib _).trans hu
    rintro dbi u₁ ⟨hu₁, hbearing⟩
    obtain ⟨k₁, hk₁, htxn, hdbi⟩ := hbearing.handle
    have hbody : (dropCall L t false).run u₁ =
        (native L (.drop ⟨e, t⟩ dbi false) >>= fun r => pure r.rc).run u₁ := by
      rw [dropCall, current, bind_assoc, Prog.bind_ok (derefTxn_run hk₁), htxn, hdbi]
      rfl
    rcases guard_call (poisonTxn t) (fun r : Reply (.drop ⟨e, t⟩ dbi false) => r.rc) hbody with
      ⟨r, hcall, hdrop⟩ | ⟨info, x, hcall, hdrop⟩
    swap
    · refine Triple.stopped hdrop (SameMain.aside _ w _ _ (poisonTxn_aside t _) ?_)
      exact (hV.fails hbearing.slot (by rw [outcome_error hcall]; simp)).trans hu₁
    refine Triple.step hdrop ?_
    by_cases hrc : r.rc = Status.success
    · rw [hrc]
      refine Triple.step check_success (Triple.pure ⟨rfl, hnone, ?_⟩)
      exact hV.purges hbearing.slot (by rw [outcome_ok hcall, hrc])
    · refine Triple.stopped (check_failure hrc) ?_
      exact (hV.fails hbearing.slot (by rw [outcome_ok hcall]; simpa using hrc)).trans hu₁

omit hN hV in
/-- Where the count fails, emptying main fails the same way. -/
theorem mdbxDbiDrop_uncounted {x : Exit} (hacc : (writableTxn (.txn t)).run w = (.ok t, w))
    (hcount : (countNamedTables L t).run w = (.error x, w')) :
    (mdbxDbiDrop_ L (.txn t) [] false).run w = (.error x, w') := by
  rw [mdbxDbiDrop_, Prog.bind_ok hacc]
  refine Prog.bind_error ?_
  rw [refuseMainWithNamed, whenever_pos ⟨rfl, rfl⟩]
  exact Prog.bind_error hcount

/-- The operations on main that could reach a named database. -/
inductive Command.EditsMain (t : TxnRef) : Command → Prop where
  | put (key value : Bytes) (overwrite : Bool) : EditsMain t (.put (.txn t) key value overwrite [])
  | del (key : Bytes) : EditsMain t (.del (.txn t) key [])
  | sequence (increment : Double) : EditsMain t (.dbiSequence (.txn t) [] increment)
  | drop (del : Bool) : EditsMain t (.dbiDrop (.txn t) [] del)

/-- No operation on main destroys, empties or alters a named database that its transaction sees.  A
drop of main either raises and changes nothing, or was to empty a main without named databases, and
has emptied it.  The count that decides this is positive just when there is a named database to see,
changes nothing, and where it fails the drop has failed before anything is purged. -/
theorem Reachable.named_survive (hr : Reachable L w) (ht : LiveTxn w e t k) :
    (∀ command : Command, command.EditsMain t →
      (V ((command.run L).run w).2.lib ⟨e, t⟩).tables = (V w.lib ⟨e, t⟩).tables) ∧
      (∀ del, Triple (mdbxDbiDrop_ L (.txn t) [] del) w
        (fun _ u => del = false ∧ (∀ name, ¬ (V w.lib ⟨e, t⟩).HasTable name) ∧
          (V u.lib ⟨e, t⟩).records = fun _ => none)
        (fun _ u => V u.lib ⟨e, t⟩ = V w.lib ⟨e, t⟩)) ∧
      Triple (countNamedTables L t) w
        (fun count u => V u.lib ⟨e, t⟩ = V w.lib ⟨e, t⟩ ∧
          (0 < count ↔ ∃ name, (V w.lib ⟨e, t⟩).HasTable name))
        (fun _ u => V u.lib ⟨e, t⟩ = V w.lib ⟨e, t⟩) ∧
      ∀ x u, (writableTxn (.txn t)).run w = (.ok t, w) →
        (countNamedTables L t).run w = (.error x, u) →
          (mdbxDbiDrop_ L (.txn t) [] false).run w = (.error x, u) := by
  refine ⟨?_, mdbxDbiDrop_main hN hV hr ht, ?_, fun x u hacc => mdbxDbiDrop_uncounted hacc⟩
  · intro command hcommand
    cases hcommand with
    | put key value overwrite =>
      rw [Command.run, Prog.map_final]
      exact mdbxPut_tables hN hV hr ht key value overwrite
    | del key =>
      rw [Command.run, Prog.map_final]
      exact mdbxDel_tables hN hV hr ht key
    | sequence increment =>
      rw [Command.run, Prog.map_final]
      exact mdbxDbiSequence_tables hN hV hr ht increment
    | drop del =>
      rw [Command.run, Prog.map_final]
      refine ((mdbxDbiDrop_main hN hV hr ht del).mono ?_ fun _ u hu => hu.tables).final
      rintro - u ⟨-, hnone, hempty⟩
      funext name
      have hbefore : (V w.lib ⟨e, t⟩).tables name = none := not_ne_iff.mp (hnone name)
      rw [hbefore, MainView.tables, hempty]
  · exact (countNamedTables_main hN hV hr ht).mono (fun _ u hu => ⟨hu.1, hu.2.2⟩) fun _ _ hu => hu

end Drop

end Main

/-! ### A library with one table -/

/-- The names of the named databases that main records, and its plain records. -/
structure Cabinet where
  tables : List Bytes
  plain : Bytes → Option Bytes

def cabinetCall (s : Cabinet) : (c : NativeCall) → Reply c × Cabinet
  | .dbiOpen _ none _ => (⟨Status.success, (0 : ℕ)⟩, s)
  -- `MDBX_DBS_FULL`: the environment was opened without room for named databases.
  | .dbiOpen _ (some _) _ => (⟨-30791, (0 : ℕ)⟩, s)
  | .put _ _ key value flags =>
    if key ∈ s.tables then (⟨Status.incompatible, ()⟩, s)
    else if flags = flagNooverwrite ∧ (s.plain key).isSome then (⟨Status.keyExist, ()⟩, s)
    else (⟨Status.success, ()⟩, { s with plain := Function.update s.plain key (some value) })
  | .del _ _ key =>
    if key ∈ s.tables then (⟨Status.incompatible, ()⟩, s)
    else if s.plain key = none then (⟨Status.notFound, ()⟩, s)
    else (⟨Status.success, ()⟩, { s with plain := Function.update s.plain key none })
  | .drop _ _ false => (⟨Status.success, ()⟩, ⟨[], fun _ => none⟩)
  | .drop _ _ true => (⟨Status.incompatible, ()⟩, s)
  | .enumerateTables _ _ => (⟨Status.success, s.tables⟩, s)
  | c => (⟨Status.success, c.blank⟩, s)

def cabinet : Platform Cabinet where
  call c s := (.ok (cabinetCall s c).1, (cabinetCall s c).2)
  quiet _ _ _ := ⟨_, rfl⟩
  badAlloc s := (false, s)
  allocate s := (⟨[], false⟩, s)
  strerror _ := ""
  wide := true

def cabinetMain (s : Cabinet) (_ : TxnPtr) : MainView Unit where
  records key := if key ∈ s.tables then some (.table ()) else (s.plain key).map .plain
  sequence := 0

theorem cabinet_opensNames : cabinet.OpensNames mainOnly :=
  mainOnly_opensNames (fun h _ => by cases h; rfl) (fun h hrc => by cases h; cases hrc)
    fun h hrc => by cases h; cases hrc

/-- A record beside the named databases is written. -/
theorem cabinetMain_set {s : Cabinet} {key : Bytes} (hkey : key ∉ s.tables) (p : TxnPtr)
    (value : Option Bytes) : cabinetMain { s with plain := Function.update s.plain key value } p =
      (cabinetMain s p).set key value := by
  refine congrArg (MainView.mk · 0) (funext fun other => ?_)
  show (if other ∈ s.tables then _ else (Function.update s.plain key value other).map _) =
    Function.update (cabinetMain s p).records key (value.map .plain) other
  by_cases hother : other = key
  · subst hother
    rw [if_neg hkey, Function.update_self, Function.update_self]
  · rw [Function.update_of_ne hother, Function.update_of_ne hother]
    rfl

theorem cabinetMain_hasTable {s : Cabinet} {p : TxnPtr} {name : Bytes} :
    (cabinetMain s p).HasTable name ↔ name ∈ s.tables := by
  rw [MainView.HasTable, MainView.tables]
  by_cases hname : name ∈ s.tables
  · simp [cabinetMain, hname]
  · cases hplain : s.plain name <;> simp [cabinetMain, hname, hplain]

theorem cabinet_keepsMain : cabinet.KeepsMain mainOnly cabinetMain where
  opens _ _ := rfl
  puts {s p dbi} key value flags _ := by
    rw [cabinetMain_hasTable]
    simp only [cabinet, cabinetCall]
    split
    · exact .inl rfl
    split
    · exact .inl rfl
    · exact .inr ⟨‹_›, cabinetMain_set ‹_› p _⟩
  dels {s p dbi} key _ := by
    rw [cabinetMain_hasTable]
    simp only [cabinet, cabinetCall]
    split
    · exact .inl rfl
    split
    · exact .inl rfl
    · exact .inr ⟨‹_›, cabinetMain_set ‹_› p _⟩
  counts _ _ := rfl
  purges {s p dbi del} _ ho := by
    cases del
    · funext key
      simp [cabinet, cabinetCall, cabinetMain]
    · cases ho
  fails {s p dbi del} _ ho := by
    cases del
    · exact absurd rfl ho
    · rfl
  enumerates _ _ := rfl
  visits := by
    intro s p r hcall name hname
    cases hcall
    exact cabinetMain_hasTable.mpr hname
  visitsAll := by
    intro s p r hcall _ name hname
    cases hcall
    exact cabinetMain_hasTable.mp hname
  stops := by
    intro s p r hcall hrc
    cases hcall
    cases hrc

/-- A write transaction is open, and sees one named database. -/
def cabinetBegun : World Cabinet :=
  (World.start ⟨[sampleName], fun _ => none⟩ 1).after cabinet openAndBegin

theorem cabinetBegun_reachable : Reachable cabinet cabinetBegun :=
  ⟨_, 1, World.after_steps ⟨trivial, trivial, trivial⟩⟩

/-- The named database is there after an attempt to empty main. -/
theorem Reachable.named_survive_cabinet :
    (cabinetMain ((((Command.dbiDrop (.txn 1) [] false).run cabinet).run cabinetBegun).2.lib)
      ⟨0, 1⟩).tables sampleName = some () := by
  have howner : (cabinetBegun.txns 1).bind TxnHandle.owner = some 0 := by decide +kernel
  obtain ⟨k, hk⟩ := exists_liveTxn howner
  obtain ⟨htables, -⟩ := Reachable.named_survive cabinet_opensNames cabinet_keepsMain
    cabinetBegun_reachable hk
  rw [htables _ (.drop false)]
  decide +kernel

end Mdbx
