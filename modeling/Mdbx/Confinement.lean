import Mdbx.EnvKey
import Mdbx.Listing

/-! Database handles name an environment by its path: what that confines them to. -/

namespace Mdbx

open ProofKit

variable {σ : Type} {L : Platform σ} {w w' : World σ}

/-! ### Objects keep their path -/

/-- The attribute `path` of the objects of `w` is the same in `w'`. -/
structure SamePaths (w w' : World σ) : Prop where
  next : w.next ≤ w'.next
  env : ∀ {x}, x < w.next → w'.pathAttr (.env x) = w.pathAttr (.env x)
  txn : ∀ {x}, x < w.next → w'.pathAttr (.txn x) = w.pathAttr (.txn x)

theorem SamePaths.refl (w : World σ) : SamePaths w w := ⟨le_rfl, fun _ => rfl, fun _ => rfl⟩

theorem SamePaths.trans {w₁ w₂ w₃ : World σ} (H : SamePaths w₁ w₂) (H' : SamePaths w₂ w₃) :
    SamePaths w₁ w₃ where
  next := H.next.trans H'.next
  env hlt := (H'.env (hlt.trans_le H.next)).trans (H.env hlt)
  txn hlt := (H'.txn (hlt.trans_le H.next)).trans (H.txn hlt)

theorem Later.samePaths {may : NativeCall → Prop} (H : Later may w w') : SamePaths w w' :=
  ⟨H.next, H.envPath, H.txnPath⟩

theorem Step.samePaths (I : Inv { lossy := true } w) (h : Step L w w') : SamePaths w w' := by
  obtain ⟨event, -, rfl⟩ := h
  cases event with
  | entry command => exact (command.spec L (by simp) I).1.later.samePaths
  | finalize object => exact (finalize_sound L I object).later.samePaths
  | fork child => exact ⟨le_rfl, fun _ => rfl, fun _ => rfl⟩

theorem Steps.samePaths (I : Inv { lossy := true } w) (h : Steps L w w') : SamePaths w w' := by
  induction h with
  | refl => exact .refl w
  | tail hsteps hstep ih => exact ih.trans (hstep.samePaths (Steps.inv (by simp) I hsteps))

/-! ### Where handles come from -/

/-- In a run that has come to `w`, an entry point has returned `a`. -/
def Returned (L : Platform σ) (command : Command) (a : Answer) (w : World σ) : Prop :=
  ∃ u, Reachable L u ∧ ((command.run L).run u).1 = .ok a ∧
    Steps L (Event.next L u (.entry command)) w

/-- The environment object `e` was made by opening `path` under the registry key `key`. -/
def OpenedAs (L : Platform σ) (path key : String) (e : EnvRef) (w : World σ) : Prop :=
  ∃ readonly subdir maxDbs mapSize maxReaders mode flags,
    Returned L (.envOpen path key readonly subdir maxDbs mapSize maxReaders mode flags)
      (.object (.env e)) w

/-- The transaction `t` was begun on the environment object `e`. -/
def BegunOn (L : Platform σ) (e : EnvRef) (t : TxnRef) (w : World σ) : Prop :=
  ∃ write flags, Returned L (.txnBegin (.env e) write flags) (.object (.txn t)) w

/-- The handle `r` was obtained from a transaction on the environment object `e`. -/
def ObtainedOn (L : Platform σ) (e : EnvRef) (r : DbiRecord) (w : World σ) : Prop :=
  ∃ t v name create, BegunOn L e t v ∧ ((mdbxDbiOpen L (.txn t) name create).run v).1 = .ok r ∧
    Steps L ((mdbxDbiOpen L (.txn t) name create).run v).2 w

theorem Returned.reachable {command : Command} {a : Answer} (h : Returned L command a w) :
    Reachable L w := by
  obtain ⟨u, ⟨lib, pid, hsteps⟩, -, hlater⟩ := h
  exact ⟨lib, pid, (hsteps.tail ⟨.entry command, trivial, rfl⟩).trans hlater⟩

theorem OpenedAs.path {path key : String} {e : EnvRef} (h : OpenedAs L path key e w) :
    w.pathAttr (.env e) = some path := by
  obtain ⟨readonly, subdir, maxDbs, mapSize, maxReaders, mode, flags, u, hu, ha, hsteps⟩ := h
  have I : Inv { lossy := true } u := hu.invariant (by simp)
  have S : Sound (fun _ => True) u { lossy := true } u := I.sound
  have hspec := mdbxEnvOpen_spec L (by simp) S trivial path key readonly subdir maxDbs mapSize
    maxReaders mode flags
  rcases hr : (mdbxEnvOpen_ L path key readonly subdir maxDbs mapSize maxReaders mode flags).run u
    with ⟨x | x, u'⟩
  · rw [Command.run, Prog.map_run _ hr] at ha
    cases ha
  rw [Command.run, Prog.map_run _ hr] at ha
  rw [Event.next, Command.run, Prog.map_run _ hr] at hsteps
  rw [Triple, hr] at hspec
  obtain ⟨rfl, S', -, hpath⟩ := hspec
  cases ha
  have hlt : u.next < u'.next := by
    obtain ⟨s, hs, -⟩ := Option.map_eq_some_iff.mp hpath
    exact S'.inv.fresh.envSexp hs
  exact ((Steps.samePaths S'.inv hsteps).env hlt).trans hpath

theorem BegunOn.path {e : EnvRef} {t : TxnRef} (h : BegunOn L e t w) :
    w.pathAttr (.txn t) = w.pathAttr (.env e) ∧ t < w.next ∧ e < w.next := by
  obtain ⟨write, flags, u, hu, ha, hsteps⟩ := h
  have I : Inv { lossy := true } u := hu.invariant (by simp)
  have S : Sound (fun _ => True) u { lossy := true } u := I.sound
  have hspec := mdbxTxnBegin_spec L (by simp) S (.env e) write flags
  rcases hr : (mdbxTxnBegin_ L (.env e) write flags).run u with ⟨x | x, u'⟩
  · rw [Command.run, Prog.map_run _ hr] at ha
    cases ha
  rw [Command.run, Prog.map_run _ hr] at ha
  rw [Event.next, Command.run, Prog.map_run _ hr] at hsteps
  rw [Triple, hr] at hspec
  obtain ⟨rfl, S', hlt, e', s, he, hs, hpath⟩ := hspec
  cases ha
  cases he
  have hsame := Steps.samePaths S'.inv hsteps
  have hold : e < u.next := I.fresh.envSexp hs
  refine ⟨?_, hlt.trans_le hsame.next, hold.trans_le (S'.later.next.trans hsame.next)⟩
  calc w.pathAttr (.txn u.next) = some s.path := (hsame.txn hlt).trans hpath
    _ = u.pathAttr (.env e) := by simp [World.pathAttr, hs]
    _ = w.pathAttr (.env e) := (S'.later.samePaths.trans hsame).env hold |>.symm

/-- What `mdbx_dbi_open` returns names the path of its transaction. -/
theorem mdbxDbiOpen_record {t : TxnRef} {name : Bytes} {create : Bool} {r : DbiRecord}
    (h : ((mdbxDbiOpen L (.txn t) name create).run w).1 = .ok r) :
    r = ⟨some name, ((mdbxDbiOpen L (.txn t) name create).run w).2.pathAttr (.txn t)⟩ ∧
      ((mdbxDbiOpen L (.txn t) name create).run w).2 =
        Event.next L w (.entry (.dbiOpen (.txn t) name create)) := by
  rcases hr : (mdbxDbiOpen_ L (.txn t) name create).run w with ⟨x | _, w'⟩
  · rw [mdbxDbiOpen, Prog.bind_error (Front.call_error hr)] at h
    cases h
  have hrun : (mdbxDbiOpen L (.txn t) name create).run w =
      (.ok ⟨some name, w'.pathAttr (.txn t)⟩, w') := by
    rw [mdbxDbiOpen, Prog.bind_ok (Front.call_ok hr)]
    rfl
  rw [hrun] at h ⊢
  cases h
  refine ⟨rfl, ?_⟩
  rw [Event.next, Command.run, Prog.map_run _ hr]

theorem ObtainedOn.record {e : EnvRef} {r : DbiRecord} (h : ObtainedOn L e r w) :
    ∃ name, r = ⟨some name, w.pathAttr (.env e)⟩ := by
  obtain ⟨t, v, name, create, hbegun, hr, hsteps⟩ := h
  have hv : Reachable L v := by
    obtain ⟨_, _, hreturned⟩ := hbegun
    exact hreturned.reachable
  obtain ⟨hrecord, hnext⟩ := mdbxDbiOpen_record hr
  obtain ⟨hpath, ht, he⟩ := hbegun.path
  rw [hnext] at hrecord hsteps
  have I : Inv { lossy := true } v := hv.invariant (by simp)
  have hopen : Step L v (Event.next L v (.entry (.dbiOpen (.txn t) name create))) :=
    ⟨.entry _, trivial, rfl⟩
  have hsame := hopen.samePaths I
  have hlater := Steps.samePaths (hopen.inv L (by simp) I) hsteps
  refine ⟨name, ?_⟩
  rw [hrecord, hsame.txn ht, hpath, (hsame.trans hlater).env he]

/-! ### The functions that take a database -/

/-- An R function with a `db` argument, and its other arguments. -/
inductive DbUse where
  | get (key : Bytes)
  | put (key value : Bytes) (overwrite : Bool)
  | del (key : Bytes)
  | keys (limit : NumberArg) (start : Option Bytes) (reverse : Bool)
  | items (limit : NumberArg) (start : Option Bytes) (reverse : Bool)
  | envStat
  | dbiDrop (delete : Bool)
  | dbiSequence (increment : NumberArg)

/-- The use of a database in a transaction, without what it returns. -/
def DbUse.run (L : Platform σ) (txn : Sexp) (db : DbArg) : DbUse → Front σ Unit
  | get key => (fun _ => ()) <$> mdbxGet L txn key db
  | put key value overwrite => (fun _ => ()) <$> mdbxPut L txn key value overwrite db
  | del key => (fun _ => ()) <$> mdbxDel L txn key db
  | keys limit start reverse => (fun _ => ()) <$> mdbxKeys L txn limit db start reverse
  | items limit start reverse => (fun _ => ()) <$> mdbxItems L txn limit db start reverse
  | envStat => (fun _ => ()) <$> mdbxEnvStat L txn db
  | dbiDrop delete => mdbxDbiDrop L txn db delete
  | dbiSequence increment => (fun _ => ()) <$> mdbxDbiSequence L txn db increment

/-- `db_name` accepts the path that the transaction carries. -/
theorem dbName_accepts {path : String} {txn : Sexp} (h : w.pathAttr txn = some path)
    (name : Bytes) : (dbName (.record ⟨some name, some path⟩) txn).run w = (.ok [name], w) := by
  have hsame : ¬ w.pathAttr txn ≠ some path := not_not.mpr h
  rw [dbName, Prog.run_get_bind, Prog.bind_ok (Front.refuse_pass hsame)]
  rfl

/-- The program stops by itself, with nothing done. -/
def Stops {α : Type} (m : Front σ α) (w : World σ) : Prop :=
  ∃ c, m.run w = (.error (.stop c), w)

section Stops

variable {α β : Type} {m : Front σ α} {f : α → Front σ β}

theorem Stops.map (h : Stops m w) (g : α → β) : Stops (g <$> m) w := by
  obtain ⟨c, hc⟩ := h
  exact ⟨c, Prog.map_run g hc⟩

theorem Stops.bind (h : Stops m w) : Stops (m >>= f) w := by
  obtain ⟨c, hc⟩ := h
  exact ⟨c, Prog.bind_error hc⟩

/-- The program only looks: it stops by itself or returns, with nothing done. -/
def Looks {α : Type} (m : Front σ α) (w : World σ) : Prop :=
  Stops m w ∨ ∃ a, m.run w = (.ok a, w)

theorem Looks.pure (a : α) : Looks (Pure.pure a : Front σ α) w := .inr ⟨a, rfl⟩

theorem Looks.bind (h : Looks m w) (hf : ∀ a, Looks (f a) w) : Looks (m >>= f) w := by
  rcases h with h | ⟨a, ha⟩
  · exact .inl h.bind
  · rw [Looks, Stops, Prog.bind_ok ha]
    exact hf a

theorem Looks.stops (h : Looks m w) (hf : ∀ a, Stops (f a) w) : Stops (m >>= f) w := by
  rcases h with h | ⟨a, ha⟩
  · exact h.bind
  · rw [Stops, Prog.bind_ok ha]
    exact hf a

theorem Looks.refuse (refused : Prop) [Decidable refused] (c : FrontCondition) :
    Looks (Front.refuse refused c : Front σ Unit) w := by
  by_cases h : refused
  · exact .inl ⟨c, Front.refuse_run h⟩
  · exact .inr ⟨(), Front.refuse_pass h⟩

theorem call_not_stops (m : Pkg σ α) : ¬ Stops (Front.call m) w := by
  rintro ⟨c, hc⟩
  rcases hr : m.run w with ⟨x | a, w'⟩
  · rw [Front.call_error hr] at hc
    cases hc
  · rw [Front.call_ok hr] at hc
    cases hc

theorem checkLimit_looks (limit : NumberArg) (w : World σ) : Looks (checkLimit L limit) w := by
  cases limit with
  | null => exact .pure _
  | other => exact .inl ⟨_, rfl⟩
  | number x =>
    refine (Looks.refuse _ _).bind fun _ => ?_
    split
    · exact .pure _
    refine (Looks.refuse _ _).bind fun _ => ?_
    exact (Looks.refuse _ _).bind fun _ => .pure _

end Stops

/-- Whatever `db_name` refuses, every function with a `db` argument refuses. -/
theorem DbUse.stops {t : TxnRef} {db : DbArg} (h : Stops (dbName db (.txn t)) w) (use : DbUse) :
    Stops (use.run L (.txn t) db) w := by
  have hguard : ∀ limit, Looks (guardNull L limit (.txn t) db) w := by
    intro limit
    rw [guardNull]
    split
    · exact .inl (Stops.bind (Stops.bind h))
    · exact .pure _
  have hscan : ∀ limit {α : Type} (f : Double → List Bytes → Front σ α), Stops (do
      guardNull L limit (.txn t) db
      let bound ← checkLimit L limit
      let names ← dbName db (.txn t)
      f bound names) w := fun limit _ _ =>
    (hguard limit).stops fun _ => (checkLimit_looks limit w).stops fun _ => h.bind
  cases use with
  | get key => exact (Stops.bind h).map _
  | put key value overwrite => exact (Stops.bind h).map _
  | del key => exact (Stops.bind h).map _
  | keys limit start reverse => exact (hscan limit _).map _
  | items limit start reverse => exact (hscan limit _).map _
  | envStat => exact (Stops.bind h).map _
  | dbiDrop delete => exact h.bind
  | dbiSequence increment =>
    refine Stops.map ?_ _
    cases increment with
    | number x => exact (Looks.refuse _ _).stops fun _ => (Looks.refuse _ _).stops fun _ => h.bind
    | null => exact ⟨.badIncrement, rfl⟩
    | other => exact ⟨.badIncrement, rfl⟩

/-- The handle is refused wherever a transaction of it is used with it. -/
def Refused (L : Platform σ) (r : DbiRecord) (t : TxnRef) (w : World σ) : Prop :=
  ∀ use : DbUse, Stops (use.run L (.txn t) (.record r)) w

/-- A handle is accepted by every transaction of the environment that it was obtained on.  By those
of another it is refused exactly when the two environments were opened by different spellings of
their paths. -/
theorem dbi_confined {path₁ path₂ key₁ key₂ : String} {e₁ e₂ : EnvRef} {r : DbiRecord}
    (h₁ : OpenedAs L path₁ key₁ e₁ w) (h₂ : OpenedAs L path₂ key₂ e₂ w)
    (hr : ObtainedOn L e₁ r w) :
    (∀ t, BegunOn L e₁ t w → ∃ name, (dbName (.record r) (.txn t)).run w = (.ok [name], w)) ∧
      ∀ t, BegunOn L e₂ t w → (Refused L r t w ↔ path₁ ≠ path₂) := by
  obtain ⟨name, rfl⟩ := hr.record
  rw [h₁.path]
  constructor
  · intro t ht
    exact ⟨name, dbName_accepts (ht.path.1.trans h₁.path) name⟩
  · intro t ht
    have hattr : w.pathAttr (.txn t) = some path₂ := ht.path.1.trans h₂.path
    constructor
    · rintro hrefused rfl
      have hdrop := hrefused (.dbiDrop false)
      rw [DbUse.run, mdbxDbiDrop, Stops, Prog.bind_ok (dbName_accepts hattr name)] at hdrop
      exact call_not_stops _ hdrop
    · intro hne use
      refine use.stops ⟨.otherEnvironment path₁ (w.pathAttr (.txn t)), ?_⟩
      have hother : w.pathAttr (.txn t) ≠ some path₁ := by
        rw [hattr]
        exact fun heq => hne (Option.some.inj heq).symm
      rw [dbName, Prog.run_get_bind, Prog.bind_error (Front.refuse_run hother)]

/-! ### Two environments in one process -/

/-- An answer in a run that is given by its events. -/
theorem Returned.of_events {lib : σ} {pid : Pid} (before rest : List Event) {command : Command}
    {a : Answer} (hbefore : (World.start lib pid).admits L before)
    (ha : ((command.run L).run ((World.start lib pid).after L before)).1 = .ok a)
    (hrest : ((World.start lib pid).after L (before ++ [.entry command])).admits L rest) :
    Returned L command a
      ((World.start lib pid).after L ((before ++ [.entry command]) ++ rest)) := by
  have hnext : (World.start lib pid).after L (before ++ [.entry command]) =
      Event.next L ((World.start lib pid).after L before) (.entry command) :=
    World.after_append ..
  rw [hnext] at hrest
  rw [World.after_append, hnext]
  exact ⟨_, ⟨lib, pid, World.after_steps hbefore⟩, ha, World.after_steps hrest⟩

/-- The environments and the names of the databases that have been made in them. -/
abbrev Catalog := List (EnvPtr × Bytes)

/-- The number of a database of the environment `e`; that of main is 1. -/
def Catalog.number (s : Catalog) (e : EnvPtr) (name : Bytes) : Dbi :=
  2 + ((s.filter (·.1 = e)).map Prod.snd).idxOf name

def catalogCall (s : Catalog) : (c : NativeCall) → Reply c × Catalog
  | .dbiOpen _ none _ => (⟨Status.success, (1 : ℕ)⟩, s)
  | .dbiOpen p (some name) flags =>
    let made := if (p.env, name) ∈ s ∨ flags ≠ flagCreate then s else s ++ [(p.env, name)]
    if (p.env, name) ∈ made then (⟨Status.success, made.number p.env name⟩, made)
    else (⟨Status.notFound, (0 : ℕ)⟩, made)
  | c => (⟨Status.success, c.blank⟩, s)

/-- A library that opens a named database where it has been made, and nowhere else. -/
def catalog : Platform Catalog where
  call c s := (.ok (catalogCall s c).1, (catalogCall s c).2)
  quiet _ _ _ := ⟨_, rfl⟩
  badAlloc s := (false, s)
  allocate s := (⟨[], false⟩, s)
  strerror _ := ""
  wide := true

def openDb (key : String) : Command :=
  .envOpen "db" key false false (.ofNat 16) (.ofNat 0) (.ofNat 0) 0 []

/-- `db` is opened in `/x` and in `/x/d`, a write transaction is begun on each, and the second
environment gets a database. -/
def beginTwo : List Event :=
  [.entry (openDb "/x/db"), .entry (openDb "/x/d/db"), .entry (.txnBegin (.env 0) true []),
    .entry (.txnBegin (.env 1) true []), .entry (.dbiOpen (.txn 3) sampleName true)]

/-- A database of the same name is made in the first transaction. -/
def shareIt : Event := .entry (.dbiOpen (.txn 2) sampleName true)

/-- The world after that. -/
def twoBegun : World Catalog := (World.start [] 1).after catalog (beginTwo ++ [shareIt])

def sharedHandle : DbiRecord := ⟨some sampleName, some "db"⟩

/-- Two environments opened as `db`, a transaction on each, and a handle from the first. -/
structure Shares (w : World Catalog) : Prop where
  first : OpenedAs catalog "db" "/x/db" 0 w
  second : OpenedAs catalog "db" "/x/d/db" 1 w
  registry : w.openEnvs = [0, 1]
  handle : ObtainedOn catalog 0 sharedHandle w
  own : BegunOn catalog 0 2 w
  other : BegunOn catalog 1 3 w

theorem beginTwo_own (rest : List Event)
    (hrest : ((World.start [] 1).after catalog (beginTwo.take 3)).admits catalog rest) :
    BegunOn catalog 0 2 ((World.start [] 1).after catalog (beginTwo.take 3 ++ rest)) :=
  ⟨_, _, Returned.of_events (beginTwo.take 2) rest (by decide +kernel) (by decide +kernel) hrest⟩

theorem twoBegun_shares : Shares twoBegun where
  first := ⟨_, _, _, _, _, _, _, Returned.of_events [] (beginTwo.tail ++ [shareIt]) trivial
    (by decide +kernel) (by decide +kernel)⟩
  second := ⟨_, _, _, _, _, _, _, Returned.of_events (beginTwo.take 1)
    (beginTwo.drop 2 ++ [shareIt]) (by decide +kernel) (by decide +kernel) (by decide +kernel)⟩
  registry := by decide +kernel
  handle := by
    have hr : ((mdbxDbiOpen catalog (.txn 2) [115] true).run
        ((World.start [] 1).after catalog beginTwo)).1 = .ok sharedHandle := by decide +kernel
    have hbegun : BegunOn catalog 0 2 ((World.start [] 1).after catalog beginTwo) :=
      beginTwo_own (beginTwo.drop 3) (by decide +kernel)
    refine ⟨2, _, [115], true, hbegun, hr, ?_⟩
    rw [(mdbxDbiOpen_record hr).2, twoBegun, World.after_append]
    exact .refl
  own := beginTwo_own (beginTwo.drop 3 ++ [shareIt]) (by decide +kernel)
  other := ⟨_, _, Returned.of_events (beginTwo.take 3) (beginTwo.drop 4 ++ [shareIt])
    (by decide +kernel) (by decide +kernel) (by decide +kernel)⟩

/-- The handle is accepted in both transactions. -/
theorem dbi_confined_beginTwo :
    (∃ name, (dbName (.record sharedHandle) (.txn 2)).run twoBegun = (.ok [name], twoBegun)) ∧
      ¬ Refused catalog sharedHandle 3 twoBegun := by
  obtain ⟨hown, hother⟩ := dbi_confined twoBegun_shares.first twoBegun_shares.second
    twoBegun_shares.handle
  exact ⟨hown 2 twoBegun_shares.own, fun h => (hother 3 twoBegun_shares.other).mp h rfl⟩

/-- Opened as `db` in two directories, two environments with keys of their own share their handles:
what was obtained on the one writes to the database of that name in the other. -/
theorem relative_path_not_confined :
    envKey smallTree ["x"] ⟨false, ["db"]⟩ false = "/x/db" ∧
      envKey smallTree ["x", "d"] ⟨false, ["db"]⟩ false = "/x/d/db" ∧
      ∃ w, Shares w ∧ ¬ Refused catalog sharedHandle 3 w ∧
        ((mdbxPut catalog (.txn 3) [107] [118] true (.record sharedHandle)).run w).1 = .ok true ∧
        ((mdbxPut catalog (.txn 3) [107] [118] true (.record sharedHandle)).run w).2.log.head? =
          some ⟨1, .put ⟨1, 3⟩ 2 [107] [118] 0, .returned Status.success⟩ := by
  have hput : ((mdbxPut catalog (.txn 3) [107] [118] true (.record sharedHandle)).run
      twoBegun).1 = .ok true := by decide +kernel
  refine ⟨by decide +kernel, by decide +kernel, twoBegun, twoBegun_shares, fun hrefused => ?_, hput,
    by decide +kernel⟩
  obtain ⟨c, hc⟩ := hrefused (.put [107] [118] true)
  rw [DbUse.run, Prog.map_run _ (Prod.ext hput rfl)] at hc
  cases hc

/-- Where the other environment has no database of that name, the write fails instead. -/
example : (((Command.put (.txn 3) [107] [118] true [sampleName]).run catalog).run
    ((World.start [] 1).after catalog (beginTwo.take 4 ++ [shareIt]))).1 =
      .error (.stop (.missingDbi sampleName "db")) := by decide +kernel

end Mdbx
