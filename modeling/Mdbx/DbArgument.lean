import Mdbx.Addressing
import Mdbx.Confinement
import Mdbx.Counting
import Mdbx.Sizes
import Mdbx.Text

/-! The `db` argument as R code may pass it: which values `db_name` accepts, and which database the
functions that take one then work on. -/

namespace Mdbx

open ProofKit

/-! ### Values of R -/

/-- An element of a list: a character vector, where `none` is `NA` and `bare` says that it has no
attributes, or anything else. -/
inductive Element where
  | strings (strings : List (Option RString)) (bare : Bool)
  | other
  deriving DecidableEq

/-- A `db` argument: `NULL`, a list with its classes and its elements under their names, or any
other object with its classes. -/
inductive DbValue where
  | null
  | list (classes : List String) (elements : List (Bytes × Element))
  | other (classes : List String)
  deriving DecidableEq

/-- The first element with exactly the name. -/
def elementCalled (elements : List (Bytes × Element)) (name : Bytes) : Option Element :=
  (elements.find? (·.1 = name)).map (·.2)

/-- `$`: the first element with exactly the name or, if there is none, the only one whose name
begins so. -/
def dollar (elements : List (Bytes × Element)) (name : Bytes) : Option Element :=
  match elementCalled elements name with
  | some x => some x
  | none =>
    match elements.filter fun entry => name.isPrefixOf entry.1 with
    | [entry] => some entry.2
    | _ => none

/-- `is_single_string`: the string, and whether the vector has no attributes. -/
def singleString : Option Element → Option (RString × Bool)
  | some (.strings [some s] bare) => if s.bytes = [] then none else some (s, bare)
  | _ => none

/-- `identical` on two strings. -/
def RString.identical (S : Session) (a b : RString) : Prop :=
  if a.mark = b.mark then a.bytes = b.bytes
  else if a.mark = .bytes ∨ b.mark = .bytes then False
  else a.translated S = b.translated S

instance (S : Session) (a b : RString) : Decidable (a.identical S b) :=
  inferInstanceAs (Decidable (if a.mark = b.mark then a.bytes = b.bytes
    else if a.mark = .bytes ∨ b.mark = .bytes then False
    else a.translated S = b.translated S))

theorem noNul_takeWhile (bytes : Bytes) : nul ∉ bytes.takeWhile (· ≠ nul) := by
  intro hmem
  have hne := List.mem_takeWhile_imp hmem
  simp at hne

/-- The attribute `path`, as `Rf_mkString` makes it. -/
def pathString (path : String) : RString :=
  .of ((Utf8.encode path.toList).takeWhile (· ≠ nul)) .unknown (noNul_takeWhile _)

/-- `identical(path, attr(txn, "path"))`. -/
def samePath (S : Session) (path : RString × Bool) : Option String → Prop
  | none => False
  | some attr => path.2 = true ∧ path.1.identical S (pathString attr)

instance (S : Session) (path : RString × Bool) : (attr : Option String) →
    Decidable (samePath S path attr)
  | none => .isFalse id
  | some _ => inferInstanceAs (Decidable (_ ∧ _))

/-- The text of a string as a message shows it. -/
def RString.shown (S : Session) (s : RString) : String :=
  String.ofList ((Utf8.text (s.translated S)).getD [])

def nameField : Bytes := Utf8.encode "name".toList

def pathField : Bytes := Utf8.encode "path".toList

variable {σ : Type}

/-- `db_name`, of any value. -/
def dbNameOf (S : Session) (db : DbValue) (txn : Sexp) : Front σ (List RString) :=
  match db with
  | .null => pure []
  | .other _ => Front.stop .notDbi
  | .list classes elements =>
    if "mdbx_dbi" ∉ classes then Front.stop .notDbi else
    match singleString (dollar elements nameField), singleString (dollar elements pathField) with
    | some name, some path => do
      let w ← Prog.get
      Front.refuse (¬ samePath S path (w.pathAttr txn))
        (.otherEnvironment (path.1.shown S) (w.pathAttr txn))
      pure [name.1]
    | _, _ => Front.stop .damagedDbi

/-- The name as an entry point reads it, which looks at its transaction by `acc` before. -/
def nativeName (S : Session) (acc : Pkg σ TxnRef) : List RString → Front σ (List Bytes)
  | [] => pure []
  | name :: _ =>
    if name.mark = .bytes then do
      let _ ← Front.call acc
      Front.stop .untranslatable
    else pure [name.translated S]

/-! ### The functions over any value -/

section Uses

variable (L : Platform σ)

/-- How the entry point of a use looks at its transaction. -/
def DbUse.access (txn : Sexp) : DbUse → Pkg σ TxnRef
  | put _ _ _ | del _ | dbiDrop _ => writableTxn txn
  | dbiSequence (.number x) => sequenceTxn txn x
  | _ => txnFromSexp txn

def envStatOver (t : TxnRef) (names : Front σ (List Bytes)) :
    Front σ (List (String × Double)) := do
  let names ← names
  Front.call (mdbxTxnStat_ L (.txn t) names)

def guardOver (limit : NumberArg) (t : TxnRef) (names : Front σ (List Bytes)) : Front σ Unit :=
  if limit = .null then do
    let stat ← envStatOver L t names
    Front.refuse (mdbxScanMax.lt (entriesOf stat) = true) (.tooManyRecords (entriesOf stat))
  else pure ()

/-- A use of the database that `names` gives, without what it returns. -/
def DbUse.given (t : TxnRef) (names : Front σ (List Bytes)) : DbUse → Front σ Unit
  | get key => (fun _ => ()) <$> do
    let names ← names
    Front.call (mdbxGet_ L (.txn t) key names)
  | put key value overwrite => (fun _ => ()) <$> do
    let names ← names
    Front.call (mdbxPut_ L (.txn t) key value overwrite names)
  | del key => (fun _ => ()) <$> do
    let names ← names
    Front.call (mdbxDel_ L (.txn t) key names)
  | keys limit start reverse => (fun _ => ()) <$> do
    guardOver L limit t names
    let bound ← checkLimit L limit
    let names ← names
    let found ← Front.call (mdbxScan_ L (.txn t) bound false names start reverse)
    pure found.1
  | items limit start reverse => (fun _ => ()) <$> do
    guardOver L limit t names
    let bound ← checkLimit L limit
    let names ← names
    Front.call (mdbxScan_ L (.txn t) bound true names start reverse)
  | envStat => (fun _ => ()) <$> envStatOver L t names
  | dbiDrop delete => do
    let names ← names
    Front.call (mdbxDbiDrop_ L (.txn t) names delete)
  | dbiSequence increment => (fun _ => ()) <$> match increment with
    | .number x => do
      Front.refuse (x.isFinite = false ∨ x.lt (.ofNat 0) = true ∨ maxExactInteger.lt x = true)
        .badIncrement
      checkWhole x "increment"
      let names ← names
      Front.call (mdbxDbiSequence_ L (.txn t) names x)
    | _ => Front.stop .badIncrement

/-- A use of the transaction `t` with the value `db`. -/
def DbUse.perform (S : Session) (t : TxnRef) (db : DbValue) (use : DbUse) : Front σ Unit :=
  use.given L t (dbNameOf S db (.txn t) >>= nativeName S (use.access (.txn t)))

/-- Over `db_name` of a handle as `mdbx_dbi_open` returns it these are the functions themselves. -/
theorem DbUse.given_dbName (t : TxnRef) (db : DbArg) (use : DbUse) :
    use.given L t (dbName db (.txn t)) = use.run L (.txn t) db := by
  cases use with
  | dbiSequence increment => cases increment <;> rfl
  | _ => rfl

end Uses

/-! ### What `db_name` accepts -/

/-- `look` finds a handle in the list: a `name` and a `path` that are single non-empty strings, and
`path` the one of the transaction. -/
inductive Reads (look : List (Bytes × Element) → Bytes → Option Element) (S : Session)
    (path : String) : DbValue → RString → Prop where
  | list {classes : List String} {elements : List (Bytes × Element)} {name : RString}
      {bare : Bool} {p : RString × Bool} (hclass : "mdbx_dbi" ∈ classes)
      (hname : singleString (look elements nameField) = some (name, bare))
      (hpath : singleString (look elements pathField) = some p)
      (hsame : samePath S p (some path)) : Reads look S path (.list classes elements) name

/-- The list lacks an element called exactly `name` or one called exactly `path`, and `$` reads a
handle out of it all the same. -/
def Borrowed (S : Session) (db : DbValue) (path : String) : Prop :=
  ∃ classes elements name, db = .list classes elements ∧ Reads dollar S path db name ∧
    name.mark ≠ .bytes ∧
    (elementCalled elements nameField = none ∨ elementCalled elements pathField = none)

section Names

variable {S : Session} {L : Platform σ} {w : World σ} {t : TxnRef} {path : String} {db : DbValue}
  {name : RString}

theorem dollar_exact {elements : List (Bytes × Element)} {field : Bytes}
    (h : elementCalled elements field ≠ none) :
    dollar elements field = elementCalled elements field := by
  obtain ⟨x, hx⟩ := Option.ne_none_iff_exists'.mp h
  rw [dollar, hx]

/-- What `$` reads, unless it is borrowed, is there under exactly its names. -/
theorem Reads.exact (h : Reads dollar S path db name) (hmark : name.mark ≠ .bytes)
    (hb : ¬ Borrowed S db path) : Reads elementCalled S path db name := by
  cases h with
  | @list classes elements _ bare p hclass hname hpath hsame =>
    have hfields : elementCalled elements nameField ≠ none ∧
        elementCalled elements pathField ≠ none := by
      rw [← not_or]
      exact fun hnone => hb ⟨classes, elements, name, rfl, .list hclass hname hpath hsame, hmark,
        hnone⟩
    rw [dollar_exact hfields.1] at hname
    rw [dollar_exact hfields.2] at hpath
    exact .list hclass hname hpath hsame

theorem Borrowed.not_exact (hb : Borrowed S db path) : ¬ Reads elementCalled S path db name := by
  obtain ⟨classes, elements, other, rfl, -, -, hnone⟩ := hb
  rintro (⟨-, hname, hpath, -⟩ : Reads elementCalled S path (.list classes elements) name)
  rcases hnone with hnone | hnone
  · rw [hnone] at hname
    cases hname
  · rw [hnone] at hpath
    cases hpath

/-- `db_name` takes `NULL`, stops, or reads a handle by `$`. -/
theorem dbNameOf_cases (hpath : w.pathAttr (.txn t) = some path) (db : DbValue) :
    db = .null ∨ (∃ c, (dbNameOf S db (.txn t)).run w = (.error (.stop c), w)) ∨
      ∃ name, Reads dollar S path db name := by
  cases db with
  | null => exact .inl rfl
  | other classes => exact .inr (.inl ⟨_, rfl⟩)
  | list classes elements =>
    right
    by_cases hclass : "mdbx_dbi" ∉ classes
    · exact .inl ⟨_, by rw [dbNameOf, if_pos hclass]; rfl⟩
    cases hname : singleString (dollar elements nameField) with
    | none => exact .inl ⟨.damagedDbi, by rw [dbNameOf, if_neg hclass, hname]; rfl⟩
    | some name =>
      cases hp : singleString (dollar elements pathField) with
      | none => exact .inl ⟨.damagedDbi, by rw [dbNameOf, if_neg hclass, hname, hp]; rfl⟩
      | some p =>
        by_cases hsame : samePath S p (some path)
        · exact .inr ⟨name.1, .list (not_not.mp hclass) hname hp hsame⟩
        · rw [← hpath] at hsame
          refine .inl ⟨.otherEnvironment (p.1.shown S) (w.pathAttr (.txn t)), ?_⟩
          rw [dbNameOf, if_neg hclass, hname, hp]
          simp only
          rw [Prog.run_get_bind, Prog.bind_error (Front.refuse_run hsame)]

theorem Reads.run (h : Reads dollar S path db name) (hpath : w.pathAttr (.txn t) = some path) :
    (dbNameOf S db (.txn t)).run w = (.ok [name], w) := by
  cases h with
  | list hclass hname hp hsame =>
    rw [← hpath] at hsame
    rw [dbNameOf, if_neg (not_not.mpr hclass), hname, hp]
    simp only
    rw [Prog.run_get_bind, Prog.bind_ok (Front.refuse_pass (not_not.mpr hsame))]
    rfl

theorem DbUse.access_accesses (hr : Reachable L w) (t : TxnRef) (use : DbUse) :
    Accesses (use.access (.txn t)) t w := by
  cases use with
  | put | del | dbiDrop => exact writableTxn_accesses hr t
  | dbiSequence increment =>
    cases increment with
    | number x => exact sequenceTxn_accesses hr t x
    | null | other => exact txnFromSexp_accesses hr t
  | get | keys | items | envStat => exact txnFromSexp_accesses hr t

/-- The program ends in an error, with nothing done. -/
def Fails {α : Type} (m : Front σ α) (w : World σ) : Prop := ∃ x, m.run w = (.error x, w)

/-- A name that cannot be translated is refused by the entry point. -/
theorem nativeName_fails (hr : Reachable L w) (hmark : name.mark = .bytes) (use : DbUse) :
    Fails (nativeName S (use.access (.txn t)) [name] : Front σ (List Bytes)) w := by
  rw [nativeName, if_pos hmark]
  rcases use.access_accesses hr t with ⟨c, hrun⟩ | ⟨e, k, hrun, -⟩
  · exact ⟨_, Prog.bind_error (Front.call_error hrun)⟩
  · exact ⟨.stop .untranslatable, by rw [Prog.bind_ok (Front.call_ok hrun)]; rfl⟩

end Names

/-! ### What the functions do -/

section Functions

variable {L : Platform σ} {N : Names σ} {w u : World σ} {t : TxnRef} {α β : Type}

section Fails

variable {m : Front σ α} {f : α → Front σ β}

theorem Fails.map (h : Fails m w) (g : α → β) : Fails (g <$> m) w := by
  obtain ⟨x, hx⟩ := h
  exact ⟨x, Prog.map_run g hx⟩

theorem Fails.bind (h : Fails m w) : Fails (m >>= f) w := by
  obtain ⟨x, hx⟩ := h
  exact ⟨x, Prog.bind_error hx⟩

theorem Looks.fails (h : Looks m w) (hf : ∀ a, Fails (f a) w) : Fails (m >>= f) w := by
  rcases h with ⟨c, hc⟩ | ⟨a, ha⟩
  · exact ⟨_, Prog.bind_error hc⟩
  · rw [Fails, Prog.bind_ok ha]
    exact hf a

end Fails

variable {names : Front σ (List Bytes)} {ns : List Bytes} {path : String}

/-- Where there is no name, nothing is done. -/
theorem DbUse.given_fails (h : Fails names w) (use : DbUse) : Fails (use.given L t names) w := by
  have hscan : ∀ limit {γ : Type} (f : Double → List Bytes → Front σ γ), Fails (do
      guardOver L limit t names
      let bound ← checkLimit L limit
      let ns ← names
      f bound ns) w := by
    intro limit γ f
    have hrest : Fails (do
        let bound ← checkLimit L limit
        let ns ← names
        f bound ns) w := (checkLimit_looks limit w).fails fun _ => h.bind
    by_cases hnull : limit = .null
    · rw [guardOver, if_pos hnull]
      exact Fails.bind (Fails.bind h.bind)
    · rw [guardOver, if_neg hnull]
      exact hrest
  cases use with
  | get key => exact h.bind.map _
  | put key value overwrite => exact h.bind.map _
  | del key => exact h.bind.map _
  | keys limit start reverse => exact (hscan limit _).map _
  | items limit start reverse => exact (hscan limit _).map _
  | envStat => exact h.bind.map _
  | dbiDrop delete => exact h.bind
  | dbiSequence increment =>
    refine Fails.map ?_ _
    cases increment with
    | number x => exact (Looks.refuse _ _).fails fun _ => (Looks.refuse _ _).fails fun _ => h.bind
    | null => exact ⟨_, rfl⟩
    | other => exact ⟨_, rfl⟩

/-- A scan looks at the statistics first, if it has no limit. -/
theorem guardOver_addresses (hN : L.OpensNames N) (hr : Reachable L w)
    (hpath : w.pathAttr (.txn t) = some path) (hnames : names.run w = (.ok ns, w))
    (limit : NumberArg) :
    Triple (guardOver L limit t names) w
      (fun _ u => Addresses L N t ns.head? w u ∧ Reachable L u ∧ w.log <:+ u.log ∧
        u.pathAttr (.txn t) = w.pathAttr (.txn t))
      (fun _ u => Addresses L N t ns.head? w u) := by
  by_cases hnull : limit = .null
  swap
  · rw [guardOver, if_neg hnull]
    exact Triple.pure ⟨.inl rfl, hr, List.suffix_rfl, rfl⟩
  have I : Inv { lossy := true } w := hr.invariant (by simp)
  have hstat := mdbxTxnStat_addresses (t := t) hN hr ns
  have hnext := hr.entry (.txnStat (.txn t) ns)
  obtain ⟨hsound, -⟩ := Command.spec L (by simp) I (.txnStat (.txn t) ns)
  rw [Command.run, Prog.map_final] at hnext hsound
  rw [guardOver, if_pos hnull, envStatOver, bind_assoc]
  refine Triple.step hnames ?_
  rcases hrun : (mdbxTxnStat_ L (.txn t) ns).run w with ⟨x | stat, u⟩
  · rw [hrun] at hstat
    exact Triple.stopped (Front.call_error hrun) hstat
  rw [hrun] at hstat hnext hsound
  refine Triple.step (Front.call_ok hrun) ?_
  by_cases hmany : mdbxScanMax.lt (entriesOf stat) = true
  · exact Triple.error (Front.refuse_run hmany) hstat
  · refine Triple.ok (Front.refuse_pass hmany) ⟨hstat, hnext, hsound.later.log, ?_⟩
    obtain ⟨s, hs, -⟩ := Option.map_eq_some_iff.mp hpath
    exact hsound.later.txnPath (I.fresh.txnSexp hs)

/-- A use works on the database that it is given the name of. -/
theorem DbUse.given_addresses (hN : L.OpensNames N) (hr : Reachable L w)
    (hpath : w.pathAttr (.txn t) = some path)
    (hnames : ∀ u, u.pathAttr (.txn t) = w.pathAttr (.txn t) → names.run u = (.ok ns, u))
    (use : DbUse) : Addresses L N t ns.head? w ((use.given L t names).run w).2 := by
  have hcall : ∀ {γ : Type} (m : List Bytes → Pkg σ γ),
      Addresses L N t ns.head? w ((m ns).run w).2 → Addresses L N t ns.head? w
        ((names >>= fun ns => Front.call (m ns)).run w).2 := by
    intro γ m h
    rw [Prog.bind_ok (hnames w rfl)]
    exact h
  have hscan : ∀ limit values start reverse, Triple (do
      guardOver L limit t names
      let bound ← checkLimit L limit
      let ns ← names
      Front.call (mdbxScan_ L (.txn t) bound values ns start reverse)) w
      (fun _ => Addresses L N t ns.head? w) (fun _ => Addresses L N t ns.head? w) := by
    intro limit values start reverse
    refine Triple.bind (guardOver_addresses hN hr hpath (hnames w rfl) limit) ?_
    rintro - u ⟨hu, hreach, hlog, hsame⟩
    rcases checkLimit_looks (L := L) limit u with ⟨c, hc⟩ | ⟨bound, hbound⟩
    · exact Triple.stopped hc hu
    refine Triple.step hbound (Triple.step (hnames u hsame) (Triple.of_final ?_))
    exact hu.trans hr hreach hlog (mdbxScan_addresses hN hreach ns bound values start reverse)
  cases use with
  | get key =>
    rw [given, Prog.map_final]
    exact hcall _ (mdbxGet_addresses hN hr ns key)
  | put key value overwrite =>
    rw [given, Prog.map_final]
    exact hcall _ (mdbxPut_addresses hN hr ns key value overwrite)
  | del key =>
    rw [given, Prog.map_final]
    exact hcall _ (mdbxDel_addresses hN hr ns key)
  | keys limit start reverse =>
    rw [given, Prog.map_final]
    have hkeys := (hscan limit false start reverse).final
    rw [← Prog.map_final Prod.fst] at hkeys
    simp only [map_bind] at hkeys
    simpa only [map_eq_pure_bind] using hkeys
  | items limit start reverse =>
    rw [given, Prog.map_final]
    exact (hscan limit true start reverse).final
  | envStat =>
    rw [given, Prog.map_final]
    exact hcall _ (mdbxTxnStat_addresses hN hr ns)
  | dbiDrop delete => exact hcall _ (mdbxDbiDrop_addresses hN hr ns delete)
  | dbiSequence increment =>
    cases increment with
    | null => exact .inl rfl
    | other => exact .inl rfl
    | number x =>
      show Addresses L N t ns.head? w (((fun _ => ()) <$> do
        Front.refuse (x.isFinite = false ∨ x.lt (.ofNat 0) = true ∨ maxExactInteger.lt x = true)
          .badIncrement
        checkWhole x "increment"
        let ns ← names
        Front.call (mdbxDbiSequence_ L (.txn t) ns x)).run w).2
      rw [Prog.map_final]
      by_cases hbad : x.isFinite = false ∨ x.lt (.ofNat 0) = true ∨ maxExactInteger.lt x = true
      · rw [Prog.bind_error (Front.refuse_run hbad)]
        exact .inl rfl
      rw [Prog.bind_ok (Front.refuse_pass hbad), checkWhole]
      by_cases hwhole : x.isWhole = false
      · rw [Prog.bind_error (Front.refuse_run hwhole)]
        exact .inl rfl
      rw [Prog.bind_ok (Front.refuse_pass hwhole)]
      exact hcall _ (mdbxDbiSequence_addresses hN hr ns x)

end Functions

/-! ### Redirection -/

/-- Used as `db` in transactions of the path, the value is never redirected: `NULL` means main, and
anything else is refused with nothing done, or it is a handle for that path and what is done is on
the database that it names. -/
structure NotRedirected (S : Session) (db : DbValue) (path : String) : Prop where
  main : ∀ {σ : Type} {L : Platform σ} {N : Names σ}, L.OpensNames N → ∀ {w}, Reachable L w →
    ∀ {t}, w.pathAttr (.txn t) = some path → ∀ use : DbUse, db = .null →
      Addresses L N t none w ((use.perform L S t db).run w).2
  named : ∀ {σ : Type} {L : Platform σ} {N : Names σ}, L.OpensNames N → ∀ {w}, Reachable L w →
    ∀ {t}, w.pathAttr (.txn t) = some path → ∀ use : DbUse, db ≠ .null →
      Fails (use.perform L S t db) w ∨ ∃ name, Reads elementCalled S path db name ∧
        Addresses L N t (some (name.translated S)) w ((use.perform L S t db).run w).2

section Redirection

variable {S : Session} {db : DbValue} {path : String}

theorem not_redirected (hb : ¬ Borrowed S db path) : NotRedirected S db path where
  main := by
    rintro σ L N hN w hr t hpath use rfl
    have hnames : ∀ u : World σ, u.pathAttr (.txn t) = w.pathAttr (.txn t) →
        (dbNameOf S .null (.txn t) >>= nativeName S (use.access (.txn t))).run u = (.ok [], u) :=
      fun _ _ => rfl
    exact use.given_addresses hN hr hpath hnames
  named := by
    intro σ L N hN w hr t hpath use hne
    rcases dbNameOf_cases (S := S) hpath db with hnull | ⟨c, hc⟩ | ⟨name, hreads⟩
    · exact absurd hnull hne
    · exact .inl (DbUse.given_fails ⟨_, Prog.bind_error hc⟩ use)
    by_cases hmark : name.mark = .bytes
    · refine .inl (DbUse.given_fails ?_ use)
      rw [Fails, Prog.bind_ok (hreads.run hpath)]
      exact nativeName_fails hr hmark use
    · have hnames : ∀ u : World σ, u.pathAttr (.txn t) = w.pathAttr (.txn t) →
          (dbNameOf S db (.txn t) >>= nativeName S (use.access (.txn t))).run u =
            (.ok [name.translated S], u) := by
        intro u hu
        rw [Prog.bind_ok (hreads.run (hu.trans hpath)), nativeName, if_neg hmark]
        rfl
      exact .inr ⟨name, hreads.exact hmark hb, use.given_addresses hN hr hpath hnames⟩

/-- A library without named databases. -/
def bare : Platform Unit := Platform.scripted fun
  | .dbiOpen _ _ _ => some Status.notFound
  | _ => some Status.success

/-- Nothing is open in it. -/
def bareNames : Names Unit := ⟨fun _ _ _ => none⟩

theorem bare_opensNames : bare.OpensNames bareNames where
  injective := by
    intro s p name name' dbi h
    cases h
  opens := by
    rintro s p name flags r hcall hrc
    obtain rfl := Except.ok.inj hcall
    cases hrc
  deletes := by
    intro s p dbi r hcall hrc name
    simp [bareNames]
  fails := fun _ _ => rfl
  others := fun _ _ _ => rfl
  grows _ := rfl
  collects _ := rfl

/-- An environment is opened by the path, and a write transaction begun on it. -/
def beginOn (path : String) : List Event :=
  [.entry (.envOpen path "key" false true (.ofNat 0) (.ofNat 0) (.ofNat 0) 0 []),
    .entry (.txnBegin (.env 0) true [])]

def begunOn (path : String) : World Unit := (World.start () 1).after bare (beginOn path)

theorem begunOn_reachable (path : String) : Reachable bare (begunOn path) :=
  ⟨(), 1, World.after_steps ⟨trivial, trivial, trivial⟩⟩

/-- The environment is opened with sizes of zero. -/
theorem begunOn_sizes (path : String) : begunOn path =
    (Event.entry (.txnBegin (.env 0) true [])).next bare
      ((openHandle bare path "key" false 0 0 0 0 0).run (World.start () 1)).2 := by
  have hzero := Nat.zero_le (2 ^ 53)
  have hmap : 0 ≤ maxWhole bare := Nat.zero_le _
  have hopen : (mdbxEnvOpen_ bare path "key" false true (.ofNat 0) (.ofNat 0) (.ofNat 0) 0 []).run
      (World.start () 1) = (openHandle bare path "key" false 0 0 0 0 0).run (World.start () 1) := by
    rw [mdbxEnvOpen_, Prog.bind_ok (show (envFlagsFromNames []).run _ = (.ok 0, _) from rfl),
      Prog.bind_ok (refuse_pass (not_not.mpr (ofNat_le_exactInteger hzero))),
      Prog.bind_ok (refuse_pass (not_not.mpr (ofNat_le_native hmap))),
      Prog.bind_ok (refuse_pass (not_not.mpr (ofNat_le_exactInteger hzero))),
      Prog.bind_ok (show (refuseOpen path "key").run _ = (.ok (), _) from rfl), orZero_ofNat hzero,
      Prog.bind_ok (narrow_exact hzero (by norm_num) _),
      Prog.bind_ok (narrow_exact hzero (by norm_num) _),
      Prog.bind_ok (narrow_exact hzero (hmap.trans_lt (maxWhole_lt_intptr bare)) _)]
    rfl
  rw [← hopen]
  exact congrArg (fun w => (Event.entry (.txnBegin (.env 0) true [])).next bare w)
    (Prog.map_final Answer.object _ _)

set_option maxRecDepth 10000 in
theorem begunOn_path (path : String) : (begunOn path).pathAttr (.txn 1) = some path := by
  rw [begunOn_sizes]
  with_unfolding_all rfl

set_option maxRecDepth 10000 in
/-- A read of a database that there is not. -/
theorem begunOn_get (path : String) (key name : Bytes) :
    ((mdbxGet_ bare (.txn 1) key [name]).run (begunOn path)).2.log.head? =
      some ⟨1, .dbiOpen ⟨0, 1⟩ (some name) 0, .returned Status.notFound⟩ := by
  rw [begunOn_sizes]
  with_unfolding_all rfl

set_option maxRecDepth 10000 in
theorem begunOn_log (path : String) : (begunOn path).log.head? =
    some ⟨1, .txnBegin ⟨0, 1⟩ 0, .returned Status.success⟩ := by
  rw [begunOn_sizes]
  with_unfolding_all rfl

/-- What is borrowed is worked on. -/
theorem Borrowed.redirected (hb : Borrowed S db path) : ¬ NotRedirected S db path := by
  intro h
  have hnot : ∀ name, ¬ Reads elementCalled S path db name := fun _ => hb.not_exact
  obtain ⟨classes, elements, name, rfl, hreads, hmark, -⟩ := hb
  have hpath := begunOn_path path
  rcases h.named bare_opensNames (begunOn_reachable path) hpath (.get []) (by simp) with
    ⟨x, hx⟩ | ⟨name', hexact, -⟩
  · have hnames : (dbNameOf S (.list classes elements) (.txn 1) >>=
        nativeName S (DbUse.access (.txn 1) (.get []))).run (begunOn path) =
          (.ok [name.translated S], begunOn path) := by
      rw [Prog.bind_ok (hreads.run hpath), nativeName, if_neg hmark]
      rfl
    have hworld := congrArg Prod.snd hx
    rw [DbUse.perform, DbUse.given, Prog.map_final, Prog.bind_ok hnames] at hworld
    have hget := begunOn_get path [] (name.translated S)
    have hsame : ((mdbxGet_ bare (.txn 1) [] [name.translated S]).run (begunOn path)).2 =
        begunOn path := hworld
    rw [hsame, begunOn_log] at hget
    cases hget
  · exact hnot name' hexact

/-- The `db` argument is never redirected, unless it is a list without an element called exactly
`name` or exactly `path` that `$` reads as a handle all the same. -/
theorem db_not_redirected (S : Session) (db : DbValue) (path : String) :
    NotRedirected S db path ↔ ¬ Borrowed S db path :=
  ⟨fun h hb => hb.redirected h, not_redirected⟩

end Redirection

/-- A handle made by hand, with the name misspelled. -/
def misspelt : List (Bytes × Element) :=
  [(Utf8.encode "named".toList, .strings [some (.of sampleName .unknown (by decide))] true),
    (pathField, .strings [some (pathString "db")] true)]

/-- With `named` for `name`, a record is written to the database. -/
theorem misspelt_redirected :
    elementCalled misspelt nameField = none ∧
      ¬ NotRedirected utf8Session (.list ["mdbx_dbi"] misspelt) "db" ∧
      Reachable (stock 1 0) (stockBegun 1 0) ∧
      (((DbUse.put [107] [118] true).perform (stock 1 0) utf8Session 1
        (.list ["mdbx_dbi"] misspelt)).run (stockBegun 1 0)).1 = .ok () ∧
      (((DbUse.put [107] [118] true).perform (stock 1 0) utf8Session 1
        (.list ["mdbx_dbi"] misspelt)).run (stockBegun 1 0)).2.log.head? =
          some ⟨1, .put ⟨0, 1⟩ 1 [107] [118] 0, .returned Status.success⟩ := by
  refine ⟨by decide +kernel, Borrowed.redirected ?_, stockBegun_reachable 1 0, by decide +kernel,
    by decide +kernel⟩
  refine ⟨["mdbx_dbi"], misspelt, .of sampleName .unknown (by decide), rfl, ?_, by decide +kernel,
    by decide +kernel⟩
  have hname : singleString (dollar misspelt nameField) =
      some (.of sampleName .unknown (by decide), true) := by decide +kernel
  have hpath : singleString (dollar misspelt pathField) = some (pathString "db", true) := by
    decide +kernel
  exact .list (by decide) hname hpath (by decide +kernel)

end Mdbx
