import Mdbx.Front
import Mdbx.Registry
import Mdbx.Scan

/-! `mdbx_keys` and `mdbx_items`: the first records of a database in the direction asked for, or a
condition once something has gone wrong. -/

namespace Mdbx

open ProofKit

variable {σ : Type}

/-! ### Limits -/

section Limits

variable (L : Platform σ)

/-- The largest whole number that `check_limit` takes. -/
def maxWhole : ℕ := if L.wide then 2 ^ 53 else 2 ^ 31 - 1

theorem maxWhole_le : maxWhole L ≤ 2 ^ 53 := by
  unfold maxWhole
  split <;> omega

theorem maxWhole_lt : maxWhole L < sizeBound L := by
  unfold maxWhole sizeBound
  split <;> omega

theorem maxNativeInteger_whole : maxNativeInteger L = .ofNat (maxWhole L) := by
  unfold maxNativeInteger maxWhole maxExactInteger
  split <;> rfl

/-- How many records a limit asks for: all of them, or the first so many. -/
inductive Asks : NumberArg → Option ℕ → Prop where
  | null : Asks .null none
  | inf : Asks (.number (.inf false)) none
  | whole (n : ℕ) (h : n ≤ maxWhole L) : Asks (.number (.ofNat n)) (some n)

variable {L} {limit : NumberArg} {asked : Option ℕ}

theorem Asks.of_inf (h : Asks L (.number (.inf false)) asked) : asked = none := by
  generalize hx : NumberArg.number (.inf false) = limit at h
  cases h with
  | null => rfl
  | inf => rfl
  | whole n hn =>
    rw [Double.ofNat_exact (hn.trans (maxWhole_le L))] at hx
    cases hx

/-- No limit is a negative number, which a scan reads as the largest one. -/
theorem noLimit_spec : noLimit.lt (.ofNat 0) = true ∧ noLimit.le (maxNativeInteger L) = true := by
  have hone : Representable (-1) := ⟨-1, 0, by norm_num, by norm_num, by norm_num, by norm_num⟩
  have hno : noLimit = .finite (-1) hone := Double.ofRat_of_representable hone
  have hneg : (-1 : ℚ) ≤ (maxWhole L : ℚ) := by
    have : (0 : ℚ) ≤ (maxWhole L : ℚ) := Nat.cast_nonneg _
    linarith
  rw [hno, maxNativeInteger_whole, Double.ofNat_exact (Nat.zero_le _),
    Double.ofNat_exact (maxWhole_le L)]
  simp [Double.lt, Double.le, hneg]

/-- What `check_limit` makes of a limit, and `mdbx_scan_` of that. -/
theorem Asks.bound (h : Asks L limit asked) :
    ∃ bound : Double, (∀ w, (checkLimit L limit).run w = (.ok bound, w)) ∧
      bound.le (maxNativeInteger L) = true ∧
      ∀ w, (scanLimit L bound).run w = (.ok (asked.getD (sizeBound L - 1)), w) := by
  obtain ⟨hneg, hle⟩ := noLimit_spec (L := L)
  have hno : ∀ w, (scanLimit L noLimit).run w = (.ok (sizeBound L - 1), w) := fun w => by
    rw [scanLimit, if_pos hneg]
    rfl
  cases h with
  | null => exact ⟨noLimit, fun _ => rfl, hle, hno⟩
  | inf =>
    refine ⟨noLimit, fun w => ?_, hle, hno⟩
    have hpos : (Double.inf false).lt (.ofNat 0) = false := by
      rw [Double.ofNat_exact (Nat.zero_le _)]
      rfl
    simp [checkLimit, Front.refuse, hpos]
  | whole n hn =>
    have hexact : n ≤ 2 ^ 53 := hn.trans (maxWhole_le L)
    have hsmall : (Double.ofNat n).lt (.ofNat 0) = false := by
      simp [Double.ofNat_lt hexact (Nat.zero_le _)]
    have hlarge : (maxNativeInteger L).lt (.ofNat n) = false := by
      simp [maxNativeInteger_whole, Double.ofNat_lt (maxWhole_le L) hexact, hn]
    refine ⟨.ofNat n, fun w => ?_, ?_, fun w => ?_⟩
    · have hnan : Double.ofNat n ≠ .nan := by simp [Double.ofNat_exact hexact]
      have hinf : Double.ofNat n ≠ .inf false := by simp [Double.ofNat_exact hexact]
      simp [checkLimit, checkWhole, Front.refuse, hsmall, hlarge, hnan, hinf,
        Double.isWhole_ofNat hexact]
    · rw [maxNativeInteger_whole, Double.ofNat_le hexact (maxWhole_le L)]
      simpa using hn
    · have hconv : (Double.ofNat n).toUnsigned (sizeBound L) = some n := by
        rw [Double.ofNat_exact hexact]
        exact Double.toUnsigned_natCast (hn.trans_lt (maxWhole_lt L)) _
      rw [scanLimit, if_neg (by simp [hsmall]), narrow_run hconv]
      rfl

/-- `check_limit` takes no other limits. -/
theorem checkLimit_asks {w w' : World σ} {bound : Double}
    (h : (checkLimit L limit).run w = (.ok bound, w')) : ∃ asked, Asks L limit asked := by
  cases limit with
  | null => exact ⟨none, .null⟩
  | other => cases h
  | number x =>
    rw [checkLimit] at h
    by_cases hbad : x = .nan ∨ x.lt (.ofNat 0) = true
    · rw [Prog.bind_error (Front.refuse_run hbad)] at h
      cases h
    rw [Prog.bind_ok (Front.refuse_pass hbad)] at h
    obtain ⟨hnan, hneg⟩ := not_or.mp hbad
    rcases x with _ | ⟨_ | _⟩ | ⟨q, hq⟩
    · exact absurd rfl hnan
    · exact ⟨none, .inf⟩
    · simp [Double.ofNat_exact, Double.lt] at hneg
    · rw [if_neg (by simp), checkWhole] at h
      by_cases hwhole : (Double.finite q hq).isWhole = false
      · rw [Prog.bind_error (Front.refuse_run hwhole)] at h
        cases h
      rw [Prog.bind_ok (Front.refuse_pass hwhole)] at h
      by_cases hlarge : (maxNativeInteger L).lt (.finite q hq) = true
      · rw [Prog.bind_error (Front.refuse_run hlarge)] at h
        cases h
      rw [Double.ofNat_exact (Nat.zero_le _)] at hneg
      rw [maxNativeInteger_whole, Double.ofNat_exact (maxWhole_le L)] at hlarge
      obtain ⟨n, rfl⟩ := Double.exists_nat_of_isWhole (by simpa using hwhole)
        (by simpa [Double.lt] using hneg)
      have hn : n ≤ maxWhole L := by
        have : (n : ℚ) ≤ (maxWhole L : ℚ) := by simpa [Double.lt] using hlarge
        exact_mod_cast this
      have hexact := Double.ofNat_exact (hn.trans (maxWhole_le L))
      rw [← hexact]
      exact ⟨some n, .whole n hn⟩

end Limits

/-! ### The records that a limit asks for -/

/-- The first records of a list, or all of them. -/
def wanted {α : Type} (asked : Option ℕ) (l : List α) : List α :=
  match asked with
  | none => l
  | some n => l.take n

/-- How many moves a scan makes over `len` records: none for a limit of zero, and otherwise the
approach to the first record and one move for each further one, up to the limit or past the end. -/
def moves (asked : Option ℕ) (approach len : ℕ) : ℕ :=
  match asked with
  | none => approach + len
  | some 0 => 0
  | some (n + 1) => approach + min n len

/-- How a call ends that lists records: with the answer, by so many moves and without a fault, or by
a condition after one. -/
inductive Lists {K α : Type} [LinearOrder K] (T : Tables σ K) (answer : α) (gets : ℕ)
    (w : World σ) : Except Signal α → World σ → Prop where
  | returned (lib : σ) (new : List Call) (quiet : Quiet T w.lib lib new)
      (hgets : new.countP Call.isGet = gets) :
    Lists T answer gets w (.ok answer) (w.advanced lib new)
  | raised (c : Condition) (w' : World σ) (new : List Call) (hlog : w'.log = new ++ w.log)
      (faulted : Faulted T w.lib w'.lib new) :
    Lists T answer gets w (.error (.native (.stop c))) w'

section Entry

variable {L : Platform σ} {w w₀ w₁ : World σ} {txn : Sexp} {db : DbArg} {limit : NumberArg}

/-- What the R functions and the entry points make of their first arguments: `txn` is the
transaction `t`, and `db` a database of its environment, which `ensure_dbi` resolves to `dbi`. -/
structure Resolves (L : Platform σ) (txn : Sexp) (db : DbArg) (w : World σ) (names : List Bytes)
    (t : TxnRef) (p : TxnPtr) (dbi : Dbi) (w₁ : World σ) : Prop where
  named : (dbName db txn).run w = (.ok names, w)
  accepted : (txnFromSexp txn).run w = (.ok t, w)
  resolved : (ensureDbi L t names).run w = (.ok dbi, w₁)
  pointer : (w₁.txns t).bind TxnHandle.txn = some p

/-- An accepted transaction is only looked at. -/
theorem txnFromSexp_world {lossy : Bool} (I : Inv { lossy } w) (x : Sexp) :
    ((txnFromSexp x).run w).2 = w := by
  rcases txnFromSexp_run I.graph x with ⟨c, hr⟩ | ⟨_, _, _, _, _, -, -, -, hr, -⟩ <;> rw [hr]

/-- `db_name` only looks. -/
theorem dbName_world (db : DbArg) (txn : Sexp) (w : World σ) : ((dbName db txn).run w).2 = w := by
  rcases db with _ | ⟨_ | name, _ | path⟩ | _ <;> try rfl
  rw [dbName, Prog.run_get_bind]
  by_cases hother : w.pathAttr txn ≠ some path
  · rw [Prog.bind_error (Front.refuse_run hother)]
  · rw [Prog.bind_ok (Front.refuse_pass hother)]
    rfl

/-- `db_name` depends on the path that the transaction carries. -/
theorem dbName_same {w' : World σ} {txn : Sexp} (h : w'.pathAttr txn = w.pathAttr txn)
    (db : DbArg) : ((dbName db txn).run w').1 = ((dbName db txn).run w).1 := by
  rcases db with _ | ⟨_ | name, _ | path⟩ | _ <;> try rfl
  rw [dbName, Prog.run_get_bind, Prog.run_get_bind, h]
  by_cases hother : w.pathAttr txn ≠ some path
  · rw [Prog.bind_error (Front.refuse_run hother), Prog.bind_error (Front.refuse_run hother)]
  · rw [Prog.bind_ok (Front.refuse_pass hother), Prog.bind_ok (Front.refuse_pass hother)]
    rfl

/-- The guard calls an entry point at most. -/
theorem guardNull_reachable (h : Reachable L w) (limit : NumberArg) (txn : Sexp) (db : DbArg) :
    Triple (guardNull L limit txn db) w (fun _ w' => Reachable L w')
      fun _ w' => Reachable L w' := by
  rw [guardNull]
  split
  swap
  · exact Triple.pure h
  rw [guardUnbounded]
  refine Triple.bind (Q := fun _ w' => Reachable L w') ?_ fun _ w' h' => ?_
  · cases txn with
    | env _ => exact h
    | other => exact h
    | txn x =>
      refine Triple.bind (Q := fun _ w' => w' = w) ((Triple.of_final (dbName_world db _ w)).mono
        (fun _ _ h => h) fun _ _ heq => heq ▸ h) ?_
      rintro names _ rfl
      refine Triple.mapExit (Triple.of_final ?_)
      have hstep := h.entry (.txnStat (.txn x) names)
      rwa [Command.run, Prog.map_final] at hstep
  · rw [Front.refuse]
    split
    · exact h'
    · exact h'

variable {K : Type} [LinearOrder K] {T : Tables σ K} {names : List Bytes} {t : TxnRef} {p : TxnPtr}
  {dbi : Dbi} {asked : Option ℕ}

/-- The entry point under both functions, given a limit that `check_limit` takes. -/
theorem Resolves.scans (C : L.Cursors T) (h : Reachable L w)
    (R : Resolves L txn db w names t p dbi w₁) (A : Asks L limit asked) (values : Bool)
    (start : Option Bytes) (reverse : Bool) :
    ∃ bound, (checkLimit L limit).run w = (.ok bound, w) ∧
      Lists T (((wanted asked ((T.table w₁.lib p dbi).listing reverse (start.map T.rank))).map
            Prod.fst),
          if values then
            (wanted asked ((T.table w₁.lib p dbi).listing reverse (start.map T.rank))).map Prod.snd
          else [])
        (moves asked (approach (T.table w₁.lib p dbi) reverse (start.map T.rank))
          ((T.table w₁.lib p dbi).listing reverse (start.map T.rank)).length) w₁
        ((Front.call (mdbxScan_ L txn bound values names start reverse)).run w).1
        ((Front.call (mdbxScan_ L txn bound values names start reverse)).run w).2 := by
  obtain ⟨bound, hbound, hle, hn⟩ := A.bound
  refine ⟨bound, hbound w, ?_⟩
  have I : Inv { lossy := true } w := h.invariant (by simp)
  have hscan := mdbxScan_scans C I R.accepted R.resolved hle (hn w₁) values reverse start R.pointer
  generalize hrest : (T.table w₁.lib p dbi).listing reverse (start.map T.rank) = rest at hscan
  have hfits : rest.length + 1 < sizeBound L := by
    have hle := (T.table w₁.lib p dbi).length_listing_le reverse (start.map T.rank)
    have := C.fits w₁.lib p dbi
    rw [hrest] at hle
    omega
  rcases hr : (mdbxScan_ L txn bound values names start reverse).run w with ⟨r, w'⟩
  rw [hr] at hscan
  cases hscan with
  | raised c w' new hlog faulted =>
    rw [Front.call_error hr]
    exact .raised c w' new hlog faulted
  | returned lib new quiet none some =>
    rw [Front.call_ok hr]
    have hwanted : rest.take (asked.getD (sizeBound L - 1)) = wanted asked rest := by
      cases asked with
      | none => exact List.take_of_length_le (by simp only [Option.getD_none]; omega)
      | some n => rfl
    have hgets : new.countP Call.isGet =
        moves asked (approach (T.table w₁.lib p dbi) reverse (start.map T.rank)) rest.length := by
      rcases asked with _ | _ | n
      · simp only [Option.getD_none] at some
        have hmoves := some (by omega)
        simp only [moves]
        omega
      · exact none rfl
      · have hmoves := some (Nat.succ_pos n)
        simp only [Option.getD_some] at hmoves
        simp only [moves]
        omega
    rw [hwanted]
    exact .returned lib new quiet hgets

/-- `mdbx_keys`, past the guard. -/
theorem Resolves.keys (C : L.Cursors T) (h : Reachable L w₀)
    (hguard : (guardNull L limit txn db).run w = (.ok (), w₀))
    (R : Resolves L txn db w₀ names t p dbi w₁) (A : Asks L limit asked) (start : Option Bytes)
    (reverse : Bool) :
    Lists T
      ((wanted asked ((T.table w₁.lib p dbi).listing reverse (start.map T.rank))).map Prod.fst)
      (moves asked (approach (T.table w₁.lib p dbi) reverse (start.map T.rank))
        ((T.table w₁.lib p dbi).listing reverse (start.map T.rank)).length) w₁
      ((mdbxKeys L txn limit db start reverse).run w).1
      ((mdbxKeys L txn limit db start reverse).run w).2 := by
  obtain ⟨bound, hbound, hlists⟩ := R.scans C h A false start reverse
  rw [mdbxKeys, Prog.bind_ok hguard, Prog.bind_ok hbound, Prog.bind_ok R.named]
  rcases hr : (Front.call (mdbxScan_ L txn bound false names start reverse)).run w₀ with ⟨r, w'⟩
  rw [hr] at hlists
  cases hlists with
  | returned lib new quiet hgets =>
    rw [Prog.bind_ok hr]
    exact .returned lib new quiet hgets
  | raised c w' new hlog faulted =>
    rw [Prog.bind_error hr]
    exact .raised c w' new hlog faulted

/-- `mdbx_items`, past the guard. -/
theorem Resolves.items (C : L.Cursors T) (h : Reachable L w₀)
    (hguard : (guardNull L limit txn db).run w = (.ok (), w₀))
    (R : Resolves L txn db w₀ names t p dbi w₁) (A : Asks L limit asked) (start : Option Bytes)
    (reverse : Bool) :
    Lists T
      ((wanted asked ((T.table w₁.lib p dbi).listing reverse (start.map T.rank))).map Prod.fst,
        (wanted asked ((T.table w₁.lib p dbi).listing reverse (start.map T.rank))).map Prod.snd)
      (moves asked (approach (T.table w₁.lib p dbi) reverse (start.map T.rank))
        ((T.table w₁.lib p dbi).listing reverse (start.map T.rank)).length) w₁
      ((mdbxItems L txn limit db start reverse).run w).1
      ((mdbxItems L txn limit db start reverse).run w).2 := by
  obtain ⟨bound, hbound, hlists⟩ := R.scans C h A true start reverse
  rw [mdbxItems, Prog.bind_ok hguard, Prog.bind_ok hbound, Prog.bind_ok R.named]
  simpa using hlists

/-- `mdbx_keys` and `mdbx_items` return the first records that the limit asks for of the listing
from the start on, or raise once something has gone wrong. -/
theorem Reachable.listings (C : L.Cursors T) (h : Reachable L w)
    (hguard : (guardNull L limit txn db).run w = (.ok (), w₀))
    (R : Resolves L txn db w₀ names t p dbi w₁) (A : Asks L limit asked) (start : Option Bytes)
    (reverse : Bool) :
    let rest := (T.table w₁.lib p dbi).listing reverse (start.map T.rank)
    let gets := moves asked (approach (T.table w₁.lib p dbi) reverse (start.map T.rank)) rest.length
    Lists T ((wanted asked rest).map Prod.fst) gets w₁
        ((mdbxKeys L txn limit db start reverse).run w).1
        ((mdbxKeys L txn limit db start reverse).run w).2 ∧
      Lists T ((wanted asked rest).map Prod.fst, (wanted asked rest).map Prod.snd) gets w₁
        ((mdbxItems L txn limit db start reverse).run w).1
        ((mdbxItems L txn limit db start reverse).run w).2 := by
  intro rest gets
  have h₀ : Reachable L w₀ := by
    have hkeeps := guardNull_reachable h limit txn db
    rwa [Triple, hguard] at hkeeps
  exact ⟨R.keys C h₀ hguard A start reverse, R.items C h₀ hguard A start reverse⟩

/-- What `mdbx_keys` returns are the keys of some listing that its arguments ask for. -/
theorem mdbxKeys_returned (C : L.Cursors T) (h : Reachable L w) {start : Option Bytes}
    {reverse : Bool} {ks : List Bytes}
    (hr : (mdbxKeys L txn limit db start reverse).run w = (.ok ks, w₁)) :
    ∃ w₀ names t p dbi w₂ asked, (guardNull L limit txn db).run w = (.ok (), w₀) ∧
      Resolves L txn db w₀ names t p dbi w₂ ∧ Asks L limit asked ∧
      ks = (wanted asked ((T.table w₂.lib p dbi).listing reverse (start.map T.rank))).map
        Prod.fst := by
  have hends := hr
  obtain ⟨⟨⟩, w₀, hguard, hrest⟩ := Prog.of_bind_ok hends
  have h₀ : Reachable L w₀ := by
    have hkeeps := guardNull_reachable h limit txn db
    rwa [Triple, hguard] at hkeeps
  obtain ⟨bound, w', hlimit, hdb⟩ := Prog.of_bind_ok hrest
  obtain ⟨asked, A⟩ := checkLimit_asks hlimit
  obtain ⟨bound', hbound, hle, -⟩ := A.bound
  rw [hbound] at hlimit
  cases hlimit
  obtain ⟨names, w', hnames, hcall⟩ := Prog.of_bind_ok hdb
  have hw := dbName_world db txn w₀
  rw [hnames] at hw
  obtain rfl : w' = w₀ := hw
  obtain ⟨found, w₃, hfound, -⟩ := Prog.of_bind_ok hcall
  have hscan := Prog.of_mapExit_ok hfound
  rw [mdbxScan_, Prog.bind_ok (refuse_pass (not_not.mpr hle))] at hscan
  obtain ⟨t, w₄, hacc, hresolve⟩ := Prog.of_bind_ok hscan
  obtain ⟨dbi, w₂, hdbi, -⟩ := Prog.of_bind_ok hresolve
  have I : Inv { lossy := true } w' := h₀.invariant (by simp)
  have hsame := txnFromSexp_world I txn
  rw [hacc] at hsame
  obtain rfl : w₄ = w' := hsame
  obtain ⟨e, -, k, -, hk, htxn, -, -⟩ := I.resolved hacc hdbi
  have R : Resolves L txn db w₄ names t ⟨e, t⟩ dbi w₂ :=
    ⟨hnames, hacc, hdbi, by rw [hk.at_, Option.bind_some, htxn]⟩
  refine ⟨w₄, names, t, ⟨e, t⟩, dbi, w₂, asked, hguard, R, A, ?_⟩
  have hlists := R.keys C h₀ hguard A start reverse
  rw [hr] at hlists
  cases hlists
  rfl

end Entry

/-! ### A library with two records -/

/-- The records of a library whose only database holds two. -/
def shelfTable : Table fun r : Record => r.1 where
  records := [([97], [1]), ([98], [2])]
  ascending := by decide

def sampleByte : Byte := 115

/-- The name of a database. -/
def sampleName : Bytes := [sampleByte]

/-- Where an operation takes a cursor of that database, unless the cursor is nowhere. -/
def shelfMove (pos : Option ℕ) : CursorOp → Option (Option ℕ)
  | .first => some shelfTable.first
  | .last => some shelfTable.last
  | .next => pos.map (shelfTable.step false)
  | .prev => pos.map (shelfTable.step true)
  | .setRange key => some (shelfTable.seek key)

def shelfCall (s : Dbi × Option ℕ) : (c : NativeCall) → Reply c × (Dbi × Option ℕ)
  | .cursorOpen _ dbi => (⟨Status.success, (0 : ℕ)⟩, (dbi, none))
  | .cursorGet _ op =>
    match shelfMove s.2 op with
    | some (some i) => (⟨Status.success, shelfTable.records.getD i ([], [])⟩, (s.1, some i))
    | some none => (⟨Status.notFound, ([], [])⟩, s)
    | none => (⟨22, ([], [])⟩, s)
  | .cmp _ _ a b => (⟨Status.success, if b < a then (1 : ℤ) else 0⟩, s)
  | c => (⟨Status.success, c.blank⟩, s)

/-- A library with one database of two records, read by cursors. -/
def shelf : Platform (Dbi × Option ℕ) where
  call c s := (.ok (shelfCall s c).1, (shelfCall s c).2)
  quiet _ _ _ := ⟨_, rfl⟩
  badAlloc s := (false, s)
  allocate s := (⟨[], false⟩, s)
  strerror _ := ""
  wide := true

def shelfTables : Tables (Dbi × Option ℕ) Bytes where
  rank := id
  table _ _ _ := shelfTable
  cursor s _ := if s.2.all (· < 2) then some s else none
  refused _ := 0

theorem shelfMove_eq {pos target : Option ℕ} {op : CursorOp}
    (h : op.Reaches shelfTables shelfTable pos target) : shelfMove pos op = some target := by
  cases h <;> rfl

/-- A cursor that stands in the table moves inside it. -/
theorem shelfMove_lt {pos : Option ℕ} {op : CursorOp} {i : ℕ} (hpos : pos.all (· < 2) = true)
    (h : shelfMove pos op = some (some i)) : i < 2 := by
  have hstep : ∀ reverse, pos.map (shelfTable.step reverse) = some (some i) → i < 2 := by
    intro reverse hmap
    obtain ⟨j, rfl, hj⟩ := Option.map_eq_some_iff.mp hmap
    exact shelfTable.step_lt (by simpa [shelfTable] using hpos) hj
  cases op with
  | first =>
    cases h
    decide
  | last =>
    cases h
    decide
  | next => exact hstep false h
  | prev => exact hstep true h
  | setRange key => exact (shelfTable.seek_some (Option.some.inj h)).1

/-- A cursor that the view shows is the one of the state. -/
theorem shelfTables_cursor {s : Dbi × Option ℕ} {c : CursorPtr} {dbi : Dbi} {pos : Option ℕ}
    (h : shelfTables.cursor s c = some (dbi, pos)) : s = (dbi, pos) ∧ pos.all (· < 2) = true := by
  simp only [shelfTables] at h
  split at h
  · obtain rfl := Option.some.inj h
    exact ⟨rfl, ‹_›⟩
  · cases h

theorem shelf_cursors : shelf.Cursors shelfTables where
  opens := by
    rintro s p dbi r - -
    exact ⟨rfl, rfl⟩
  hits := by
    rintro s c op dbi pos i r hs hop hr -
    have hmove := shelfMove_eq hop
    obtain ⟨rfl, hpos⟩ := shelfTables_cursor hs
    have hi := shelfMove_lt hpos hmove
    have hreply : shelfCall (dbi, pos) (.cursorGet c op) =
        (⟨Status.success, shelfTable.records.getD i ([], [])⟩, (dbi, some i)) := by
      simp only [shelfCall, hmove]
    obtain rfl := Except.ok.inj hr
    simp only [shelf, hreply]
    refine ⟨trivial, ?_, rfl, ?_⟩
    · show shelfTable.records[i]? = _
      rw [List.getD_eq_getElem?_getD]
      have : i < shelfTable.records.length := hi
      simp [this]
    · exact if_pos (decide_eq_true hi)
  misses := by
    rintro s c op dbi pos r hs hop hr -
    have hmove := shelfMove_eq hop
    obtain ⟨rfl, hpos⟩ := shelfTables_cursor hs
    have hreply : shelfCall (dbi, pos) (.cursorGet c op) =
        (⟨Status.notFound, ([], [])⟩, (dbi, pos)) := by
      simp only [shelfCall, hmove]
    obtain rfl := Except.ok.inj hr
    simp only [shelf, hreply]
    exact ⟨trivial, trivial, pos, hs⟩
  compares := by
    rintro s p dbi a b r hr
    obtain rfl := Except.ok.inj hr
    refine ⟨?_, rfl, rfl⟩
    show 0 < (if b < a then (1 : ℤ) else 0) ↔ b < a
    split <;> simp [*]
  grows s := ⟨rfl, rfl, rfl⟩
  closes := fun _ => rfl
  calls _ _ := rfl
  fits _ _ _ := (by decide : 2 + 1 < sizeBound shelf)

/-- A write transaction is open. -/
def shelfOpened : World (Dbi × Option ℕ) := (World.start (0, none) 1).after shelf openAndBegin

theorem shelfOpened_reachable : Reachable shelf shelfOpened :=
  ⟨(0, none), 1, World.after_steps (by decide +kernel)⟩

/-- `ensure_dbi` has resolved the main database. -/
def shelfResolved : World (Dbi × Option ℕ) := ((ensureDbi shelf 1 []).run shelfOpened).2

theorem shelfOpened_resolves :
    Resolves shelf (.txn 1) .null shelfOpened [] 1 ⟨0, 1⟩ 0 shelfResolved where
  named := rfl
  accepted := by
    have I : Inv { lossy := true } shelfOpened := shelfOpened_reachable.invariant (by simp)
    exact Prod.ext (by decide +kernel) (txnFromSexp_world I _)
  resolved := Prod.ext (by decide +kernel) rfl
  pointer := by decide +kernel

/-- A limit of one returns the first record of each direction. -/
theorem Reachable.listings_shelf :
    Lists shelfTables [[97]] 1 shelfResolved
        ((mdbxKeys shelf (.txn 1) (.number (.ofNat 1)) .null none false).run shelfOpened).1
        ((mdbxKeys shelf (.txn 1) (.number (.ofNat 1)) .null none false).run shelfOpened).2 ∧
      Lists shelfTables ([[98]], [[2]]) 1 shelfResolved
        ((mdbxItems shelf (.txn 1) (.number (.ofNat 1)) .null none true).run shelfOpened).1
        ((mdbxItems shelf (.txn 1) (.number (.ofNat 1)) .null none true).run shelfOpened).2 :=
  ⟨(shelfOpened_reachable.listings shelf_cursors rfl shelfOpened_resolves (.whole 1 (by decide))
      none false).1,
    (shelfOpened_reachable.listings shelf_cursors rfl shelfOpened_resolves (.whole 1 (by decide))
      none true).2⟩

/-- A whole number that is not below `max_native_integer` is refused. -/
theorem huge_limit_refused :
    shelf.Cursors shelfTables ∧ Reachable shelf shelfOpened ∧
      Resolves shelf (.txn 1) .null shelfOpened [] 1 ⟨0, 1⟩ 0 shelfResolved ∧
      (Double.ofNat (2 ^ 54)).isWhole = true ∧
      ((mdbxKeys shelf (.txn 1) (.number (.ofNat (2 ^ 54))) .null none false).run shelfOpened).1
        = .error (.stop (.limitTooLarge (.ofNat (2 ^ 53)))) :=
  ⟨shelf_cursors, shelfOpened_reachable, shelfOpened_resolves, by decide +kernel,
    by decide +kernel⟩

end Mdbx
