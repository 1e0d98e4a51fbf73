import Mdbx.Cache
import Mdbx.Listing

/-! The guard of `mdbx_keys` and `mdbx_items` without a limit: what it counts, and when that is what
the scan would return. -/

namespace Mdbx

open ProofKit

variable {σ K : Type} [LinearOrder K]

/-! ### What the statistics add up -/

/-- What each transaction sees: the records of the main database and of the named ones, and the
names of those that there are. -/
structure Contents (T : Tables σ K) where
  content : σ → TxnPtr → Option Bytes → Table fun r : Record => T.rank r.1
  named : σ → TxnPtr → List Bytes

section Contract

variable {T : Tables σ K} (V : Contents T)

/-- How many records a database has. -/
def Contents.count (s : σ) (p : TxnPtr) (name : Option Bytes) : ℕ :=
  (V.content s p name).records.length

/-- How many records main and the named databases have together. -/
def Contents.total (s : σ) (p : TxnPtr) : ℕ :=
  V.count s p none + ((V.named s p).map fun name => V.count s p (some name)).sum

/-- What the guard compares with `mdbx_scan_max`. -/
def Contents.counted (s : σ) (p : TxnPtr) : Option Bytes → ℕ
  | none => V.total s p
  | some name => V.count s p (some name)

/-- The promises of libmdbx about statistics: a cursor sees the records of the database that it was
opened on, opening a database changes no record, the statistics of a database count its records,
and those of the environment add up the records of main and of every named database. -/
structure Platform.Counts (L : Platform σ) (N : Names σ) : Prop where
  shows : ∀ {s p name dbi}, N.slot s p name = some dbi → T.table s p dbi = V.content s p name
  opens : ∀ s p name, V.content (L.call (.dbiOpen p name 0) s).2 = V.content s
  dbiStat : ∀ {s p name dbi r}, N.slot s p name = some dbi →
    (L.call (.dbiStat p dbi) s).1 = .ok r → r.rc = Status.success → r.out.entries = V.count s p name
  envStat : ∀ {s e p r}, (L.call (.envStatEx e (some p)) s).1 = .ok r → r.rc = Status.success →
    r.out.entries = V.total s p

end Contract

/-- Whether a call reads or writes a record. -/
def NativeCall.touchesRecords : NativeCall → Bool
  | get _ _ _ | put _ _ _ _ _ | del _ _ _ | cursorGet _ _ | drop _ _ _ => true
  | _ => false

/-- From `w` to `w'` no record is read or written, and the transaction `t` is accepted there. -/
structure Untouched (t : TxnRef) (w w' : World σ) : Prop where
  calls : ∃ new, w'.log = new ++ w.log ∧ ∀ c ∈ new, c.call.touchesRecords = false
  usable : (txnFromSexp (.txn t)).run w' = (.ok t, w')

section Counting

variable {L : Platform σ} {N : Names σ} {T : Tables σ K} {V : Contents T} (hN : L.OpensNames N)
  (hV : L.Counts V N) {w w₀ w₁ : World σ} {e : EnvRef} {t : TxnRef} {k : TxnHandle}
  {names : List Bytes} {dbi : Dbi} {stat : List (String × Double)}

/-- `ensure_dbi` has pointed the handle of the transaction `t` at the database `name`. -/
structure Addressed (N : Names σ) (V : Contents T) (w : World σ) (e : EnvRef) (t : TxnRef)
    (name : Option Bytes) (dbi : Dbi) (w₁ : World σ) : Prop where
  handle : ∃ h k, OpenEnv w₁ e h ∧ LiveTxn w₁ e t k ∧ k.txn = some ⟨e, t⟩ ∧ k.dbi = dbi
  inv : Inv { lossy := true } w₁
  slot : N.slot w₁.lib ⟨e, t⟩ name = some dbi
  content : V.content w₁.lib = V.content w.lib
  calls : ∃ new, w₁.log = new ++ w.log ∧ ∀ c ∈ new, c.call.touchesRecords = false
  objects : w₁.txnSexps = w.txnSexps

include hN hV in
theorem ensureDbi_addressed (hr : Reachable L w) (ht : LiveTxn w e t k)
    (hacc : (txnFromSexp (.txn t)).run w = (.ok t, w))
    (hdb : (ensureDbi L t names).run w = (.ok dbi, w₁)) :
    Addressed N V w e t names.head? dbi w₁ := by
  have I : Inv { lossy := true } w := hr.invariant (by simp)
  obtain ⟨h, he, -, -⟩ := I.graph.owner ht.at_ ht.owner
  have hends := ensureDbiNamed_run (L := L) he ht.at_ ht.owner (I.graph.txnPtr ht) names.head?
  have hnames := ensureDbiNamed_names hN (hr.caches hN) t names.head?
  have hrun : (ensureDbiNamed L t names.head?).run w = (.ok dbi, w₁) := hdb
  simp only [hrun] at hends
  rw [Triple, hrun] at hnames
  obtain ⟨C, k₁, hk₁, -, hcached⟩ := hnames
  obtain ⟨e', h', k', he', hk', htxn, hdbi, I₁⟩ := I.resolved hacc hdb
  obtain ⟨k'', R⟩ := hends.resolved
  obtain rfl : k' = k'' := Option.some.inj (hk'.at_ ▸ R.at_)
  obtain rfl : k' = k₁ := Option.some.inj (hk'.at_ ▸ hk₁)
  obtain rfl : e' = e := Option.some.inj (hk'.owner ▸ R.owner.trans ht.owner)
  refine ⟨⟨h', k', he', hk', htxn, hdbi⟩, I₁, ?_, ?_, ?_, R.txnSexps⟩
  · exact (C.sound hk'.at_ htxn (I₁.working hk')).slot hcached
  · cases hends with
    | cached _ _ hw =>
      rw [hw]
      rfl
    | opened r _ _ _ hw =>
      rw [hw]
      exact hV.opens _ _ _
  · cases hends with
    | cached _ _ hw =>
      rw [hw]
      exact ⟨[], rfl, by simp⟩
    | opened r _ _ _ hw =>
      rw [hw]
      exact ⟨[⟨w.pid, .dbiOpen ⟨e', t⟩ names.head? 0, .returned Status.success⟩], rfl, by
        simp [NativeCall.touchesRecords]⟩

theorem entriesOf_statList (s : Stat) : entriesOf (statList s) = .ofNat s.entries := rfl

/-- A call that touches no record, after others that touch none. -/
theorem Untouched.answered {h : EnvHandle} {s : TxnSexp} {c : NativeCall} {o : Outcome}
    (I : Inv { lossy := true } w₁) (he : OpenEnv w₁ e h) (ht : LiveTxn w₁ e t k)
    (hs : w₁.txnSexps t = some s) (haddr : s.addr = some t)
    (hcalls : ∃ new, w₁.log = new ++ w.log ∧ ∀ c ∈ new, c.call.touchesRecords = false)
    (hc : c.touchesRecords = false) : Untouched t w (w₁.answered L c o) := by
  obtain ⟨new, hlog, hnew⟩ := hcalls
  refine ⟨⟨⟨w₁.pid, c, o⟩ :: new, congrArg _ hlog, ?_⟩, ?_⟩
  · intro c' hc'
    rcases List.mem_cons.mp hc' with rfl | hc'
    · exact hc
    · exact hnew c' hc'
  · have G : Graph (w₁.answered L c o) := { I.graph with }
    exact txnFromSexp_live G hs haddr ⟨he.at_, he.env, he.healthy, he.pid⟩ ⟨ht.at_, ht.owner⟩

include hN hV in
/-- The statistics that the guard looks at, once they are there. -/
theorem mdbxTxnStat_counts (hr : Reachable L w) (ht : LiveTxn w e t k)
    (hstat : (mdbxTxnStat_ L (.txn t) names).run w = (.ok stat, w₀)) :
    entriesOf stat = .ofNat (V.counted w.lib ⟨e, t⟩ names.head?) ∧ Untouched t w w₀ := by
  have I : Inv { lossy := true } w := hr.invariant (by simp)
  obtain ⟨t', w', hacc, hrest⟩ := Prog.of_bind_ok hstat
  rcases txnFromSexp_run I.graph (.txn t) with
    ⟨c, hstop⟩ | ⟨e', h, _, k', s, ⟨⟩, hs, haddr, hr', he, hk⟩
  · rw [hstop] at hacc
    cases hacc
  rw [hr'] at hacc
  cases hacc
  obtain rfl : k' = k := Option.some.inj (hk.at_ ▸ ht.at_)
  obtain rfl : e' = e := Option.some.inj (hk.owner ▸ ht.owner)
  rw [Prog.bind_ok (derefTxn_run ht.at_)] at hrest
  have htxn := I.graph.txnPtr ht
  cases names with
  | nil =>
    have hstat' : (runStat L e' (some ⟨e', t⟩)).run w = (.ok stat, w₀) := by
      rw [if_pos rfl, ht.owner, nonNull_some, pure_bind, htxn] at hrest
      exact hrest
    rw [runStat, Prog.bind_ok (derefEnv_run he.at_), he.env, nonNull_some, pure_bind] at hstat'
    have hbody : (statCall L e' (some ⟨e', t⟩)).run w =
        (native L (.envStatEx e' (some ⟨e', t⟩)) >>= fun r => pure (r.rc, r.out)).run w := rfl
    rcases guard_call (poisonEnv e')
      (fun r : Reply (.envStatEx e' (some ⟨e', t⟩)) => ((r.rc, r.out) : Status × Stat)) hbody with
      ⟨r, hcall, hrun⟩ | ⟨info, x, hcall, hrun⟩
    swap
    · rw [Prog.bind_error hrun] at hstat'
      cases hstat'
    rw [Prog.bind_ok hrun] at hstat'
    obtain ⟨u, w', hcheck, hpure⟩ := Prog.of_bind_ok hstat'
    obtain ⟨hrc, rfl⟩ := of_check hcheck
    cases hpure
    refine ⟨?_, Untouched.answered I he ht hs haddr ⟨[], rfl, by simp⟩ rfl⟩
    rw [entriesOf_statList, hV.envStat hcall hrc]
    rfl
  | cons name rest =>
    rw [if_neg (by simp)] at hrest
    obtain ⟨dbi, w₁, hdb, hrest⟩ := Prog.of_bind_ok hrest
    have A := ensureDbi_addressed hN hV hr ht hr' hdb
    obtain ⟨h₁, k₁, he₁, ht₁, htxn₁, hdbi⟩ := A.handle
    have hbody : (dbiStatCall L t).run w₁ = (native L (.dbiStat ⟨e', t⟩ dbi) >>= fun r =>
        pure (r.rc, r.out)).run w₁ := by
      rw [dbiStatCall, current]
      simp only [bind_assoc]
      rw [Prog.bind_ok (derefTxn_run ht₁.at_), htxn₁, hdbi]
      rfl
    rcases guard_call (poisonTxn t)
      (fun r : Reply (.dbiStat ⟨e', t⟩ dbi) => ((r.rc, r.out) : Status × Stat)) hbody with
      ⟨r, hcall, hrun⟩ | ⟨info, x, hcall, hrun⟩
    swap
    · rw [Prog.bind_error hrun] at hrest
      cases hrest
    rw [Prog.bind_ok hrun] at hrest
    obtain ⟨u, w', hcheck, hpure⟩ := Prog.of_bind_ok hrest
    obtain ⟨hrc, rfl⟩ := of_check hcheck
    cases hpure
    refine ⟨?_, Untouched.answered A.inv he₁ ht₁ (A.objects ▸ hs) haddr A.calls rfl⟩
    rw [entriesOf_statList, hV.dbiStat A.slot hcall hrc, Contents.count, A.content]
    rfl

end Counting

/-! ### The guard -/

/-- The guard stopped an R function. -/
def Refuses {α : Type} (r : Except Signal α) : Prop := ∃ n, r = .error (.stop (.tooManyRecords n))

/-- The named database that a `db` argument means, or main. -/
def DbArg.name : DbArg → Option Bytes
  | .record r => r.name
  | _ => none

theorem mdbxScanMax_lt (n : ℕ) : mdbxScanMax.lt (.ofNat n) = decide (1000000 < n) := by
  rcases Nat.le_total n (2 ^ 53) with hn | hn
  · exact Double.ofNat_lt (by norm_num) hn
  · have hmax : mdbxScanMax = .finite ((1000000 : ℕ) : ℚ)
        (Double.representable_natCast (by norm_num)) :=
      Double.ofNat_exact (by norm_num)
    have hle := Double.le_ofNat hn
    have hlt : 1000000 < n := by omega
    rw [hmax, decide_eq_true hlt]
    rcases hx : Double.ofNat n with _ | ⟨_ | _⟩ | ⟨q, hq⟩
    · rw [hx] at hle
      cases hle
    · rfl
    · rw [hx] at hle
      cases hle
    · rw [hx] at hle
      have hbig : ((2 ^ 53 : ℕ) : ℚ) ≤ q := by simpa [Double.le] using hle
      have hsmall : ((1000000 : ℕ) : ℚ) < ((2 ^ 53 : ℕ) : ℚ) := by norm_num
      simpa [Double.lt] using hsmall.trans_le hbig

section Guard

variable {L : Platform σ} {w w₀ : World σ} {txn : Sexp} {db : DbArg} {stat : List (String × Double)}
  {n : ℕ}

theorem guardNull_refused (hstat : (mdbxEnvStat L txn db).run w = (.ok stat, w₀))
    (hn : entriesOf stat = .ofNat n) (hlt : 1000000 < n) :
    (guardNull L .null txn db).run w = (.error (.stop (.tooManyRecords (.ofNat n))), w₀) := by
  have hmax : mdbxScanMax.lt (entriesOf stat) = true := by
    rw [hn, mdbxScanMax_lt]
    exact decide_eq_true hlt
  rw [guardNull, if_pos rfl, guardUnbounded, Prog.bind_ok hstat, ← hn]
  exact Front.refuse_run hmax

theorem guardNull_passed (hstat : (mdbxEnvStat L txn db).run w = (.ok stat, w₀))
    (hn : entriesOf stat = .ofNat n) (hle : ¬ 1000000 < n) :
    (guardNull L .null txn db).run w = (.ok (), w₀) := by
  have hmax : ¬ mdbxScanMax.lt (entriesOf stat) = true := by
    rw [hn, mdbxScanMax_lt]
    simpa using hle
  rw [guardNull, if_pos rfl, guardUnbounded, Prog.bind_ok hstat]
  exact Front.refuse_pass hmax

/-- Nothing but the guard says that there are too many records. -/
theorem dbName_refuses (db : DbArg) (txn : Sexp) (w : World σ) :
    ¬ Refuses ((dbName db txn).run w).1 := by
  rintro ⟨n, h⟩
  rcases db with _ | ⟨_ | name, _ | path⟩ | _ <;> try cases h
  rw [dbName, Prog.run_get_bind] at h
  by_cases hother : w.pathAttr txn ≠ some path
  · rw [Prog.bind_error (Front.refuse_run hother)] at h
    cases h
  · rw [Prog.bind_ok (Front.refuse_pass hother)] at h
    cases h

theorem not_refuses_bind {α β : Type} {m : Front σ α} {f : α → Front σ β}
    (hm : ¬ Refuses (m.run w).1) (hf : ∀ a w', ¬ Refuses ((f a).run w').1) :
    ¬ Refuses ((m >>= f).run w).1 := by
  rcases hr : m.run w with ⟨x | a, w'⟩
  · rw [Prog.bind_error hr]
    rintro ⟨n, hx⟩
    cases hx
    exact hm ⟨n, by rw [hr]⟩
  · rw [Prog.bind_ok hr]
    exact hf a w'

theorem not_refuses_call {α : Type} (m : Pkg σ α) : ¬ Refuses ((Front.call m).run w).1 := by
  rintro ⟨n, h⟩
  rcases hr : m.run w with ⟨x | a, w'⟩
  · rw [Front.call_error hr] at h
    cases h
  · rw [Front.call_ok hr] at h
    cases h

theorem not_refuses_pure {α : Type} (a : α) : ¬ Refuses ((pure a : Front σ α).run w).1 := by
  rintro ⟨n, h⟩
  cases h

/-- `mdbx_keys` without a limit is refused just when the statistics count too many records. -/
theorem keys_refuses (hstat : (mdbxEnvStat L txn db).run w = (.ok stat, w₀))
    (hn : entriesOf stat = .ofNat n) (start : Option Bytes) (reverse : Bool) :
    Refuses ((mdbxKeys L txn .null db start reverse).run w).1 ↔ 1000000 < n := by
  by_cases hlt : 1000000 < n
  · refine ⟨fun _ => hlt, fun _ => ⟨.ofNat n, ?_⟩⟩
    rw [mdbxKeys, Prog.bind_error (guardNull_refused hstat hn hlt)]
  · refine ⟨fun h => absurd h ?_, fun h => absurd h hlt⟩
    rw [mdbxKeys, Prog.bind_ok (guardNull_passed hstat hn hlt)]
    refine not_refuses_bind (not_refuses_pure _) fun bound w₁ => ?_
    refine not_refuses_bind (dbName_refuses db txn w₁) fun names w₂ => ?_
    exact not_refuses_bind (not_refuses_call _) fun found w₃ => not_refuses_pure _

/-- The same of `mdbx_items`. -/
theorem items_refuses (hstat : (mdbxEnvStat L txn db).run w = (.ok stat, w₀))
    (hn : entriesOf stat = .ofNat n) (start : Option Bytes) (reverse : Bool) :
    Refuses ((mdbxItems L txn .null db start reverse).run w).1 ↔ 1000000 < n := by
  by_cases hlt : 1000000 < n
  · refine ⟨fun _ => hlt, fun _ => ⟨.ofNat n, ?_⟩⟩
    rw [mdbxItems, Prog.bind_error (guardNull_refused hstat hn hlt)]
  · refine ⟨fun h => absurd h ?_, fun h => absurd h hlt⟩
    rw [mdbxItems, Prog.bind_ok (guardNull_passed hstat hn hlt)]
    refine not_refuses_bind (not_refuses_pure _) fun bound w₁ => ?_
    exact not_refuses_bind (dbName_refuses db txn w₁) fun names w₂ => not_refuses_call _

/-- Where the guard refuses, both functions end at once. -/
theorem refused_world (hstat : (mdbxEnvStat L txn db).run w = (.ok stat, w₀))
    (hn : entriesOf stat = .ofNat n) (hlt : 1000000 < n) (start : Option Bytes) (reverse : Bool) :
    ((mdbxKeys L txn .null db start reverse).run w).2 = w₀ ∧
      ((mdbxItems L txn .null db start reverse).run w).2 = w₀ := by
  have hguard := guardNull_refused hstat hn hlt
  rw [mdbxKeys, Prog.bind_error hguard, mdbxItems, Prog.bind_error hguard]
  exact ⟨rfl, rfl⟩

/-- Where there are no statistics, both functions end as the attempt to get them did. -/
theorem stopped_world {x : Signal} (hstat : (mdbxEnvStat L txn db).run w = (.error x, w₀))
    (start : Option Bytes) (reverse : Bool) :
    (mdbxKeys L txn .null db start reverse).run w = (.error x, w₀) ∧
      (mdbxItems L txn .null db start reverse).run w = (.error x, w₀) := by
  have hguard : (guardNull L .null txn db).run w = (.error x, w₀) := by
    rw [guardNull, if_pos rfl, guardUnbounded, Prog.bind_error hstat]
  exact ⟨by rw [mdbxKeys, Prog.bind_error hguard], by rw [mdbxItems, Prog.bind_error hguard]⟩

theorem dbName_name {names : List Bytes} {w' : World σ}
    (h : (dbName db txn).run w = (.ok names, w')) : names.head? = db.name := by
  rcases db with _ | ⟨_ | name, _ | path⟩ | _
  · cases h
    rfl
  · cases h
  · cases h
  · cases h
  · rw [dbName, Prog.run_get_bind] at h
    by_cases hother : w.pathAttr txn ≠ some path
    · rw [Prog.bind_error (Front.refuse_run hother)] at h
      cases h
    · rw [Prog.bind_ok (Front.refuse_pass hother)] at h
      cases h
      rfl
  · cases h

end Guard

/-! ### What it counts -/

section Claim

variable {L : Platform σ} {N : Names σ} {T : Tables σ K} {V : Contents T} (hN : L.OpensNames N)
  (hC : L.Cursors T) (hV : L.Counts V N) {w w₀ : World σ} {e : EnvRef} {t : TxnRef} {k : TxnHandle}
  {db : DbArg} {stat : List (String × Double)}

include hN hV in
/-- The statistics that the guard asks for. -/
theorem mdbxEnvStat_counts (hr : Reachable L w) (ht : LiveTxn w e t k)
    (hstat : (mdbxEnvStat L (.txn t) db).run w = (.ok stat, w₀)) :
    entriesOf stat = .ofNat (V.counted w.lib ⟨e, t⟩ db.name) ∧ Untouched t w w₀ := by
  obtain ⟨names, w', hnames, hcall⟩ := Prog.of_bind_ok hstat
  have hw := dbName_world db (.txn t) w
  rw [hnames] at hw
  obtain rfl : w' = w := hw
  rw [← dbName_name hnames]
  exact mdbxTxnStat_counts hN hV hr ht (Prog.of_mapExit_ok hcall)

include hN hC hV in
/-- A scan of a whole database returns as many records as the database has. -/
theorem keys_length (hr : Reachable L w) (ht : LiveTxn w e t k) {reverse : Bool} {ks : List Bytes}
    (h : (mdbxKeys L (.txn t) (.number (.inf false)) db none reverse).run w = (.ok ks, w₀)) :
    ks.length = V.count w.lib ⟨e, t⟩ db.name := by
  obtain ⟨w', names, t', p, dbi, w₁, asked, hguard, R, A, rfl⟩ := mdbxKeys_returned hC hr h
  obtain rfl : w = w' := by
    rw [guardNull, if_neg (by simp)] at hguard
    cases hguard
    rfl
  obtain rfl := A.of_inf
  have I : Inv { lossy := true } w := hr.invariant (by simp)
  have hacc := R.accepted
  rcases txnFromSexp_run I.graph (.txn t) with ⟨c, hstop⟩ | ⟨_, _, _, _, _, ⟨⟩, -, -, hr', -, -⟩
  · rw [hstop] at hacc
    cases hacc
  rw [hr'] at hacc
  cases hacc
  have A := ensureDbi_addressed hN hV hr ht hr' R.resolved
  obtain ⟨h₁, k₁, -, ht₁, htxn, -⟩ := A.handle
  obtain rfl : p = ⟨e, t⟩ := by
    have hp := R.pointer
    rw [ht₁.at_, Option.bind_some, htxn] at hp
    exact (Option.some.inj hp).symm
  rw [List.length_map, hV.shows A.slot, A.content, dbName_name R.named]
  cases reverse
  · rfl
  · exact List.length_reverse

/-- The guard refuses to list a database just when it has more records than `mdbx_scan_max`. -/
structure GuardCounts (L : Platform σ) (V : Contents T) (w : World σ) (e : EnvRef) (t : TxnRef)
    (db : DbArg) : Prop where
  keys : ∀ start reverse, Refuses ((mdbxKeys L (.txn t) .null db start reverse).run w).1 ↔
    1000000 < V.count w.lib ⟨e, t⟩ db.name
  items : ∀ start reverse, Refuses ((mdbxItems L (.txn t) .null db start reverse).run w).1 ↔
    1000000 < V.count w.lib ⟨e, t⟩ db.name

/-- A `db` argument that gets statistics names a database if it is there. -/
theorem named_of_stat (hstat : (mdbxEnvStat L (.txn t) db).run w = (.ok stat, w₀))
    (hdb : db ≠ .null) :
    ∃ name, db.name = some name := by
  obtain ⟨names, w', hnames, -⟩ := Prog.of_bind_ok hstat
  rcases db with _ | ⟨_ | name, path⟩ | _
  · exact absurd rfl hdb
  · cases path <;> cases hnames
  · exact ⟨name, rfl⟩
  · cases hnames

theorem count_le_total (V : Contents T) (s : σ) (p : TxnPtr) : V.count s p none ≤ V.total s p :=
  Nat.le_add_right _ _

include hN hC hV in
/-- Without a limit and once the statistics are there, the guard counts the records of the database
that would be listed, except that for main it counts those of every named database as well; it
touches no record.  Without the statistics both functions end as the attempt to get them did. -/
theorem unbounded_guard (hr : Reachable L w) (ht : LiveTxn w e t k) (db : DbArg) :
    (∀ reverse ks w', (mdbxKeys L (.txn t) (.number (.inf false)) db none reverse).run w =
        (.ok ks, w') → ks.length = V.count w.lib ⟨e, t⟩ db.name) ∧
      (∀ x w₀, (mdbxEnvStat L (.txn t) db).run w = (.error x, w₀) → ∀ start reverse,
        (mdbxKeys L (.txn t) .null db start reverse).run w = (.error x, w₀) ∧
          (mdbxItems L (.txn t) .null db start reverse).run w = (.error x, w₀)) ∧
      ∀ stat w₀, (mdbxEnvStat L (.txn t) db).run w = (.ok stat, w₀) →
        (∀ start reverse,
          (Refuses ((mdbxKeys L (.txn t) .null db start reverse).run w).1 →
            Untouched t w ((mdbxKeys L (.txn t) .null db start reverse).run w).2) ∧
          (Refuses ((mdbxItems L (.txn t) .null db start reverse).run w).1 →
            Untouched t w ((mdbxItems L (.txn t) .null db start reverse).run w).2)) ∧
        (GuardCounts L V w e t db ↔ db ≠ .null ∨ 1000000 < V.count w.lib ⟨e, t⟩ none ∨
          V.total w.lib ⟨e, t⟩ ≤ 1000000) := by
  refine ⟨fun reverse ks w' h => keys_length hN hC hV hr ht h,
    fun x w₀ h start reverse => stopped_world h start reverse, fun stat w₀ hstat => ?_⟩
  obtain ⟨hn, huntouched⟩ := mdbxEnvStat_counts hN hV hr ht hstat
  refine ⟨fun start reverse => ⟨fun hrefuses => ?_, fun hrefuses => ?_⟩, ?_⟩
  · have hlt := (keys_refuses hstat hn start reverse).mp hrefuses
    rw [(refused_world hstat hn hlt start reverse).1]
    exact huntouched
  · have hlt := (items_refuses hstat hn start reverse).mp hrefuses
    rw [(refused_world hstat hn hlt start reverse).2]
    exact huntouched
  have hexact : GuardCounts L V w e t db ↔
      (1000000 < V.counted w.lib ⟨e, t⟩ db.name ↔ 1000000 < V.count w.lib ⟨e, t⟩ db.name) := by
    constructor
    · intro h
      exact (keys_refuses hstat hn none false).symm.trans (h.keys none false)
    · intro h
      exact ⟨fun start reverse => (keys_refuses hstat hn start reverse).trans h,
        fun start reverse => (items_refuses hstat hn start reverse).trans h⟩
  rw [hexact]
  by_cases hnull : db = .null
  · subst hnull
    have hle := count_le_total V w.lib ⟨e, t⟩
    simp only [DbArg.name, Contents.counted, ne_eq, not_true_eq_false, false_or]
    omega
  · obtain ⟨name, hname⟩ := named_of_stat hstat hnull
    rw [hname]
    exact ⟨fun _ => .inl hnull, fun _ => Iff.rfl⟩

end Claim

/-! ### A library with one named database -/

/-- `n` records, told apart by the lengths of their keys.  The key of the first is `sampleName`. -/
def plainTable (n : ℕ) : Table fun r : Record => r.1.length where
  records := (List.range n).map fun i => (List.replicate (i + 1) sampleByte, [])
  ascending := by
    rw [List.pairwise_map]
    simpa using List.pairwise_lt_range

/-- Which databases are open, main or the named one, and the cursor. -/
structure Stock where
  opened : List (TxnPtr × Bool)
  cursor : Dbi × Option ℕ

def Stock.open (s : Stock) (p : TxnPtr) (named : Bool) : Stock :=
  if (p, named) ∈ s.opened then s else { s with opened := (p, named) :: s.opened }

section Stock

variable (main named : ℕ)

def stockTable : Dbi → Table fun r : Record => r.1.length
  | 0 => plainTable main
  | 1 => plainTable named
  | _ => plainTable 0

def stockEntries : Dbi → ℕ
  | 0 => main
  | 1 => named
  | _ => 0

/-- Where an operation takes a cursor of a table, unless the cursor is nowhere. -/
def stockMove (m : Table fun r : Record => r.1.length) (pos : Option ℕ) :
    CursorOp → Option (Option ℕ)
  | .first => some m.first
  | .last => some m.last
  | .next => pos.map (m.step false)
  | .prev => pos.map (m.step true)
  | .setRange key => some (m.seek key.length)

def stockCall (s : Stock) : (c : NativeCall) → Reply c × Stock
  | .dbiOpen p none _ => (⟨Status.success, (0 : ℕ)⟩, s.open p false)
  | .dbiOpen p (some name) _ =>
    if name = sampleName then (⟨Status.success, (1 : ℕ)⟩, s.open p true)
    else (⟨Status.notFound, (0 : ℕ)⟩, s)
  | .drop _ _ _ => (⟨Status.incompatible, ()⟩, s)
  | .envStatEx _ _ => (⟨Status.success, ⟨0, 0, 0, 0, 0, main + named, 0⟩⟩, s)
  | .dbiStat _ dbi => (⟨Status.success, ⟨0, 0, 0, 0, 0, stockEntries main named dbi, 0⟩⟩, s)
  | .cursorOpen _ dbi => (⟨Status.success, (0 : ℕ)⟩, { s with cursor := (dbi, none) })
  | .cursorGet _ op =>
    match stockMove (stockTable main named s.cursor.1) s.cursor.2 op with
    | some (some i) => (⟨Status.success,
        (stockTable main named s.cursor.1).records.getD i ([], [])⟩,
        { s with cursor := (s.cursor.1, some i) })
    | some none => (⟨Status.notFound, ([], [])⟩, s)
    | none => (⟨22, ([], [])⟩, s)
  | .cmp _ _ a b => (⟨Status.success, if b.length < a.length then (1 : ℤ) else 0⟩, s)
  | c => (⟨Status.success, c.blank⟩, s)

/-- A library whose environments have so many records in main, one of which names a database, and in
that database. -/
def stock : Platform Stock where
  call c s := (.ok (stockCall main named s c).1, (stockCall main named s c).2)
  quiet _ _ _ := ⟨_, rfl⟩
  badAlloc s := (false, s)
  allocate s := (⟨[], false⟩, s)
  strerror _ := ""
  wide := true

def stockNames : Names Stock where
  slot s p
    | none => if (p, false) ∈ s.opened then some 0 else none
    | some name => if name = sampleName ∧ (p, true) ∈ s.opened then some 1 else none

def stockTables : Tables Stock ℕ where
  rank := List.length
  table _ _ dbi := stockTable main named dbi
  cursor s _ :=
    if s.cursor.2.all (· < (stockTable main named s.cursor.1).records.length) then some s.cursor
    else none
  refused _ := 0

def stockContents : Contents (stockTables main named) where
  content _ _
    | none => plainTable main
    | some name => if name = sampleName then plainTable named else plainTable 0
  named _ _ := [sampleName]

theorem plainTable_length (n : ℕ) : (plainTable n).records.length = n := by
  simp [plainTable]

theorem Stock.mem_open (s : Stock) (p q : TxnPtr) (a b : Bool) :
    (q, b) ∈ (s.open p a).opened ↔ (q, b) = (p, a) ∨ (q, b) ∈ s.opened := by
  unfold Stock.open
  split
  · constructor
    · exact .inr
    · rintro (h | h)
      · exact h ▸ ‹(p, a) ∈ s.opened›
      · exact h
  · exact List.mem_cons

theorem stockNames_slot_iff (s : Stock) (p : TxnPtr) (name : Option Bytes) (dbi : Dbi) :
    stockNames.slot s p name = some dbi ↔
      (name = none ∧ dbi = 0 ∧ (p, false) ∈ s.opened) ∨
        (name = some sampleName ∧ dbi = 1 ∧ (p, true) ∈ s.opened) := by
  cases name with
  | none =>
    simp only [stockNames]
    split <;> simp_all [eq_comm]
  | some name =>
    simp only [stockNames]
    split <;> simp_all [eq_comm]

theorem stockNames_congr {s s' : Stock} {p : TxnPtr}
    (h : ∀ b, (p, b) ∈ s'.opened ↔ (p, b) ∈ s.opened) :
    stockNames.slot s' p = stockNames.slot s p := by
  funext name
  refine Option.ext fun dbi => ?_
  rw [stockNames_slot_iff, stockNames_slot_iff, h, h]

/-- Only opening a database opens one. -/
theorem stockCall_opened (s : Stock) (c : NativeCall) :
    (stockCall main named s c).2.opened = s.opened ∨ ∃ p name flags, c = .dbiOpen p name flags := by
  cases c with
  | dbiOpen p name flags => exact .inr ⟨p, name, flags, rfl⟩
  | cursorGet cursor op =>
    left
    simp only [stockCall]
    split <;> rfl
  | _ => exact .inl rfl

/-- What `mdbx_dbi_open` does. -/
theorem stockCall_dbiOpen (s : Stock) (p : TxnPtr) (name : Option Bytes) (flags : ℕ) :
    (name = none ∧ stockCall main named s (.dbiOpen p name flags) =
        (⟨Status.success, (0 : ℕ)⟩, s.open p false)) ∨
      (name = some sampleName ∧ stockCall main named s (.dbiOpen p name flags) =
        (⟨Status.success, (1 : ℕ)⟩, s.open p true)) ∨
      stockCall main named s (.dbiOpen p name flags) = (⟨Status.notFound, (0 : ℕ)⟩, s) := by
  cases name with
  | none => exact .inl ⟨rfl, rfl⟩
  | some name =>
    right
    by_cases h : name = sampleName
    · exact .inl ⟨congrArg some h, by simp [stockCall, h]⟩
    · exact .inr (by simp [stockCall, h])

theorem stock_opensNames : (stock main named).OpensNames stockNames where
  injective := by
    intro s p name name' dbi h h'
    rw [stockNames_slot_iff] at h h'
    rcases h with ⟨rfl, rfl, -⟩ | ⟨rfl, rfl, -⟩ <;> rcases h' with ⟨rfl, h, -⟩ | ⟨rfl, h, -⟩ <;>
      simp_all
  opens := by
    intro s p name flags r hcall hrc
    obtain rfl := Except.ok.inj hcall
    funext other
    refine Option.ext fun dbi => ?_
    rw [Function.update_apply]
    rcases stockCall_dbiOpen main named s p name flags with ⟨rfl, h⟩ | ⟨rfl, h⟩ | h
    · simp only [stock, h]
      rw [stockNames_slot_iff]
      simp only [Stock.mem_open, Prod.mk.injEq, true_and, Bool.true_eq_false, false_or]
      by_cases hother : other = none
      · simp [hother, eq_comm]
      · rw [if_neg hother, stockNames_slot_iff]
        simp [hother]
    · simp only [stock, h]
      rw [stockNames_slot_iff]
      simp only [Stock.mem_open, Prod.mk.injEq, true_and, Bool.false_eq_true, false_or]
      by_cases hother : other = some sampleName
      · simp [hother, eq_comm]
      · rw [if_neg hother, stockNames_slot_iff]
        simp [hother]
    · rw [h] at hrc
      cases hrc
  deletes := by
    intro s p dbi r hcall hrc
    obtain rfl := Except.ok.inj hcall
    cases hrc
  fails := by
    rintro c s p (⟨name, flags, rfl⟩ | ⟨dbi, rfl⟩) ho
    · rcases stockCall_dbiOpen main named s p name flags with ⟨-, h⟩ | ⟨-, h⟩ | h
      · exact absurd (by simp [Platform.outcome, stock, h]) ho
      · exact absurd (by simp [Platform.outcome, stock, h]) ho
      · simp only [stock, h]
    · rfl
  others := by
    rintro c s p - hnames -
    refine stockNames_congr fun b => ?_
    rcases stockCall_opened main named s c with h | ⟨q, name, flags, rfl⟩
    · simp only [stock, h]
    have hne : p ≠ q := by
      rintro rfl
      exact hnames (.inl ⟨name, flags, rfl⟩)
    rcases stockCall_dbiOpen main named s q name flags with ⟨-, h⟩ | ⟨-, h⟩ | h <;>
      simp [stock, h, Stock.mem_open, hne]
  grows _ := rfl
  collects _ := rfl

theorem stockMove_eq {s : Stock} {p : TxnPtr} {pos target : Option ℕ} {op : CursorOp} {dbi : Dbi}
    (h : op.Reaches (stockTables main named) ((stockTables main named).table s p dbi) pos target) :
    stockMove (stockTable main named dbi) pos op = some target := by
  cases h <;> rfl

/-- A cursor that stands in a table moves inside it. -/
theorem stockMove_lt {m : Table fun r : Record => r.1.length} {pos : Option ℕ} {op : CursorOp}
    {i : ℕ} (hpos : pos.all (· < m.records.length) = true)
    (h : stockMove m pos op = some (some i)) : i < m.records.length := by
  have hstep : ∀ reverse, pos.map (m.step reverse) = some (some i) → i < m.records.length := by
    intro reverse hmap
    obtain ⟨j, rfl, hj⟩ := Option.map_eq_some_iff.mp hmap
    exact m.step_lt (by simpa using hpos) hj
  have hfirst : ∀ j, m.records ≠ [] → j ≤ m.records.length - 1 → j < m.records.length := by
    intro j hne hj
    have := List.length_pos_iff.mpr hne
    omega
  cases op with
  | first =>
    have hi := Option.some.inj h
    unfold Table.first at hi
    split at hi
    · cases hi
    · cases hi
      exact hfirst 0 ‹_› (Nat.zero_le _)
  | last =>
    have hi := Option.some.inj h
    unfold Table.last at hi
    split at hi
    · cases hi
    · cases hi
      exact hfirst _ ‹_› le_rfl
  | next => exact hstep false h
  | prev => exact hstep true h
  | setRange key => exact (m.seek_some (Option.some.inj h)).1

theorem stockTables_cursor {s : Stock} {c : CursorPtr} {dbi : Dbi} {pos : Option ℕ}
    (h : (stockTables main named).cursor s c = some (dbi, pos)) :
    s.cursor = (dbi, pos) ∧ pos.all (· < (stockTable main named dbi).records.length) = true := by
  simp only [stockTables] at h
  split at h
  · have hs := Option.some.inj h
    rename_i hall
    rw [hs] at hall
    exact ⟨hs, hall⟩
  · cases h

theorem stockTable_length (dbi : Dbi) :
    (stockTable main named dbi).records.length = stockEntries main named dbi := by
  unfold stockTable stockEntries
  split <;> exact plainTable_length _

theorem stock_cursors (hmain : main < 2 ^ 63) (hnamed : named < 2 ^ 63) :
    (stock main named).Cursors (stockTables main named) where
  opens := by
    rintro s p dbi r - -
    exact ⟨rfl, rfl⟩
  hits := by
    rintro s c op dbi pos i r hs hop hr -
    have hmove := stockMove_eq main named hop
    obtain ⟨hcursor, hpos⟩ := stockTables_cursor main named hs
    have hi := stockMove_lt hpos hmove
    have hreply : stockCall main named s (.cursorGet c op) =
        (⟨Status.success, (stockTable main named dbi).records.getD i ([], [])⟩,
          { s with cursor := (dbi, some i) }) := by
      simp only [stockCall, hcursor, hmove]
    obtain rfl := Except.ok.inj hr
    simp only [stock, hreply]
    refine ⟨trivial, ?_, rfl, ?_⟩
    · show (stockTable main named dbi).records[i]? = _
      rw [List.getD_eq_getElem?_getD]
      simp [hi]
    · exact if_pos (decide_eq_true hi)
  misses := by
    rintro s c op dbi pos r hs hop hr -
    have hmove := stockMove_eq main named hop
    obtain ⟨hcursor, hpos⟩ := stockTables_cursor main named hs
    have hreply : stockCall main named s (.cursorGet c op) = (⟨Status.notFound, ([], [])⟩, s) := by
      simp only [stockCall, hcursor, hmove]
    obtain rfl := Except.ok.inj hr
    simp only [stock, hreply]
    exact ⟨trivial, trivial, pos, hs⟩
  compares := by
    rintro s p dbi a b r hr
    obtain rfl := Except.ok.inj hr
    refine ⟨?_, rfl, rfl⟩
    show 0 < (if b.length < a.length then (1 : ℤ) else 0) ↔ b.length < a.length
    split <;> simp [*]
  grows s := ⟨rfl, rfl, rfl⟩
  closes := fun _ => rfl
  calls _ _ := rfl
  fits s p dbi := by
    have hwide : sizeBound (stock main named) = 2 ^ 64 := rfl
    show (stockTable main named dbi).records.length + 1 < _
    rw [stockTable_length, hwide]
    unfold stockEntries
    split <;> omega

theorem stock_counts : (stock main named).Counts (stockContents main named) stockNames where
  shows := by
    intro s p name dbi h
    rw [stockNames_slot_iff] at h
    rcases h with ⟨rfl, rfl, -⟩ | ⟨rfl, rfl, -⟩ <;> rfl
  opens _ _ _ := rfl
  dbiStat := by
    intro s p name dbi r h hcall hrc
    obtain rfl := Except.ok.inj hcall
    rw [stockNames_slot_iff] at h
    rcases h with ⟨rfl, rfl, -⟩ | ⟨rfl, rfl, -⟩ <;> exact (plainTable_length _).symm
  envStat := by
    intro s e p r hcall hrc
    obtain rfl := Except.ok.inj hcall
    have hmain : (stockContents main named).count s p none = main := plainTable_length main
    have hother : (stockContents main named).count s p (some sampleName) = named :=
      plainTable_length named
    show main + named = (stockContents main named).count s p none +
      ([sampleName].map fun name => (stockContents main named).count s p (some name)).sum
    rw [hmain, List.map_singleton, List.sum_singleton, hother]

/-- A write transaction is open. -/
def stockBegun : World Stock :=
  (World.start ⟨[], (0, none)⟩ 1).after (stock main named) openAndBegin

end Stock

theorem stockBegun_reachable (main named : ℕ) :
    Reachable (stock main named) (stockBegun main named) :=
  ⟨_, 1, World.after_steps ⟨trivial, trivial, trivial⟩⟩

/-- Three records in all: the guard lets main be listed, as it should. -/
theorem unbounded_guard_stock :
    GuardCounts (stock 2 1) (stockContents 2 1) (stockBegun 2 1) 0 1 .null := by
  have howner : ((stockBegun 2 1).txns 1).bind TxnHandle.owner = some 0 := by decide +kernel
  obtain ⟨k, hk⟩ := exists_liveTxn howner
  obtain ⟨-, -, hguard⟩ := unbounded_guard (stock_opensNames 2 1)
    (stock_cursors 2 1 (by norm_num) (by norm_num)) (stock_counts 2 1) (stockBegun_reachable 2 1) hk
    .null
  refine (hguard (statList ⟨0, 0, 0, 0, 0, 3, 0⟩) _
    (Prod.ext (by decide +kernel) rfl)).2.mpr (.inr (.inr ?_))
  decide +kernel

/-- Main is not listed where it holds the record that names a database, and nothing else, and the
database holds more than a million records. -/
theorem short_main_refused :
    (stock 1 1000001).OpensNames stockNames ∧
      (stock 1 1000001).Cursors (stockTables 1 1000001) ∧
      (stock 1 1000001).Counts (stockContents 1 1000001) stockNames ∧
      Reachable (stock 1 1000001) (stockBegun 1 1000001) ∧
      (∃ k, LiveTxn (stockBegun 1 1000001) 0 1 k) ∧
      (stockContents 1 1000001).count (stockBegun 1 1000001).lib ⟨0, 1⟩ none = 1 ∧
      Refuses ((mdbxKeys (stock 1 1000001) (.txn 1) .null .null none false).run
        (stockBegun 1 1000001)).1 ∧
      ¬ GuardCounts (stock 1 1000001) (stockContents 1 1000001) (stockBegun 1 1000001) 0 1
        .null := by
  have hcount : (stockContents 1 1000001).count (stockBegun 1 1000001).lib ⟨0, 1⟩ none = 1 :=
    plainTable_length 1
  have hrefuses : Refuses ((mdbxKeys (stock 1 1000001) (.txn 1) .null .null none false).run
      (stockBegun 1 1000001)).1 := ⟨.ofNat 1000002, by decide +kernel⟩
  refine ⟨stock_opensNames _ _, stock_cursors _ _ (by norm_num) (by norm_num), stock_counts _ _,
    stockBegun_reachable _ _, exists_liveTxn (by decide +kernel), hcount, hrefuses, fun h => ?_⟩
  have hlt := (h.keys none false).mp hrefuses
  simp only [DbArg.name, hcount] at hlt
  omega

end Mdbx
