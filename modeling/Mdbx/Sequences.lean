import Mathlib.Data.Prod.Lex
import Mdbx.Addressing
import Mdbx.Counting
import Mdbx.Sizes
import Mdbx.Stores

/-! Sequences: what one reservation returns and what it does to the counter, and that two
reservations of one database do not overlap, whatever a run does between them. -/

namespace Mdbx

open ProofKit

variable {σ α : Type}

/-! ### Counters of libmdbx -/

/-- How often `mdbx_drop` has emptied or deleted the database of a name, in this process or in
another, and where its sequence stands. -/
structure Tally where
  emptied : ℕ
  count : ℕ

/-- A later tally: the database was emptied since, or its sequence has gone on. -/
instance : Preorder Tally := Preorder.lift fun a => toLex (a.emptied, a.count)

def Tally.advanced (a : Tally) (n : ℕ) : Tally := { a with count := a.count + n }

/-- The sequence of a database that was not emptied only grows. -/
theorem Tally.count_le {a b : Tally} (h : a ≤ b) (hsame : a.emptied = b.emptied) :
    a.count ≤ b.count := by
  rcases Prod.Lex.toLex_le_toLex.mp h with hlt | ⟨-, hle⟩
  · exact absurd hsame hlt.ne
  · exact hle

theorem Tally.le_advanced (a : Tally) (n : ℕ) : a ≤ a.advanced n :=
  Prod.Lex.toLex_le_toLex.mpr (.inr ⟨rfl, Nat.le_add_right ..⟩)

theorem Tally.le_emptied (a : Tally) : a ≤ ⟨a.emptied + 1, 0⟩ :=
  Prod.Lex.toLex_le_toLex.mpr (.inl (Nat.lt_succ_self _))

/-- A store as the tallies of its databases. -/
abbrev Counters (σ : Type) := Stores σ (Option Bytes → Tally)

/-- The promises about sequences.  A call that advances one answers what it was, needs a write
transaction and fails rather than pass the 64 bits, and a call that fails changes nothing.  What a
write transaction sees of a sequence only grows, unless its database is emptied, and so does what is
committed, unless a write transaction is. -/
structure Platform.KeepsCounters (L : Platform σ) (N : Names σ) (C : Counters σ) : Prop
    extends L.Transacts C where
  opens : ∀ s p name, C.view (L.call (.dbiOpen p name 0) s).2 p = C.view s p
  advances : ∀ {s p name dbi n r}, N.slot s p name = some dbi →
    (L.call (.dbiSequence p dbi n) s).1 = .ok r → r.rc = Status.success →
      r.out = (C.view s p name).count ∧
        C.view (L.call (.dbiSequence p dbi n) s).2 p name = (C.view s p name).advanced n ∧
        (0 < n → C.writing s p ∧ C.writing (L.call (.dbiSequence p dbi n) s).2 p)
  overflows : ∀ {s p name dbi n r}, N.slot s p name = some dbi →
    (L.call (.dbiSequence p dbi n) s).1 = .ok r → r.rc = Status.resultTrue →
      0 < n ∧ 2 ^ 64 ≤ (C.view s p name).count + n
  fails : ∀ {s p name dbi n}, N.slot s p name = some dbi →
    L.outcome (.dbiSequence p dbi n) s ≠ .returned Status.success →
      C.view (L.call (.dbiSequence p dbi n) s).2 p name = C.view s p name
  rises : ∀ {c s p} pid, C.writing s p → ¬ Call.Ends ⟨pid, c, L.outcome c s⟩ p →
    ¬ Call.Closes ⟨pid, c, L.outcome c s⟩ p.env → ¬ Call.Panics ⟨pid, c, L.outcome c s⟩ p.env →
      ∀ name, C.view s p name ≤ C.view (L.call c s).2 p name
  keeps : ∀ {c s e} pid, ¬ Call.Panics ⟨pid, c, L.outcome c s⟩ e →
    (∀ p, Call.Commits ⟨pid, c, L.outcome c s⟩ p → p.env = e → ¬ C.writing s p) →
      ∀ name, C.committed s e name ≤ C.committed (L.call c s).2 e name

/-! ### One reservation -/

/-- Libmdbx has reported an overflow of a sequence. -/
def Overflowed (log : List Call) : Prop :=
  ∃ c ∈ log, (∃ p dbi n, c.call = .dbiSequence p dbi n) ∧ c.outcome = .returned Status.resultTrue

/-- What the comparison of doubles lets through fits into the exact ones. -/
theorem sequence_room {v n : ℕ} (hn : n ≤ 2 ^ 53) (hpos : 0 < n)
    (h : (maxExactInteger.sub (.ofNat n)).lt (.ofNat v) = false) : v + n ≤ 2 ^ 53 := by
  have hsub : maxExactInteger.sub (.ofNat n) = .ofNat (2 ^ 53 - n) := by
    rw [maxExactInteger, Double.ofNat_exact hn, Double.ofNat_exact le_rfl,
      Double.sub_exact le_rfl hn, Double.ofNat_exact (by omega)]
  rw [hsub] at h
  by_cases hv : v ≤ 2 ^ 53
  · rw [Double.ofNat_lt (by omega) hv] at h
    have := of_decide_eq_false h
    omega
  · exfalso
    have hle := Double.le_ofNat (n := v) (by omega)
    rw [Double.ofNat_exact (by omega)] at h
    rcases hx : Double.ofNat v with _ | ⟨_ | _⟩ | ⟨q, hq⟩
    · rw [hx] at hle
      cases hle
    · rw [hx] at h
      cases h
    · rw [hx] at hle
      cases hle
    · rw [hx] at h hle
      have hbig : ((2 ^ 53 : ℕ) : ℚ) ≤ q := by simpa [Double.le] using hle
      have hsmall : q ≤ ((2 ^ 53 - n : ℕ) : ℚ) := by simpa [Double.lt] using h
      have : 2 ^ 53 ≤ 2 ^ 53 - n := by exact_mod_cast hbig.trans hsmall
      omega

section Reservation

variable {L : Platform σ} {N : Names σ} {C : Counters σ} {w w' u : World σ}
variable {e : EnvRef} {t : TxnRef} {k : TxnHandle} {p : TxnPtr} {name : Option Bytes}
  {names : List Bytes} {dbi : Dbi} {n : ℕ}

/-- The transaction sees the sequence where it stood in `w`. -/
structure Resting (C : Counters σ) (p : TxnPtr) (name : Option Bytes) (w u : World σ) : Prop where
  seen : C.view u.lib p name = C.view w.lib p name
  writing : C.writing u.lib p → C.writing w.lib p
  ended : Ended u.log p → Ended w.log p
  overflowed : Overflowed u.log → Overflowed w.log

/-- The transaction sees the sequence `n` further on than in `w`. -/
structure Advanced (C : Counters σ) (p : TxnPtr) (name : Option Bytes) (n : ℕ) (w u : World σ) :
    Prop where
  seen : C.view u.lib p name = (C.view w.lib p name).advanced n
  exact : 0 < n → (C.view w.lib p name).count + n ≤ 2 ^ 53
  writing : 0 < n → C.writing w.lib p ∧ C.writing u.lib p
  ended : Ended u.log p → Ended w.log p
  overflowed : Overflowed u.log → Overflowed w.log

theorem Resting.start : Resting C p name w w := ⟨Eq.refl _, id, id, id⟩

theorem Resting.aside (p : TxnPtr) (name : Option Bytes) (w u u' : World σ) (h : Aside u u')
    (hu : Resting C p name w u) : Resting C p name w u' := by
  obtain ⟨hseen, hwriting, hended, hover⟩ := hu
  rw [← h.lib] at hseen hwriting
  rw [← h.log] at hended hover
  exact ⟨hseen, hwriting, hended, hover⟩

theorem Resting.answered (hC : L.KeepsCounters N C) (hu : Resting C p name w u) {c : NativeCall}
    (hc : c.plain = true) (hseen : C.view (L.call c u.lib).2 p name = C.view u.lib p name)
    (hover : (∃ p dbi n, c = .dbiSequence p dbi n) →
      L.outcome c u.lib ≠ .returned Status.resultTrue) :
    Resting C p name w (u.answered L c (L.outcome c u.lib)) := by
  refine ⟨hseen.trans hu.seen, fun h => hu.writing (hC.was_writing (fun _ hbegin => ?_) h), ?_, ?_⟩
  · rw [hbegin] at hc
    cases hc
  · exact fun h => hu.ended (((ended_cons _ _ _).mp h).resolve_left (Call.not_ends_of_plain hc _))
  rintro ⟨c', hmem, hsequence, ho⟩
  rcases List.mem_cons.mp hmem with rfl | hmem
  · exact absurd ho (hover hsequence)
  · exact hu.overflowed ⟨c', hmem, hsequence, ho⟩

/-- The guarded call for the sequence replies, or panics and leaves a note on the handles. -/
theorem sequenceCall_triple (hbearing : Bearing N p t name dbi u) (n : ℕ) :
    Triple (guard (sequenceCall L t n) (poisonTxn t)) u
      (fun x u' => ∃ r, (L.call (.dbiSequence p dbi n) u.lib).1 = .ok r ∧ x = (r.rc, r.out) ∧
        u' = u.answered L (.dbiSequence p dbi n) (L.outcome (.dbiSequence p dbi n) u.lib))
      (fun _ u' => L.outcome (.dbiSequence p dbi n) u.lib = .panicked ∧ Aside
        (u.answered L (.dbiSequence p dbi n) (L.outcome (.dbiSequence p dbi n) u.lib)) u') := by
  obtain ⟨k, hk, htxn, hdbi⟩ := hbearing.handle
  have hbody : (sequenceCall L t n).run u = (native L (.dbiSequence p dbi n) >>= fun r =>
      pure (r.rc, r.out)).run u := by
    rw [sequenceCall, current, bind_assoc, Prog.bind_ok (derefTxn_run hk), htxn, hdbi]
    rfl
  rcases guard_call (poisonTxn t) _ hbody with ⟨r, hcall, hrun⟩ | ⟨info, x, hcall, hrun⟩
  · exact Triple.ok hrun ⟨r, hcall, rfl, by rw [outcome_ok hcall]⟩
  · rw [outcome_error hcall]
    exact Triple.error hrun ⟨rfl, poisonTxn_aside t _⟩

variable (hC : L.KeepsCounters N C)
include hC

/-- A guarded call that does not succeed leaves the sequence where it is. -/
theorem Resting.failed (hu : Resting C p name w u) (hslot : N.slot u.lib p name = some dbi)
    (hroom : 0 < n → (C.view u.lib p name).count + n < 2 ^ 64)
    (hfails : L.outcome (.dbiSequence p dbi n) u.lib ≠ .returned Status.success) :
    Resting C p name w
      (u.answered L (.dbiSequence p dbi n) (L.outcome (.dbiSequence p dbi n) u.lib)) := by
  refine hu.answered hC rfl (hC.fails hslot hfails) fun _ ho => ?_
  obtain ⟨r, hcall, hrc⟩ := outcome_returned ho
  obtain ⟨hpos, hfull⟩ := hC.overflows hslot hcall hrc
  exact absurd hfull (hroom hpos).not_ge

/-- A guarded call that succeeds answers where the sequence stood and moves it on. -/
theorem Resting.moved (hu : Resting C p name w u) (hslot : N.slot u.lib p name = some dbi)
    (hroom : 0 < n → (C.view u.lib p name).count + n ≤ 2 ^ 53) {r : Reply (.dbiSequence p dbi n)}
    (hcall : (L.call (.dbiSequence p dbi n) u.lib).1 = .ok r) (hrc : r.rc = Status.success) :
    r.out = (C.view w.lib p name).count ∧ Advanced C p name n w
      (u.answered L (.dbiSequence p dbi n) (L.outcome (.dbiSequence p dbi n) u.lib)) := by
  obtain ⟨hout, hseen, hwriting⟩ := hC.advances hslot hcall hrc
  rw [hu.seen] at hout hseen hroom
  refine ⟨hout, hseen, hroom, fun hn => ?_, fun h => hu.ended ?_, ?_⟩
  · exact ⟨hu.writing (hwriting hn).1, (hwriting hn).2⟩
  · exact ((ended_cons _ _ _).mp h).resolve_left (Call.not_ends_of_plain rfl _)
  · rintro ⟨c', hmem, hsequence, ho⟩
    rcases List.mem_cons.mp hmem with rfl | hmem
    · rw [outcome_ok hcall, hrc] at ho
      cases ho
    · exact hu.overflowed ⟨c', hmem, hsequence, ho⟩

/-- Reading the sequence leaves it where it is, however the call ends. -/
theorem Resting.read (hu : Resting C p name w u) (hslot : N.slot u.lib p name = some dbi) :
    Resting C p name w
      (u.answered L (.dbiSequence p dbi 0) (L.outcome (.dbiSequence p dbi 0) u.lib)) := by
  by_cases ho : L.outcome (.dbiSequence p dbi 0) u.lib = .returned Status.success
  · obtain ⟨r, hcall, hrc⟩ := outcome_returned ho
    refine hu.answered hC rfl (hC.advances hslot hcall hrc).2.1 fun _ htrue => ?_
    rw [ho] at htrue
    cases htrue
  · exact hu.failed hC hslot (by simp) ho

omit hC in
theorem Resting.advanced (hu : Resting C p name w u) : Advanced C p name 0 w u :=
  ⟨hu.seen, fun h => absurd h (by simp), fun h => absurd h (by simp), hu.ended, hu.overflowed⟩

/-- The advance returns where the sequence stood, unless it would pass the exact doubles. -/
theorem advanceSequence_triple (hn : n ≤ 2 ^ 53) (hpos : 0 < n) (hu : Resting C p name w u)
    (hbearing : Bearing N p t name dbi u) :
    Triple (advanceSequence L t (.ofNat (C.view w.lib p name).count) (.ofNat n)) u
      (fun y u' => y = .ofNat (C.view w.lib p name).count ∧ Advanced C p name n w u')
      (fun _ u' => Resting C p name w u') := by
  rw [advanceSequence]
  by_cases hfull : ¬ (Double.ofNat n).le maxExactInteger = true ∨
      (maxExactInteger.sub (.ofNat n)).lt (.ofNat (C.view w.lib p name).count) = true
  · exact Triple.stopped (refuse_run hfull) hu
  refine Triple.step (refuse_pass hfull) (Triple.step (narrow_exact hn (by omega) u) ?_)
  have hroom : (C.view u.lib p name).count + n ≤ 2 ^ 53 := by
    rw [hu.seen]
    exact sequence_room hn hpos (by simpa using (not_or.mp hfull).2)
  refine Triple.bind ((sequenceCall_triple hbearing n).mono (fun _ _ => id) ?_) ?_
  · rintro x u' ⟨ho, haside⟩
    exact .aside _ _ w _ _ haside (hu.failed hC hbearing.slot (by omega) (by simp [ho]))
  rintro _ _ ⟨r, hcall, rfl, rfl⟩
  have hfails : r.rc ≠ Status.success → Resting C p name w
      (u.answered L (.dbiSequence p dbi n) (L.outcome (.dbiSequence p dbi n) u.lib)) := fun hrc =>
    hu.failed hC hbearing.slot (by omega) (by simpa [outcome_ok hcall] using hrc)
  by_cases htrue : r.rc = Status.resultTrue
  · exact Triple.stopped (refuse_run htrue) (hfails (by rw [htrue]; decide))
  refine Triple.step (refuse_pass htrue) ?_
  by_cases hrc : r.rc = Status.success
  · obtain ⟨hout, hmoved⟩ := hu.moved hC hbearing.slot (fun _ => hroom) hcall hrc
    rw [hrc]
    exact Triple.step check_success (Triple.pure ⟨congrArg Double.ofNat hout, hmoved⟩)
  · exact Triple.stopped (check_failure hrc) (hfails hrc)

variable (hN : L.OpensNames N) (hr : Reachable L w) (ht : LiveTxn w e t k)
include hN hr ht

/-- Resolving the database leaves its sequence alone. -/
theorem ensureDbi_resting (names : List Bytes) : Triple (ensureDbi L t names) w
    (fun dbi u => Resting C ⟨e, t⟩ names.head? w u ∧ Bearing N ⟨e, t⟩ t names.head? dbi u)
    (fun _ u => Resting C ⟨e, t⟩ names.head? w u) := by
  refine ensureDbi_bears hN (Resting.aside _ _ w) names (fun u hu => ?_) .start (hr.attached hN ht)
  exact hu.answered hC rfl (congrFun (hC.opens ..) _) fun ⟨_, _, _, h⟩ => by cases h

/-- The entry point returns where the sequence stands and moves it on, or stops and leaves it. -/
theorem mdbxDbiSequence_reserves (names : List Bytes) (hn : n ≤ 2 ^ 53) :
    Triple (mdbxDbiSequence_ L (.txn t) names (.ofNat n)) w
      (fun y u => y = .ofNat (C.view w.lib ⟨e, t⟩ names.head?).count ∧
        Advanced C ⟨e, t⟩ names.head? n w u)
      (fun _ u => Resting C ⟨e, t⟩ names.head? w u) := by
  rcases sequenceTxn_accesses hr t (.ofNat n) with ⟨c, hrun⟩ | ⟨_, _, hrun, -⟩
  · exact Triple.stopped hrun .start
  refine Triple.step hrun (Triple.bind (ensureDbi_resting hC hN hr ht names) ?_)
  rintro dbi u ⟨hu, hbearing⟩
  have hread := hu.read hC hbearing.slot
  refine Triple.bind ((sequenceCall_triple hbearing 0).mono (fun _ _ => id) ?_) ?_
  · rintro x u' ⟨-, haside⟩
    exact .aside _ _ w _ _ haside hread
  rintro _ _ ⟨r, hcall, rfl, rfl⟩
  -- nothing has moved yet when the call is judged
  by_cases hrc : r.rc = Status.success
  swap
  · exact Triple.stopped (check_failure hrc) hread
  obtain ⟨hout, -⟩ := hu.moved hC hbearing.slot (by simp) hcall hrc
  rw [hrc]
  refine Triple.step check_success ?_
  rw [hout, Double.ofNat_le hn (Nat.zero_le _)]
  rcases n.eq_zero_or_pos with rfl | hpos
  · exact Triple.pure ⟨rfl, hread.advanced⟩
  rw [if_neg (by simpa using hpos.ne')]
  refine advanceSequence_triple hC hn hpos hread ⟨hbearing.handle, ?_⟩
  exact (congrFun₂ (hN.stays (.inl (by simp [NativeCall.target])) rfl _) _ _).trans hbearing.slot

/-- The R function refuses its arguments and touches nothing, or calls the entry point with the
natural number that its increment is. -/
theorem mdbxDbiSequence_reserved (db : DbArg) (increment : NumberArg) :
    Triple (mdbxDbiSequence L (.txn t) db increment) w
      (fun y u => ∃ n ≤ 2 ^ 53, increment = .number (.ofNat n) ∧
        y = .ofNat (C.view w.lib ⟨e, t⟩ db.name).count ∧ Advanced C ⟨e, t⟩ db.name n w u)
      (fun _ u => Resting C ⟨e, t⟩ db.name w u) := by
  rcases mdbxDbiSequence_exact (L := L) (.txn t) db increment w with
    ⟨c, hrun⟩ | ⟨n, hn, hinc, hrun, -⟩
  · exact Triple.error hrun .start
  refine Triple.congr hrun ?_
  have hsame := dbName_world db (.txn t) w
  rcases hnames : (dbName db (.txn t)).run w with ⟨x | names, w₁⟩
  · rw [hnames] at hsame
    obtain rfl : w₁ = w := hsame
    exact Triple.stopped hnames .start
  rw [hnames] at hsame
  obtain rfl : w₁ = w := hsame
  rw [← dbName_name hnames]
  refine Triple.step hnames (Triple.mapExit ((mdbxDbiSequence_reserves hC hN hr ht names hn).mono
    (fun y u h => ⟨n, hn, hinc, h⟩) fun _ _ => id))

omit hC hN hr ht in
/-- Without a live transaction the R function does nothing. -/
theorem mdbxDbiSequence_refused {x : Sexp} {c : Condition}
    (h : (txnFromSexp x).run w = (.error (.stop c), w)) (db : DbArg) (increment : NumberArg) :
    ∃ y, (mdbxDbiSequence L x db increment).run w = (.error y, w) := by
  have htxn : ∀ i, (sequenceTxn x i).run w = (.error (.stop c), w) := fun i => by
    rw [sequenceTxn]
    split
    · exact Prog.bind_error h
    · exact h
  rcases mdbxDbiSequence_exact (L := L) x db increment w with ⟨c', hrun⟩ | ⟨n, -, -, hrun, -⟩
  · exact ⟨_, hrun⟩
  rw [hrun]
  have hsame := dbName_world db x w
  rcases hnames : (dbName db x).run w with ⟨y | names, w₁⟩
  all_goals
    rw [hnames] at hsame
    obtain rfl : w₁ = w := hsame
  · exact ⟨y, Prog.bind_error hnames⟩
  · rw [Prog.bind_ok hnames]
    exact ⟨_, Front.call_error (Prog.bind_error (htxn _))⟩

omit ht in
/-- No call of the R function makes libmdbx report an overflow. -/
theorem mdbxDbiSequence_in_range (x : Sexp) (db : DbArg) (increment : NumberArg)
    (h : Overflowed ((mdbxDbiSequence L x db increment).run w).2.log) : Overflowed w.log := by
  have I : Inv { lossy := true } w := hr.invariant (by simp)
  rcases txnFromSexp_run I.graph x with ⟨c, hrun⟩ | ⟨e, _, t, k, _, rfl, -, -, -, -, ht⟩
  · obtain ⟨y, hrefused⟩ := mdbxDbiSequence_refused (L := L) hrun db increment
    rwa [hrefused] at h
  · have hreserved := mdbxDbiSequence_reserved hC hN hr ht db increment
    rw [Triple] at hreserved
    rcases hcall : (mdbxDbiSequence L (.txn t) db increment).run w with ⟨y | y, u⟩
    all_goals rw [hcall] at h hreserved
    · exact hreserved.overflowed h
    · obtain ⟨n, -, -, -, hmoved⟩ := hreserved
      exact hmoved.overflowed h

omit hC hN in
/-- The package reaches a sequence in an environment that it has not closed and in which nothing has
panicked. -/
theorem mdbxDbiSequence_calm {db : DbArg} {increment : NumberArg} {y : Double}
    (h : (mdbxDbiSequence L (.txn t) db increment).run w = (.ok y, w')) :
    ¬ Closed w.log e ∧ ¬ Panicked w.log e := by
  have I : Inv { lossy := true } w := hr.invariant (by simp)
  rcases txnFromSexp_run I.graph (.txn t) with ⟨c, hrun⟩ | ⟨e', h', _, k', s, hx, -, -, -, he, hk⟩
  · obtain ⟨x, hrefused⟩ := mdbxDbiSequence_refused (L := L) hrun db increment
    rw [hrefused] at h
    cases h
  cases hx
  obtain rfl : k' = k := Option.some.inj (hk.at_.symm.trans ht.at_)
  obtain rfl : e' = e := Option.some.inj (hk.owner.symm.trans ht.owner)
  exact ⟨I.traced.notClosed he.at_ he.env, I.traced.healthy he.at_ he.env he.healthy (by simp)⟩

end Reservation

/-! ### Between two reservations -/

/-- The transaction ended without being committed. -/
def Lost (log : List Call) (p : TxnPtr) : Prop :=
  ∃ past, past <:+ log ∧ Ended past p ∧ ¬ Committed past p

/-- After the trace the environment `e` is open and nothing has panicked in it. -/
structure Calm (log : List Call) (e : EnvPtr) : Prop where
  open_ : ¬ Closed log e
  healthy : ¬ Panicked log e

/-- What has become of a sequence that the transaction `p` has moved to `bound`: `p` is open, it is
committed and every writer sees as much, or it is lost. -/
inductive Past (C : Counters σ) (p : TxnPtr) (name : Option Bytes) (bound : Tally) (w : World σ) :
    Prop where
  | holds (hlive : ¬ Ended w.log p) (hwriting : C.writing w.lib p)
    (hseen : bound ≤ C.view w.lib p name)
  | kept (hcommitted : bound ≤ C.committed w.lib p.env name)
    (hseen : ∀ q, C.writing w.lib q → q.env = p.env → bound ≤ C.view w.lib q name)
  | lost (hlost : Lost w.log p)

section Runs

variable {L : Platform σ} {N : Names σ} {C : Counters σ} {w w' u : World σ}
variable {e : EnvRef} {t : TxnRef} {k : TxnHandle} {p : TxnPtr} {name : Option Bytes}
  {bound : Tally} {log : List Call} {c : Call}

theorem Call.Commits.ends (h : c.Commits p) : c.Ends p := by
  obtain ⟨hcall, ho⟩ := h
  exact ⟨by simp [hcall, NativeCall.finishes], by simp [ho], by rw [ho]; decide⟩

theorem Committed.ended (h : Committed log p) : Ended log p := by
  obtain ⟨c, hc, hcommits⟩ := h
  exact ⟨c, hc, hcommits.ends⟩

theorem Lost.cons (h : Lost log p) (c : Call) : Lost (c :: log) p := by
  obtain ⟨past, hpast, hlost⟩ := h
  exact ⟨past, hpast.trans (List.suffix_cons _ _), hlost⟩

/-- What ended without a commit is not committed later. -/
theorem Lost.not_committed {lossy : Bool} (hlost : Lost log p) (hsafe : Safe lossy log) :
    ¬ Committed log p := by
  obtain ⟨past, hpast, hended, hnot⟩ := hlost
  induction log with
  | nil => simp [Committed]
  | cons c rest ih =>
    rcases List.suffix_cons_iff.mp hpast with rfl | hpast
    · exact hnot
    rw [committed_cons]
    rintro (hcommits | hcommitted)
    · obtain ⟨c', hc', hends⟩ := hended
      refine (hsafe.1.2 p (by simp [hcommits.1, NativeCall.txn?])).2.2 ?_
      exact ⟨c', hpast.subset hc', hends⟩
    · exact ih hsafe.2.2.2 hpast hcommitted

theorem Calm.uncons (h : Calm (c :: log) e) : Calm log e where
  open_ hclosed := h.open_ ((closed_cons _ _ _).mpr (.inr hclosed))
  healthy hpanicked := h.healthy ((panicked_cons _ _ _).mpr (.inr hpanicked))

/-- One call keeps the sequence, unless it closes the environment or panics. -/
theorem Past.step (hC : L.KeepsCounters N C) {c : NativeCall} (hu : Past C p name bound u)
    (hcalm : Calm (u.answered L c (L.outcome c u.lib)).log p.env) :
    Past C p name bound (u.answered L c (L.outcome c u.lib)) := by
  have hpanics : ¬ Call.Panics ⟨u.pid, c, L.outcome c u.lib⟩ p.env := fun h =>
    hcalm.healthy ((panicked_cons _ _ _).mpr (.inl h))
  have hcloses : ¬ Call.Closes ⟨u.pid, c, L.outcome c u.lib⟩ p.env := fun h =>
    hcalm.open_ ((closed_cons _ _ _).mpr (.inl h))
  cases hu with
  | holds hlive hwriting hseen =>
    by_cases hends : Call.Ends ⟨u.pid, c, L.outcome c u.lib⟩ p
    swap
    · refine .holds (fun h => ((ended_cons _ _ _).mp h).elim hends hlive)
        (hC.lasts u.pid hwriting hends hcloses hpanics) ?_
      exact hseen.trans (hC.rises u.pid hwriting hends hcloses hpanics name)
    by_cases hcommits : Call.Commits ⟨u.pid, c, L.outcome c u.lib⟩ p
    · obtain ⟨rfl, ho⟩ := hcommits
      have hcommit := congrFun (hC.commits ho hwriting) name
      refine .kept (hseen.trans_eq hcommit.symm) fun q hq henv => ?_
      have hwas := hC.was_writing (fun _ => by simp) hq
      obtain rfl := hC.alone hwas hwriting henv
      exact absurd hq (hC.ends u.pid hends)
    · refine .lost ⟨_, List.suffix_rfl, (ended_cons _ _ _).mpr (.inl hends), ?_⟩
      exact fun h => ((committed_cons _ _ _).mp h).elim hcommits fun h => hlive h.ended
  | kept hcommitted hseen =>
    have hcommitted' : bound ≤ C.committed (L.call c u.lib).2 p.env name := by
      by_cases hwriter : ∃ q, Call.Commits ⟨u.pid, c, L.outcome c u.lib⟩ q ∧ q.env = p.env ∧
          C.writing u.lib q
      · obtain ⟨q, ⟨rfl, ho⟩, henv, hq⟩ := hwriter
        rw [← henv]
        exact (hseen q hq henv).trans_eq (congrFun (hC.commits ho hq) name).symm
      · refine hcommitted.trans (hC.keeps u.pid hpanics (fun q hcommits henv hq => ?_) name)
        exact hwriter ⟨q, hcommits, henv, hq⟩
    refine .kept hcommitted' fun q hq henv => ?_
    rcases hC.starts hq with hwas | ⟨flags, rfl, ho⟩
    · have hlive : ¬ Call.Ends ⟨u.pid, c, L.outcome c u.lib⟩ q := fun h => hC.ends u.pid h hq
      rw [← henv] at hcloses hpanics
      exact (hseen q hwas henv).trans (hC.rises u.pid hwas hlive hcloses hpanics name)
    · exact hcommitted'.trans_eq (henv ▸ congrFun (hC.begins ho).1 name).symm
  | lost hlost => exact .lost (hlost.cons _)

/-- If the run was calm, the sequence is where it was moved, or further on. -/
def Since (C : Counters σ) (p : TxnPtr) (name : Option Bytes) (bound : Tally) (u : World σ) :
    Prop :=
  Calm u.log p.env → Past C p name bound u

/-- Only what libmdbx shows of the sequences and the trace matter. -/
theorem Since.congr (hu : Since C p name bound u) (hlog : w.log = u.log)
    (hseen : C.view w.lib = C.view u.lib) (hcommitted : C.committed w.lib = C.committed u.lib)
    (hwriting : C.writing w.lib = C.writing u.lib) : Since C p name bound w := by
  intro hcalm
  rw [hlog] at hcalm
  cases hu hcalm with
  | holds hlive hw hs => exact .holds (hlog ▸ hlive) (hwriting ▸ hw) (hseen ▸ hs)
  | kept hc hs => exact .kept (hcommitted ▸ hc) fun q hq => hseen ▸ hs q (hwriting ▸ hq)
  | lost hlost => exact .lost (hlog ▸ hlost)

/-- Whatever the package does, it does not take a sequence back. -/
theorem since_frame (hC : L.KeepsCounters N C) :
    L.Frame fun w w' => Since C p name bound w → Since C p name bound w' := by
  have := preorder_of_kept fun w : World σ => Since C p name bound w
  refine Platform.frame_of_calls (fun c u hu => ?_) (fun u hu => ?_) (fun u hu => ?_)
    fun hlib hlog hu => ?_
  · show Since C p name bound ((native L c).run u).2
    rw [native_final]
    exact fun hcalm => (hu hcalm.uncons).step hC hcalm
  · obtain ⟨hseen, hcommitted, hwriting⟩ := hC.grows u.lib
    exact hu.congr rfl hseen hcommitted hwriting
  · obtain ⟨hseen, hcommitted, hwriting⟩ := hC.collects u.lib
    exact hu.congr rfl hseen hcommitted hwriting
  · exact hu.congr hlog (by rw [hlib]) (by rw [hlib]) (by rw [hlib])

/-- Whoever moves the sequence, in the transaction `p` while it goes on or in one after it if `p` is
committed, finds it where `p` left it or further on. -/
theorem Past.seen_later {lossy : Bool} (hC : L.KeepsCounters N C)
    (hu : Past C p name bound u) (hlog : u.log <:+ log) (hsafe : Safe lossy log)
    (hkept : ¬ Ended u.log p ∨ Committed log p) {q : TxnPtr} (hq : C.writing u.lib q)
    (henv : q.env = p.env) : bound ≤ C.view u.lib q name := by
  cases hu with
  | holds _ hwriting hseen =>
    obtain rfl := hC.alone hq hwriting henv
    exact hseen
  | kept _ hseen => exact hseen q hq henv
  | lost hlost =>
    obtain ⟨past, hpast, hends, hnot⟩ := hlost
    rcases hkept with hlive | hcommitted
    · obtain ⟨c, hc, hcall⟩ := hends
      exact absurd ⟨c, hpast.subset hc, hcall⟩ hlive
    · exact absurd hcommitted (Lost.not_committed ⟨past, hpast.trans hlog, hends, hnot⟩ hsafe)

/-- The R function calls the entry point, or does nothing. -/
theorem mdbxDbiSequence_event (txn : Sexp) (db : DbArg) (increment : NumberArg) (w : World σ) :
    ((mdbxDbiSequence L txn db increment).run w).2 = w ∨ ∃ names x,
      ((mdbxDbiSequence L txn db increment).run w).2 =
        (Event.entry (.dbiSequence txn names x)).next L w := by
  rcases mdbxDbiSequence_exact (L := L) txn db increment w with ⟨c, hrun⟩ | ⟨n, -, -, hrun, -⟩
  · rw [hrun]
    exact .inl rfl
  rw [hrun]
  have hsame := dbName_world db txn w
  rcases hnames : (dbName db txn).run w with ⟨x | names, w₁⟩
  · rw [hnames] at hsame
    rw [Prog.bind_error hnames]
    exact .inl hsame
  · rw [hnames] at hsame
    obtain rfl : w₁ = w := hsame
    rw [Prog.bind_ok hnames]
    refine .inr ⟨names, .ofNat n, ?_⟩
    show ((mdbxDbiSequence_ L txn names (.ofNat n)).run w₁).2 =
      ((Answer.number <$> mdbxDbiSequence_ L txn names (.ofNat n)).run w₁).2
    rw [Prog.map_final]

/-- A call of the R function is a step of the run, or none. -/
theorem mdbxDbiSequence_steps (txn : Sexp) (db : DbArg) (increment : NumberArg) (w : World σ) :
    Steps L w ((mdbxDbiSequence L txn db increment).run w).2 := by
  rcases mdbxDbiSequence_event (L := L) txn db increment w with h | ⟨names, x, h⟩
  · rw [h]
  · exact .single ⟨.entry (.dbiSequence txn names x), trivial, h⟩

end Runs

section Disjoint

variable {L : Platform σ} {N : Names σ} {C : Counters σ} {w₁ w₁' w₂ w₂' w₃ : World σ} {e : EnvRef}
  {t₁ t₂ : TxnRef} {k₁ k₂ : TxnHandle} {db₁ db₂ : DbArg} {increment₁ increment₂ : NumberArg}
  {x₁ x₂ : Double}

/-- Of two reservations of one database in a run, made in one transaction or the first of them
committed sooner or later, with the database not emptied in between, the later one starts where the
earlier one ends or beyond. -/
theorem reservations_disjoint (hN : L.OpensNames N) (hC : L.KeepsCounters N C)
    (hr : Reachable L w₁) (ht₁ : LiveTxn w₁ e t₁ k₁)
    (h₁ : (mdbxDbiSequence L (.txn t₁) db₁ increment₁).run w₁ = (.ok x₁, w₁'))
    (hsteps : Steps L w₁' w₂) (ht₂ : LiveTxn w₂ e t₂ k₂)
    (h₂ : (mdbxDbiSequence L (.txn t₂) db₂ increment₂).run w₂ = (.ok x₂, w₂'))
    (hrest : Steps L w₂' w₃) (hkeeps : t₁ = t₂ ∨ Committed w₃.log ⟨e, t₁⟩)
    (hname : db₁.name = db₂.name) (hemptied : (C.view w₁'.lib ⟨e, t₁⟩ db₁.name).emptied =
      (C.view w₂.lib ⟨e, t₂⟩ db₂.name).emptied) :
    ∃ n₁ n₂ a b, n₁ ≤ 2 ^ 53 ∧ n₂ ≤ 2 ^ 53 ∧ increment₁ = .number (.ofNat n₁) ∧
      increment₂ = .number (.ofNat n₂) ∧ x₁ = .ofNat a ∧ x₂ = .ofNat b ∧
      (0 < n₁ → 0 < n₂ → a + n₁ ≤ b ∧ b + n₂ ≤ 2 ^ 53) := by
  have hsteps₁ : Steps L w₁ w₁' := by
    simpa [h₁] using mdbxDbiSequence_steps (L := L) (.txn t₁) db₁ increment₁ w₁
  have hsteps₂ : Steps L w₂ w₂' := by
    simpa [h₂] using mdbxDbiSequence_steps (L := L) (.txn t₂) db₂ increment₂ w₂
  have hr₂ : Reachable L w₂ := (hr.steps hsteps₁).steps hsteps
  have hfirst := mdbxDbiSequence_reserved hC hN hr ht₁ db₁ increment₁
  rw [Triple, h₁] at hfirst
  obtain ⟨n₁, hn₁, hinc₁, hx₁, A₁⟩ := hfirst
  have hsecond := mdbxDbiSequence_reserved hC hN hr₂ ht₂ db₂ increment₂
  rw [Triple, h₂] at hsecond
  obtain ⟨n₂, hn₂, hinc₂, hx₂, A₂⟩ := hsecond
  refine ⟨n₁, n₂, _, _, hn₁, hn₂, hinc₁, hinc₂, hx₁, hx₂, fun hpos₁ hpos₂ => ⟨?_, A₂.exact hpos₂⟩⟩
  have I₁ : Inv { lossy := true } w₁ := hr.invariant (by simp)
  have I₃ : Inv { lossy := true } w₃ := ((hr₂.steps hsteps₂).steps hrest).invariant (by simp)
  -- the sequence is followed from the end of the first call to the start of the second
  have hsince : Since C ⟨e, t₁⟩ db₁.name (C.view w₁'.lib ⟨e, t₁⟩ db₁.name) w₂ := by
    refine (since_frame hC).steps hsteps fun _ => ?_
    refine .holds (fun hended => ?_) (A₁.writing hpos₁).2 le_rfl
    exact I₁.traced.notEnded ht₁.at_ ht₁.owner (by simp) (A₁.ended hended)
  obtain ⟨hopen, hhealthy⟩ := mdbxDbiSequence_calm hr₂ ht₂ h₂
  have hlog : w₂.log <:+ w₃.log := Steps.log (hsteps₂.trans hrest)
  have I₂ : Inv { lossy := true } w₂ := hr₂.invariant (by simp)
  have hstays : ¬ Ended w₂.log ⟨e, t₁⟩ ∨ Committed w₃.log ⟨e, t₁⟩ := by
    refine hkeeps.imp_left ?_
    rintro rfl
    exact I₂.traced.notEnded ht₂.at_ ht₂.owner (by simp)
  have hlater := (hsince ⟨hopen, hhealthy⟩).seen_later hC hlog I₃.safe hstays
    (A₂.writing hpos₂).1 rfl
  rw [← hname] at hemptied ⊢
  have hcount := Tally.count_le hlater hemptied
  rwa [A₁.seen] at hcount

/-- A call of `mdbx_dbi_sequence` that returns gives the number at which the sequence stood, rounded
only beyond the numbers that doubles hold exactly, and moves it by exactly its increment inside
them; a call that raises leaves it as it was, and libmdbx reports no overflow.  Of two reservations
of one database in a run, made in one transaction or the first of them committed sooner or later,
the later one starts where the earlier one ends or beyond, if the database was not emptied in
between. -/
theorem Reachable.sequences (hN : L.OpensNames N) (hC : L.KeepsCounters N C) (hr : Reachable L w₁)
    (ht₁ : LiveTxn w₁ e t₁ k₁) :
    (∀ db increment, Triple (mdbxDbiSequence L (.txn t₁) db increment) w₁
      (fun y u => ∃ n ≤ 2 ^ 53, increment = .number (.ofNat n) ∧
        y = .ofNat (C.view w₁.lib ⟨e, t₁⟩ db.name).count ∧
        ((C.view w₁.lib ⟨e, t₁⟩ db.name).count ≤ 2 ^ 53 →
          ∃ h, y = .finite (C.view w₁.lib ⟨e, t₁⟩ db.name).count h) ∧
        Advanced C ⟨e, t₁⟩ db.name n w₁ u)
      (fun _ u => Resting C ⟨e, t₁⟩ db.name w₁ u)) ∧
    (∀ x db increment,
      Overflowed ((mdbxDbiSequence L x db increment).run w₁).2.log → Overflowed w₁.log) ∧
    ∀ {db₁ db₂ increment₁ increment₂ x₁ x₂ w₁' w₂ w₂' w₃ t₂ k₂},
      (mdbxDbiSequence L (.txn t₁) db₁ increment₁).run w₁ = (.ok x₁, w₁') → Steps L w₁' w₂ →
      LiveTxn w₂ e t₂ k₂ →
      (mdbxDbiSequence L (.txn t₂) db₂ increment₂).run w₂ = (.ok x₂, w₂') → Steps L w₂' w₃ →
      t₁ = t₂ ∨ Committed w₃.log ⟨e, t₁⟩ → db₁.name = db₂.name →
      (C.view w₁'.lib ⟨e, t₁⟩ db₁.name).emptied = (C.view w₂.lib ⟨e, t₂⟩ db₂.name).emptied →
      ∃ n₁ n₂ a b, n₁ ≤ 2 ^ 53 ∧ n₂ ≤ 2 ^ 53 ∧ increment₁ = .number (.ofNat n₁) ∧
        increment₂ = .number (.ofNat n₂) ∧ x₁ = .ofNat a ∧ x₂ = .ofNat b ∧
        (0 < n₁ → 0 < n₂ → a + n₁ ≤ b ∧ b + n₂ ≤ 2 ^ 53) := by
  refine ⟨fun db increment => ?_, mdbxDbiSequence_in_range hC hN hr, fun h₁ hsteps ht₂ h₂ =>
    reservations_disjoint hN hC hr ht₁ h₁ hsteps ht₂ h₂⟩
  refine (mdbxDbiSequence_reserved hC hN hr ht₁ db increment).mono ?_ fun _ _ h => h
  rintro y u ⟨n, hn, hincrement, rfl, A⟩
  exact ⟨n, hn, hincrement, rfl, fun hexact => ⟨_, Double.ofNat_exact hexact⟩, A⟩

end Disjoint

/-! ### A library with one sequence -/

/-- The committed sequence of each main database, the write transaction, and what that sees of the
sequence. -/
structure Ledger where
  committed : EnvPtr → Tally
  writer : Option TxnPtr
  view : Tally

def Ledger.seen (s : Ledger) (p : TxnPtr) : Tally :=
  if s.writer = some p then s.view else s.committed p.env

def ledgerCall (s : Ledger) : (c : NativeCall) → Reply c × Ledger
  | .dbiOpen _ none _ => (⟨Status.success, (0 : ℕ)⟩, s)
  -- `MDBX_DBS_FULL`: the environment was opened without room for named databases.
  | .dbiOpen _ (some _) _ => (⟨-30791, (0 : ℕ)⟩, s)
  | .txnBegin p flags =>
    -- `MDBX_BUSY`: another write transaction is open.
    if s.writer.isSome then (⟨-30778, ()⟩, s)
    else if flags &&& flagRdonly ≠ 0 then (⟨Status.success, ()⟩, s)
    else (⟨Status.success, ()⟩, { s with writer := some p, view := s.committed p.env })
  | .dbiSequence p _ n =>
    if n = 0 then (⟨Status.success, (s.seen p).count⟩, s)
    else if s.writer ≠ some p then (⟨Status.eaccess, (0 : ℕ)⟩, s)
    else if 2 ^ 64 ≤ s.view.count + n then (⟨Status.resultTrue, (0 : ℕ)⟩, s)
    else (⟨Status.success, s.view.count⟩, { s with view := s.view.advanced n })
  | .txnCommit p =>
    if s.writer = some p then
      (⟨Status.success, ()⟩, ⟨Function.update s.committed p.env s.view, none, ⟨0, 0⟩⟩)
    else (⟨Status.success, ()⟩, s)
  | .txnAbort p _ =>
    if s.writer = some p then (⟨Status.success, ()⟩, { s with writer := none, view := ⟨0, 0⟩ })
    else (⟨Status.success, ()⟩, s)
  | .drop _ _ true => (⟨Status.incompatible, ()⟩, s)
  | .drop p _ false =>
    if s.writer = some p then (⟨Status.success, ()⟩, { s with view := ⟨s.view.emptied + 1, 0⟩ })
    else (⟨Status.eaccess, ()⟩, s)
  | c => (⟨Status.success, c.blank⟩, s)

def ledger : Platform Ledger where
  call c s := (.ok (ledgerCall s c).1, (ledgerCall s c).2)
  quiet _ _ _ := ⟨_, rfl⟩
  badAlloc s := (false, s)
  allocate s := (⟨[], false⟩, s)
  strerror _ := ""
  wide := true

def ledgerCounters : Counters Ledger where
  view s p
    | none => s.seen p
    | some _ => ⟨0, 0⟩
  committed s e
    | none => s.committed e
    | some _ => ⟨0, 0⟩
  writing s p := s.writer = some p

theorem ledgerCounters_le {s s' : Ledger} {p : TxnPtr} (h : s.seen p ≤ s'.seen p)
    (name : Option Bytes) : ledgerCounters.view s p name ≤ ledgerCounters.view s' p name := by
  cases name with
  | none => exact h
  | some _ => exact le_rfl

/-- What a call can do to the sequence. -/
inductive LedgerStep (s : Ledger) : NativeCall → Ledger → Prop where
  | same {c : NativeCall} : LedgerStep s c s
  | begins {p : TxnPtr} {flags : ℕ} (hnone : s.writer = none) (hok :
      (ledgerCall s (.txnBegin p flags)).1.rc = Status.success) :
    LedgerStep s (.txnBegin p flags) { s with writer := some p, view := s.committed p.env }
  | counts {p : TxnPtr} {dbi : Dbi} {n : ℕ} (hwriter : s.writer = some p) :
    LedgerStep s (.dbiSequence p dbi n) { s with view := s.view.advanced n }
  | commits {p : TxnPtr} (hwriter : s.writer = some p) :
    LedgerStep s (.txnCommit p) ⟨Function.update s.committed p.env s.view, none, ⟨0, 0⟩⟩
  | aborts {p : TxnPtr} {caller : Caller} (hwriter : s.writer = some p) :
    LedgerStep s (.txnAbort p caller) { s with writer := none, view := ⟨0, 0⟩ }
  | drops {p : TxnPtr} {dbi : Dbi} (hwriter : s.writer = some p) :
    LedgerStep s (.drop p dbi false) { s with view := ⟨s.view.emptied + 1, 0⟩ }

theorem ledgerCall_step (s : Ledger) (c : NativeCall) : LedgerStep s c (ledgerCall s c).2 := by
  cases c with
  | dbiOpen p name flags => cases name <;> exact .same
  | txnBegin p flags =>
    rw [ledgerCall]
    by_cases hbusy : s.writer.isSome = true
    · rw [if_pos hbusy]
      exact .same
    by_cases hflags : flags &&& flagRdonly ≠ 0
    · rw [if_neg hbusy, if_pos hflags]
      exact .same
    · rw [if_neg hbusy, if_neg hflags]
      exact .begins (by simpa using hbusy) (by rw [ledgerCall, if_neg hbusy, if_neg hflags])
  | dbiSequence p dbi n =>
    rw [ledgerCall]
    split
    · exact .same
    split
    · exact .same
    split
    · exact .same
    · exact .counts (by simpa using ‹¬ _ ≠ _›)
  | txnCommit p =>
    rw [ledgerCall]
    split
    · exact .commits ‹_›
    · exact .same
  | txnAbort p caller =>
    rw [ledgerCall]
    split
    · exact .aborts ‹_›
    · exact .same
  | drop p dbi del =>
    cases del
    · rw [ledgerCall]
      split
      · exact .drops ‹_›
      · exact .same
    · exact .same
  | _ => exact .same

theorem ledger_outcome (c : NativeCall) (s : Ledger) :
    ledger.outcome c s = .returned (ledgerCall s c).1.rc := rfl

/-- Every transaction ends that is asked to. -/
theorem ledger_ends {s : Ledger} {c : NativeCall} {p : TxnPtr} {pid : Pid}
    (hc : c.finishes = some p) : Call.Ends ⟨pid, c, ledger.outcome c s⟩ p := by
  have hrc : (ledgerCall s c).1.rc = Status.success := by
    cases c with
    | txnCommit q => rw [ledgerCall]; split <;> rfl
    | txnAbort q caller => rw [ledgerCall]; split <;> rfl
    | _ => cases hc
  refine ⟨hc, ?_, ?_⟩
  · simp [ledger_outcome]
  · show Outcome.returned _ ≠ _
    rw [hrc]
    decide

theorem ledger_opensNames : ledger.OpensNames mainOnly :=
  mainOnly_opensNames (fun h _ => by cases h; rfl) (fun h hrc => by cases h; cases hrc)
    fun h hrc => by cases h; cases hrc

/-- How the library answers a call for the sequence. -/
theorem ledgerCall_sequence (s : Ledger) (p : TxnPtr) (dbi : Dbi) (n : ℕ) :
    (n = 0 ∧ ledgerCall s (.dbiSequence p dbi n) = (⟨Status.success, (s.seen p).count⟩, s)) ∨
      (0 < n ∧ ∃ rc ≠ Status.success, (rc = Status.resultTrue → 2 ^ 64 ≤ (s.seen p).count + n) ∧
        ledgerCall s (.dbiSequence p dbi n) = (⟨rc, (0 : ℕ)⟩, s)) ∨
      (s.writer = some p ∧
        ledgerCall s (.dbiSequence p dbi n) =
          (⟨Status.success, s.view.count⟩, { s with view := s.view.advanced n })) := by
  rw [ledgerCall]
  by_cases hzero : n = 0
  · exact .inl ⟨hzero, if_pos hzero⟩
  have hpos := Nat.pos_of_ne_zero hzero
  rw [if_neg hzero]
  by_cases hreader : s.writer ≠ some p
  · exact .inr (.inl ⟨hpos, Status.eaccess, by decide, fun h => (by cases h), if_pos hreader⟩)
  have hwriter := not_not.mp hreader
  rw [if_neg hreader]
  by_cases hfull : 2 ^ 64 ≤ s.view.count + n
  · refine .inr (.inl ⟨hpos, Status.resultTrue, by decide, fun _ => ?_, if_pos hfull⟩)
    rwa [Ledger.seen, if_pos hwriter]
  · exact .inr (.inr ⟨hwriter, if_neg hfull⟩)

theorem ledger_keepsCounters : ledger.KeepsCounters mainOnly ledgerCounters where
  opens s p name := by cases name <;> rfl
  advances := by
    rintro s p (_ | name) dbi n r hslot hcall hrc
    swap
    · cases hslot
    obtain rfl := Except.ok.inj hcall
    show (ledgerCall s (.dbiSequence p dbi n)).1.out = (s.seen p).count ∧
      (ledgerCall s (.dbiSequence p dbi n)).2.seen p = (s.seen p).advanced n ∧
        (0 < n → s.writer = some p ∧ (ledgerCall s (.dbiSequence p dbi n)).2.writer = some p)
    rcases ledgerCall_sequence s p dbi n with ⟨hzero, h⟩ | ⟨-, rc, hne, -, h⟩ | ⟨hwriter, h⟩
    · rw [h, hzero]
      exact ⟨rfl, rfl, fun hpos => absurd hpos (lt_irrefl 0)⟩
    · rw [h] at hrc
      exact absurd hrc hne
    · rw [h]
      simp [Ledger.seen, hwriter]
  overflows := by
    rintro s p (_ | name) dbi n r hslot hcall hrc
    swap
    · cases hslot
    obtain rfl := Except.ok.inj hcall
    rcases ledgerCall_sequence s p dbi n with ⟨-, h⟩ | ⟨hpos, rc, -, hfull, h⟩ | ⟨-, h⟩
    · rw [h] at hrc
      cases hrc
    · rw [h] at hrc
      exact ⟨hpos, hfull hrc⟩
    · rw [h] at hrc
      cases hrc
  fails := by
    rintro s p (_ | name) dbi n hslot ho
    swap
    · cases hslot
    show (ledgerCall s (.dbiSequence p dbi n)).2.seen p = s.seen p
    rw [ledger_outcome] at ho
    rcases ledgerCall_sequence s p dbi n with ⟨-, h⟩ | ⟨-, rc, -, -, h⟩ | ⟨-, h⟩
    · rw [h]
    · rw [h]
    · rw [h] at ho
      exact absurd rfl ho
  alone h h' _ := Option.some.inj (h.symm.trans h')
  starts {c s p} h := by
    have hstep := ledgerCall_step s c
    change (ledgerCall s c).2.writer = some p at h
    show s.writer = some p ∨ _
    generalize (ledgerCall s c).2 = s' at h hstep
    cases hstep with
    | begins hnone hok =>
      cases h
      exact .inr ⟨_, rfl, congrArg Outcome.returned hok⟩
    | commits => cases h
    | aborts => cases h
    | _ => exact .inl h
  begins {s p flags} ho := by
    have hrc := Outcome.returned.inj ho
    suffices h : (ledgerCall s (.txnBegin p flags)).2.seen p =
        (ledgerCall s (.txnBegin p flags)).2.committed p.env ∧
          (flags &&& flagRdonly = 0 → (ledgerCall s (.txnBegin p flags)).2.writer = some p) by
      refine ⟨funext fun name => ?_, h.2⟩
      cases name with
      | none => exact h.1
      | some _ => rfl
    rw [ledgerCall] at hrc ⊢
    by_cases hbusy : s.writer.isSome = true
    · rw [if_pos hbusy] at hrc
      cases hrc
    rw [if_neg hbusy]
    by_cases hread : flags &&& flagRdonly ≠ 0
    · rw [if_pos hread]
      exact ⟨by simp [Ledger.seen, Option.not_isSome_iff_eq_none.mp hbusy], fun h => absurd h hread⟩
    · rw [if_neg hread]
      exact ⟨by simp [Ledger.seen], fun _ => rfl⟩
  lasts {c s p} pid hwriting hends _ _ := by
    have hstep := ledgerCall_step s c
    have hwriter : s.writer = some p := hwriting
    show (ledgerCall s c).2.writer = some p
    generalize hs : (ledgerCall s c).2 = s' at hstep
    cases hstep with
    | begins hnone => rw [hnone] at hwriter; cases hwriter
    | commits hwriter' =>
      obtain rfl := Option.some.inj (hwriter'.symm.trans hwriter)
      exact absurd (ledger_ends rfl) hends
    | aborts hwriter' =>
      obtain rfl := Option.some.inj (hwriter'.symm.trans hwriter)
      exact absurd (ledger_ends rfl) hends
    | _ => exact hwriter
  rises {c s p} pid hwriting hends _ _ := by
    have hstep := ledgerCall_step s c
    have hwriter : s.writer = some p := hwriting
    suffices h : s.seen p ≤ (ledgerCall s c).2.seen p from ledgerCounters_le h
    generalize hs : (ledgerCall s c).2 = s' at hstep
    cases hstep with
    | same => exact le_rfl
    | begins hnone => rw [hnone] at hwriter; cases hwriter
    | @counts q dbi n _ =>
      simp only [Ledger.seen, hwriter]
      exact Tally.le_advanced _ _
    | commits hwriter' =>
      obtain rfl := Option.some.inj (hwriter'.symm.trans hwriter)
      exact absurd (ledger_ends rfl) hends
    | aborts hwriter' =>
      obtain rfl := Option.some.inj (hwriter'.symm.trans hwriter)
      exact absurd (ledger_ends rfl) hends
    | drops =>
      simp only [Ledger.seen, hwriter]
      exact Tally.le_emptied _
  ends {c s p} pid hends hwriting := by
    change (ledgerCall s c).2.writer = some p at hwriting
    obtain ⟨hfinishes, -⟩ := hends
    cases c with
    | txnCommit q =>
      cases hfinishes
      rw [ledgerCall] at hwriting
      split at hwriting
      · cases hwriting
      · exact absurd hwriting ‹_›
    | txnAbort q caller =>
      cases hfinishes
      rw [ledgerCall] at hwriting
      split at hwriting
      · cases hwriting
      · exact absurd hwriting ‹_›
    | _ => cases hfinishes
  commits {s p} ho hwriting := by
    have hwriter : s.writer = some p := hwriting
    funext name
    rcases name with _ | name
    swap
    · rfl
    show (ledgerCall s (.txnCommit p)).2.committed p.env = s.seen p
    rw [ledgerCall, if_pos hwriter, Ledger.seen, if_pos hwriter]
    exact Function.update_self ..
  keeps {c s e} pid hpanics hwriter name := by
    have hstep := ledgerCall_step s c
    show ledgerCounters.committed s e name ≤ ledgerCounters.committed (ledgerCall s c).2 e name
    generalize hs : (ledgerCall s c).2 = s' at hstep
    cases hstep with
    | @commits p hwriting =>
      have hother : e ≠ p.env := by
        rintro rfl
        refine hwriter p ⟨rfl, ?_⟩ rfl hwriting
        rw [ledger_outcome, ledgerCall, if_pos hwriting]
      rcases name with _ | name
      swap
      · exact le_rfl
      exact (Function.update_of_ne hother ..).ge
    | _ => exact le_rfl
  grows _ := ⟨rfl, rfl, rfl⟩
  collects _ := ⟨rfl, rfl, rfl⟩

/-- A program that is found to return. -/
theorem run_of_toOption {X : Type} {m : Prog (World σ) X α} {w : World σ} {a : α}
    (h : (m.run w).1.toOption = some a) : m.run w = (.ok a, (m.run w).2) := by
  rcases hr : m.run w with ⟨x | b, w'⟩
  · rw [hr] at h
    cases h
  · rw [hr] at h
    cases h
    rfl

theorem exists_ok {X : Type} {m : Prog (World σ) X α} {w : World σ}
    (h : (m.run w).1.toOption.isSome = true) : ∃ a, m.run w = (.ok a, (m.run w).2) := by
  obtain ⟨a, ha⟩ := Option.isSome_iff_exists.mp h
  exact ⟨a, run_of_toOption ha⟩

/-- The next transaction after one that was committed. -/
def commitAndBegin : List Event :=
  [.entry (.txnCommit (.txn 1)), .entry (.txnBegin (.env 0) true [])]

/-- A write transaction is open on a main database whose sequence another program left at 5. -/
def ledgerBegun : World Ledger :=
  (World.start ⟨fun _ => ⟨0, 5⟩, none, ⟨0, 0⟩⟩ 1).after ledger openAndBegin

theorem ledgerBegun_reachable : Reachable ledger ledgerBegun :=
  ⟨_, 1, World.after_steps ⟨trivial, trivial, trivial⟩⟩

/-- Three numbers are reserved in it. -/
def ledgerReserved : World Ledger :=
  ((mdbxDbiSequence ledger (.txn 1) .null (.number (.ofNat 3))).run ledgerBegun).2

def ledgerNext : World Ledger := ledgerReserved.after ledger commitAndBegin

/-- Four more are reserved in the next transaction. -/
theorem Reachable.sequences_ledger : ∃ a b x y,
    (mdbxDbiSequence ledger (.txn 1) .null (.number (.ofNat 3))).run ledgerBegun =
      (.ok (.ofNat a), x) ∧
    (mdbxDbiSequence ledger (.txn 2) .null (.number (.ofNat 4))).run ledgerNext =
      (.ok (.ofNat b), y) ∧ a + 3 ≤ b ∧ b + 4 ≤ 2 ^ 53 := by
  obtain ⟨k₁, hk₁⟩ : ∃ k, LiveTxn ledgerBegun 0 1 k := exists_liveTxn (by decide +kernel)
  obtain ⟨k₂, hk₂⟩ : ∃ k, LiveTxn ledgerNext 0 2 k := exists_liveTxn (by decide +kernel)
  obtain ⟨x₁, h₁⟩ := exists_ok (m := mdbxDbiSequence ledger (.txn 1) .null (.number (.ofNat 3)))
    (w := ledgerBegun) (by decide +kernel)
  obtain ⟨x₂, h₂⟩ := exists_ok (m := mdbxDbiSequence ledger (.txn 2) .null (.number (.ofNat 4)))
    (w := ledgerNext) (by decide +kernel)
  obtain ⟨-, -, hdisjoint⟩ := Reachable.sequences ledger_opensNames ledger_keepsCounters
    ledgerBegun_reachable hk₁
  obtain ⟨n₁, n₂, a, b, hn₁, hn₂, hinc₁, hinc₂, hx₁, hx₂, hrange⟩ := hdisjoint h₁
    (World.after_steps ⟨trivial, trivial, trivial⟩ : Steps ledger ledgerReserved ledgerNext) hk₂ h₂
    .refl (.inr ⟨⟨1, .txnCommit ⟨0, 1⟩, .returned Status.success⟩, by decide +kernel, rfl, rfl⟩) rfl
    (by decide +kernel)
  obtain rfl := Double.ofNat_inj (by norm_num) hn₁ (NumberArg.number.inj hinc₁)
  obtain rfl := Double.ofNat_inj (by norm_num) hn₂ (NumberArg.number.inj hinc₂)
  exact ⟨a, b, _, _, hx₁ ▸ h₁, hx₂ ▸ h₂, hrange (by norm_num) (by norm_num)⟩

end Mdbx
