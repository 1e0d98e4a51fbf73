import Mdbx.Listing
import Mdbx.ProofKit.Paging

/-! Reading a database in chunks inside one transaction: the documented protocol over `mdbx_keys`
and `mdbx_items` returns the full scan, or raises once something has gone wrong. -/

namespace Mdbx

open ProofKit

variable {σ K : Type} [LinearOrder K] {L : Platform σ} {T : Tables σ K} {w w₁ : World σ}
  {txn : Sexp} {db : DbArg} {names : List Bytes} {t : TxnRef} {p : TxnPtr} {dbi : Dbi}

/-- Once resolved, a database stays so while a scan goes well. -/
theorem Resolves.again (h : Reachable L w) (R : Resolves L txn db w names t p dbi w₁) {lib : σ}
    {new : List Call} (h' : Reachable L (w₁.advanced lib new)) :
    ∃ w₂, Resolves L txn db (w₁.advanced lib new) names t p dbi w₂ ∧ w₂.lib = lib ∧
      w₂.log = new ++ w₁.log := by
  have I : Inv { lossy := true } w := h.invariant (by simp)
  have I' : Inv { lossy := true } (w₁.advanced lib new) := h'.invariant (by simp)
  rcases txnFromSexp_run I.graph txn with
    ⟨c, hr⟩ | ⟨e, hd, t', k, s, rfl, hs, haddr, hr, he, hk⟩
  · have := congrArg Prod.fst (hr.symm.trans R.accepted)
    cases this
  obtain rfl : t' = t := Except.ok.inj (congrArg Prod.fst (hr.symm.trans R.accepted))
  have hensured : Ensured L w t' k e hd names.head? w₁ (.ok dbi) := by
    have := ensureDbiNamed_run (L := L) he.at_ hk.at_ hk.owner (I.graph.txnPtr hk) names.head?
    have hrun := R.resolved
    rw [ensureDbi] at hrun
    rwa [hrun] at this
  obtain ⟨k₁, S⟩ := hensured.resolved
  have he' : OpenEnv (w₁.advanced lib new) e hd :=
    ⟨by simpa [World.advanced, S.envs] using he.at_, he.env, he.healthy, by
      simpa [World.advanced, S.pid] using he.pid⟩
  have hk' : LiveTxn (w₁.advanced lib new) e t' k₁ :=
    ⟨by simpa [World.advanced] using S.at_, S.owner.trans hk.owner⟩
  have hs' : (w₁.advanced lib new).txnSexps t' = some s := by
    simpa [World.advanced, S.txnSexps] using hs
  refine ⟨(w₁.advanced lib new).setTxn t' (some { k₁ with dbi := dbi }), ⟨?_, ?_, ?_, ?_⟩, rfl, rfl⟩
  · refine Prod.ext ?_ (dbName_world _ _ _)
    rw [dbName_same (w := w), R.named]
    simp [World.pathAttr, World.advanced, S.txnSexps]
  · exact txnFromSexp_live I'.graph hs' haddr he' hk'
  · exact ensureDbiNamed_cached hk'.at_ S.cached
  · have hpointer := R.pointer
    rw [S.at_] at hpointer
    simpa using hpointer

/-- The database that was `m` in `w₁` can still be read from `w`, and nothing has gone wrong
since. -/
structure Snapshot (L : Platform σ) (T : Tables σ K) (txn : Sexp) (db : DbArg) (names : List Bytes)
    (t : TxnRef) (p : TxnPtr) (dbi : Dbi) (w₁ w : World σ) : Prop where
  reachable : Reachable L w
  resolves : ∃ w₂ new, Resolves L txn db w names t p dbi w₂ ∧ w₂.log = new ++ w₁.log ∧
    Quiet T w₁.lib w₂.lib new

/-- What `mdbx_items` returns, as records. -/
def readItems (L : Platform σ) (txn : Sexp) (limit : NumberArg) (db : DbArg) (reverse : Bool)
    (start : Option Bytes) : Front σ (List Record) :=
  (fun found => found.1.zip found.2) <$> mdbxItems L txn limit db start reverse

/-- What `mdbx_keys` returns. -/
def readKeys (L : Platform σ) (txn : Sexp) (limit : NumberArg) (db : DbArg) (reverse : Bool)
    (start : Option Bytes) : Front σ (List Bytes) := mdbxKeys L txn limit db start reverse

/-- How a chunked read ends that does not return: by a condition, after a fault. -/
def Failed (T : Tables σ K) (w₁ : World σ) (x : Signal) (w : World σ) : Prop :=
  (∃ c, x = .native (.stop c)) ∧ ∃ new, w.log = new ++ w₁.log ∧ Faulted T w₁.lib w.lib new

theorem Resolves.snapshot (h : Reachable L w) (R : Resolves L txn db w names t p dbi w₁) :
    Snapshot L T txn db names t p dbi w₁ w :=
  ⟨h, w₁, [], R, rfl, by simp, rfl, rfl⟩

/-- One chunk of a snapshot, after which it can still be read. -/
theorem Snapshot.lists {α : Type} (S : Snapshot L T txn db names t p dbi w₁ w)
    (answer : Table (fun r : Record => T.rank r.1) → α) {m : Front σ α}
    (hreach : Reachable L (m.run w).2)
    (hlists : ∀ w₂, Resolves L txn db w names t p dbi w₂ →
      ∃ gets, Lists T (answer (T.table w₂.lib p dbi)) gets w₂ (m.run w).1 (m.run w).2) :
    Triple m w (fun a w' => a = answer (T.table w₁.lib p dbi) ∧
      Snapshot L T txn db names t p dbi w₁ w') (Failed T w₁) := by
  obtain ⟨h, w₂, new, R, hlog, quiet⟩ := S
  obtain ⟨gets, H⟩ := hlists w₂ R
  rcases hr : m.run w with ⟨r, w'⟩
  rw [hr] at H hreach
  cases H with
  | returned lib new' quiet' hgets =>
    obtain ⟨w₃, R', hlib, hlog'⟩ := R.again h hreach
    refine Triple.ok hr ⟨by rw [quiet.tables], hreach, w₃, new' ++ new, R', ?_, ?_⟩
    · rw [hlog', hlog, List.append_assoc]
    · rw [hlib]
      exact quiet.trans quiet'
  | raised c w' new' hlog' faulted =>
    refine Triple.error hr ⟨⟨c, rfl⟩, new' ++ new, ?_, quiet.faulted faulted⟩
    rw [hlog', hlog, List.append_assoc]

/-- What a scan of an entry point leaves is reached by it. -/
theorem mdbxScan_reachable (h : Reachable L w) (txn : Sexp) (bound : Double) (values : Bool)
    (names : List Bytes) (start : Option Bytes) (reverse : Bool) :
    Reachable L ((Front.call (mdbxScan_ L txn bound values names start reverse)).run w).2 := by
  have hstep := h.entry (.scan txn bound values names start reverse)
  rwa [Command.run, Prog.map_final] at hstep

section Chunks

variable {x : Double} {asked : Option ℕ}

theorem Snapshot.readsKeys (C : L.Cursors T) (S : Snapshot L T txn db names t p dbi w₁ w)
    (A : Asks L (.number x) asked) (reverse : Bool) (start : Option Bytes) :
    Triple (readKeys L txn (.number x) db reverse start) w (fun keys w' =>
      keys = (wanted asked ((T.table w₁.lib p dbi).listing reverse (start.map T.rank))).map
          Prod.fst ∧ Snapshot L T txn db names t p dbi w₁ w') (Failed T w₁) := by
  obtain ⟨_, _, R₀, -, -⟩ := S.resolves
  have hreach : Reachable L ((readKeys L txn (.number x) db reverse start).run w).2 := by
    obtain ⟨bound, hbound, -⟩ := A.bound
    rw [readKeys, mdbxKeys, guardNull, if_neg (by simp), pure_bind, Prog.bind_ok (hbound w),
      Prog.bind_ok R₀.named, ← map_eq_pure_bind, Prog.map_final]
    exact mdbxScan_reachable S.reachable ..
  exact S.lists (fun m => (wanted asked (m.listing reverse (start.map T.rank))).map Prod.fst) hreach
    fun w₂ R => ⟨_, R.keys C S.reachable rfl A start reverse⟩

theorem Snapshot.readsItems (C : L.Cursors T) (S : Snapshot L T txn db names t p dbi w₁ w)
    (A : Asks L (.number x) asked) (reverse : Bool) (start : Option Bytes) :
    Triple (readItems L txn (.number x) db reverse start) w (fun rows w' =>
      rows = wanted asked ((T.table w₁.lib p dbi).listing reverse (start.map T.rank)) ∧
        Snapshot L T txn db names t p dbi w₁ w') (Failed T w₁) := by
  obtain ⟨_, _, R₀, -, -⟩ := S.resolves
  have hreach : Reachable L ((mdbxItems L txn (.number x) db start reverse).run w).2 := by
    obtain ⟨bound, hbound, -⟩ := A.bound
    rw [mdbxItems, guardNull, if_neg (by simp), pure_bind, Prog.bind_ok (hbound w),
      Prog.bind_ok R₀.named]
    exact mdbxScan_reachable S.reachable ..
  have hread := S.lists (fun m => ((wanted asked (m.listing reverse (start.map T.rank))).map
    Prod.fst, (wanted asked (m.listing reverse (start.map T.rank))).map Prod.snd)) hreach
    fun w₂ R => ⟨_, R.items C S.reachable rfl A start reverse⟩
  refine Triple.map (hread.mono ?_ fun _ _ H => H)
  rintro found w' ⟨rfl, S'⟩
  refine ⟨?_, S'⟩
  rw [List.zip_map']
  exact List.map_id _

end Chunks

/-- Read in chunks of at least two, a database is its full scan in the same direction, for
`mdbx_items` and for `mdbx_keys`, and as many chunks as it has records suffice; no other result is
returned. -/
theorem Reachable.chunks (C : L.Cursors T) (h : Reachable L w)
    (R : Resolves L txn db w names t p dbi w₁) {n : ℕ} (hn : 2 ≤ n) (hmax : n ≤ maxWhole L)
    (reverse : Bool) {fuel : ℕ} (hfuel : (T.table w₁.lib p dbi).records.length < fuel) :
    Triple (inChunks (readItems L txn (.number (.ofNat n)) db reverse) Prod.fst n fuel) w
        (fun rows _ => rows = some ((T.table w₁.lib p dbi).listing reverse none)) (Failed T w₁) ∧
      Triple (inChunks (readKeys L txn (.number (.ofNat n)) db reverse) id n fuel) w
        (fun keys _ => keys = some (((T.table w₁.lib p dbi).listing reverse none).map Prod.fst))
        (Failed T w₁) ∧
      Triple (readItems L txn (.number (.inf false)) db reverse none) w
        (fun rows _ => rows = (T.table w₁.lib p dbi).listing reverse none) (Failed T w₁) := by
  have S : Snapshot L T txn db names t p dbi w₁ w := R.snapshot h
  refine ⟨?_, ?_, ?_⟩
  · have hname : ∀ r : Record, (id r).1 = r.1 := fun _ => rfl
    have hall := inChunks_complete Prod.fst T.rank (T.table w₁.lib p dbi) id hname hn
      (fun w' start S' => by simpa [wanted] using S'.readsItems C (.whole n hmax) reverse start)
      hfuel S
    exact hall.mono (fun rows w' H => by simpa using H.1) fun _ _ H => H
  · have hname : ∀ r : Record, id r.1 = r.1 := fun _ => rfl
    have hall := inChunks_complete Prod.fst T.rank (T.table w₁.lib p dbi) Prod.fst hname hn
      (fun w' start S' => S'.readsKeys C (.whole n hmax) reverse start) hfuel S
    exact hall.mono (fun rows w' H => H.1) fun _ _ H => H
  · exact (S.readsItems C .inf reverse none).mono (fun _ _ H => H.1) fun _ _ H => H

/-- The two records of a shelf, in chunks of two. -/
theorem Reachable.chunks_shelf :
    Triple (inChunks (readKeys shelf (.txn 1) (.number (.ofNat 2)) .null true) id 2 3) shelfOpened
      (fun keys _ => keys = some [[98], [97]]) (Failed shelfTables shelfResolved) :=
  (shelfOpened_reachable.chunks shelf_cursors shelfOpened_resolves le_rfl (by decide) true
    (by decide)).2.1

/-- Chunks of more than `max_native_integer` records are refused. -/
theorem huge_chunks_refused :
    shelf.Cursors shelfTables ∧ Reachable shelf shelfOpened ∧
      Resolves shelf (.txn 1) .null shelfOpened [] 1 ⟨0, 1⟩ 0 shelfResolved ∧
      ((inChunks (readKeys shelf (.txn 1) (.number (.ofNat (2 ^ 54))) .null false) id (2 ^ 54)
          3).run shelfOpened).1 = .error (.stop (.limitTooLarge (.ofNat (2 ^ 53)))) :=
  ⟨shelf_cursors, shelfOpened_reachable, shelfOpened_resolves, by decide +kernel⟩

end Mdbx
