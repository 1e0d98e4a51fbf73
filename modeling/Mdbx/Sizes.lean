import Mdbx.Confinement

/-! Doubles that the entry points convert to integers: none is out of range when it is converted,
and what comes through the R functions is converted exactly. -/

namespace Mdbx

open ProofKit

variable {σ α β : Type} {L : Platform σ} {w w' : World σ}

/-! ### The R functions raise -/

/-- From every reachable state the R function goes to a reachable state, and the entry points that
it calls raise if they do not return. -/
abbrev Behaves (L : Platform σ) (m : Front σ α) : Prop :=
  Keeps (Reachable L) (fun x _ => ∀ y, x = .native y → Leaves true y) (fun _ => True) m

namespace Behaves

theorem raises {m : Front σ α} (hm : Behaves L m) (h : Reachable L w) {y : Exit}
    (hx : (m.run w).1 = .error (.native y)) : Leaves true y := by
  have t := hm w h trivial
  rw [Triple] at t
  rcases hr : m.run w with ⟨x | a, w'⟩
  · rw [hr] at t hx
    cases hx
    exact t.2 y rfl
  · rw [hr] at hx
    cases hx

theorem stop (c : FrontCondition) : Behaves L (Front.stop c : Front σ α) :=
  Keeps.exit fun _ _ hx => by cases hx

theorem refuse (refused : Prop) [Decidable refused] (c : FrontCondition) :
    Behaves L (Front.refuse refused c : Front σ Unit) :=
  Keeps.ite (fun _ => stop c) fun _ => .pure _

theorem get : Behaves L (Prog.get : Front σ (World σ)) := fun _ h _ => Triple.get ⟨h, trivial⟩

/-- A call of the entry point of a command. -/
theorem call {m : Pkg σ α} (command : Command) {g : α → Answer} (hm : command.run L = g <$> m) :
    Behaves L (Front.call m) := by
  intro w h _
  have hnext := h.entry command
  have I : Inv { lossy := true } w := h.invariant (by simp)
  have hleaves := (command.spec L (by simp) I).2
  rw [hm] at hnext hleaves
  rw [Prog.map_final] at hnext
  rcases hr : m.run w with ⟨x | a, w₁⟩
  · rw [hr] at hnext
    refine Triple.error (Front.call_error hr) ⟨hnext, ?_⟩
    rintro y ⟨⟩
    exact hleaves _ (by rw [Prog.map_run g hr]; rfl)
  · rw [hr] at hnext
    exact Triple.ok (Front.call_ok hr) ⟨hnext, trivial⟩

theorem checkWhole (x : Double) (arg : String) : Behaves L (checkWhole x arg : Front σ Unit) :=
  refuse _ _

theorem checkSize (x : NumberArg) (arg : String) (bound : Double) (nullHint : String) :
    Behaves L (checkSize x arg bound nullHint : Front σ Double) := by
  cases x with
  | null => exact .pure _
  | other => exact stop _
  | number x =>
    refine (refuse _ _).bind fun _ => (checkWhole x arg).bind fun _ => ?_
    exact (refuse _ _).bind fun _ => .pure _

theorem checkReaders (x : NumberArg) : Behaves L (checkReaders x : Front σ Double) := by
  refine Keeps.ite (fun _ => .pure _) fun _ => ?_
  exact (checkSize x _ _ _).bind fun x => (refuse _ _).bind fun _ => .pure _

theorem checkLimit (limit : NumberArg) : Behaves L (checkLimit L limit) := by
  cases limit with
  | null => exact .pure _
  | other => exact stop _
  | number x =>
    refine (refuse _ _).bind fun _ => Keeps.ite (fun _ => .pure _) fun _ => ?_
    exact (checkWhole x _).bind fun _ => (refuse _ _).bind fun _ => .pure _

theorem dbName (db : DbArg) (txn : Sexp) : Behaves L (dbName db txn : Front σ (List Bytes)) := by
  rcases db with _ | ⟨_ | name, _ | path⟩ | _
  · exact .pure _
  · exact stop _
  · exact stop _
  · exact stop _
  · exact get.bind fun w => (refuse _ _).bind fun _ => .pure _
  · exact stop _

theorem guardNull (limit : NumberArg) (txn : Sexp) (db : DbArg) :
    Behaves L (guardNull L limit txn db) := by
  refine Keeps.ite (fun _ => Keeps.bind ?_ fun stat => refuse _ _) fun _ => .pure _
  cases txn with
  | env x => exact stop _
  | other => exact stop _
  | txn x =>
    exact (dbName db _).bind fun names => call (.txnStat (.txn x) names) rfl

theorem limitsPagesize (x : LimitsArg) : Behaves L (limitsPagesize L x) := by
  cases x with
  | null => exact .pure _
  | other => exact stop _
  | number x => exact checkSize (.number x) _ _ _
  | object x =>
    refine Keeps.bind ?_ fun stat => .pure _
    cases x with
    | env x => exact call (.envStat (.env x)) rfl
    | txn x => exact call (.txnStat (.txn x) []) rfl
    | other => exact stop _

end Behaves

/-- An R function that hands on doubles to be converted, and its arguments. -/
inductive SizeUse where
  | envOpen (path key : String) (readonly create subdir found : Bool)
      (maxDbs mapSize maxReaders : NumberArg) (mode : ℤ) (flags : List String)
  | keys (txn : Sexp) (limit : NumberArg) (db : DbArg) (start : Option Bytes) (reverse : Bool)
  | items (txn : Sexp) (limit : NumberArg) (db : DbArg) (start : Option Bytes) (reverse : Bool)
  | limits (x : LimitsArg)
  | dbiSequence (txn : Sexp) (db : DbArg) (increment : NumberArg)

/-- The function, without what it returns. -/
def SizeUse.run (L : Platform σ) : SizeUse → Front σ Unit
  | envOpen path key readonly create subdir found maxDbs mapSize maxReaders mode flags =>
    (fun _ => ()) <$> mdbxEnvOpen L path key readonly create subdir found maxDbs mapSize maxReaders
      mode flags
  | keys txn limit db start reverse => (fun _ => ()) <$> mdbxKeys L txn limit db start reverse
  | items txn limit db start reverse => (fun _ => ()) <$> mdbxItems L txn limit db start reverse
  | limits x => (fun _ => ()) <$> mdbxLimits L x
  | dbiSequence txn db increment => (fun _ => ()) <$> mdbxDbiSequence L txn db increment

theorem SizeUse.behaves (use : SizeUse) : Behaves L (use.run L) := by
  cases use with
  | envOpen path key readonly create subdir found maxDbs mapSize maxReaders mode flags =>
    refine Keeps.map ((Behaves.checkSize _ _ _ _).bind fun dbs => ?_)
    refine (Behaves.checkSize _ _ _ _).bind fun map => ?_
    refine (Behaves.checkReaders _).bind fun readers => (Behaves.refuse _ _).bind fun _ => ?_
    exact Behaves.call (.envOpen path key readonly subdir dbs map readers mode flags) rfl
  | keys txn limit db start reverse =>
    refine Keeps.map ((Behaves.guardNull _ _ _).bind fun _ => ?_)
    refine (Behaves.checkLimit _).bind fun bound => (Behaves.dbName _ _).bind fun names => ?_
    exact (Behaves.call (.scan txn bound false names start reverse) rfl).bind fun _ => .pure _
  | items txn limit db start reverse =>
    refine Keeps.map ((Behaves.guardNull _ _ _).bind fun _ => ?_)
    refine (Behaves.checkLimit _).bind fun bound => (Behaves.dbName _ _).bind fun names => ?_
    exact Behaves.call (.scan txn bound true names start reverse) rfl
  | limits x =>
    refine Keeps.map ((Behaves.limitsPagesize x).bind fun pagesize => ?_)
    exact Behaves.call (.limits pagesize) rfl
  | dbiSequence txn db increment =>
    refine Keeps.map ?_
    cases increment with
    | null => exact Behaves.stop _
    | other => exact Behaves.stop _
    | number x =>
      refine (Behaves.refuse _ _).bind fun _ => (Behaves.checkWhole _ _).bind fun _ => ?_
      refine (Behaves.dbName _ _).bind fun names => ?_
      exact Behaves.call (.dbiSequence txn names x) rfl

/-! ### Exact conversions -/

/-- Which number of at most `bound` a count or a size is: nought for the default, and otherwise the
one passed. -/
inductive Sizes (bound : ℕ) : NumberArg → ℕ → Prop where
  | null : Sizes bound .null 0
  | whole (n : ℕ) (hpos : 0 < n) (h : n ≤ bound) : Sizes bound (.number (.ofNat n)) n

theorem Sizes.le {bound n : ℕ} {x : NumberArg} (h : Sizes bound x n) : n ≤ bound := by
  cases h with
  | null => exact Nat.zero_le _
  | whole n hpos h => exact h

theorem Sizes.mono {bound bound' n : ℕ} {x : NumberArg} (h : Sizes bound x n) (hn : n ≤ bound') :
    Sizes bound' x n := by
  cases h with
  | null => exact .null
  | whole n hpos h => exact .whole n hpos hn

/-- What `check_size` makes of its argument. -/
theorem checkSize_run {bound : ℕ} (hbound : bound ≤ 2 ^ 53) (x : NumberArg) (arg nullHint : String)
    (w : World σ) :
    (∃ c, (checkSize x arg (.ofNat bound) nullHint).run w = (.error (.stop c), w)) ∨
      ∃ n, Sizes bound x n ∧
        (checkSize x arg (.ofNat bound) nullHint).run w = (.ok (.ofNat n), w) := by
  cases x with
  | null => exact .inr ⟨0, .null, rfl⟩
  | other => exact .inl ⟨_, rfl⟩
  | number x =>
    rw [checkSize]
    by_cases hbad : x.isFinite = false ∨ x.le (.ofNat 0) = true
    · exact .inl ⟨_, Prog.bind_error (Front.refuse_run hbad)⟩
    rw [Prog.bind_ok (Front.refuse_pass hbad), checkWhole]
    by_cases hwhole : x.isWhole = false
    · exact .inl ⟨_, Prog.bind_error (Front.refuse_run hwhole)⟩
    rw [Prog.bind_ok (Front.refuse_pass hwhole)]
    by_cases hlarge : (Double.ofNat bound).lt x = true
    · exact .inl ⟨_, Prog.bind_error (Front.refuse_run hlarge)⟩
    rw [Prog.bind_ok (Front.refuse_pass hlarge)]
    obtain ⟨hfinite, hpositive⟩ := not_or.mp hbad
    have hpos : (Double.ofNat 0).lt x = true := by
      rw [Double.ofNat_exact (Nat.zero_le _)] at hpositive ⊢
      rcases x with _ | _ | ⟨q, hq⟩
      · exact absurd rfl hfinite
      · exact absurd rfl hfinite
      · simpa [Double.le, Double.lt] using hpositive
    obtain ⟨n, hn, rfl⟩ := Double.exists_ofNat hbound (by simpa using hwhole)
      (Double.lt_zero_of_pos hpos) (by simpa using hlarge)
    rw [Double.ofNat_lt (Nat.zero_le _) (hn.trans hbound)] at hpos
    exact .inr ⟨n, .whole n (of_decide_eq_true hpos) hn, rfl⟩

theorem checkReaders_run (x : NumberArg) (w : World σ) :
    (∃ c, (checkReaders x).run w = (.error (.stop c), w)) ∨
      ∃ n, Sizes maxReadersLimit x n ∧ (checkReaders x).run w = (.ok (.ofNat n), w) := by
  rw [checkReaders]
  by_cases hnull : x = .null
  · subst hnull
    exact .inr ⟨0, .null, rfl⟩
  rw [if_neg hnull, maxExactInteger]
  rcases checkSize_run le_rfl x "max_readers" libmdbxDefault w with ⟨c, hr⟩ | ⟨n, hn, hr⟩
  · exact .inl ⟨c, Prog.bind_error hr⟩
  rw [Prog.bind_ok hr]
  by_cases hmany : (Double.ofNat maxReadersLimit).lt (.ofNat n) = true
  · exact .inl ⟨_, Prog.bind_error (Front.refuse_run hmany)⟩
  rw [Prog.bind_ok (Front.refuse_pass hmany)]
  rw [Double.ofNat_lt (by decide) hn.le] at hmany
  exact .inr ⟨n, hn.mono (by simpa using hmany), rfl⟩

/-- A natural number that a double holds is converted to itself. -/
theorem narrow_exact {n bound : ℕ} (hn : n ≤ 2 ^ 53) (hbound : n < bound) (w : World σ) :
    (narrow bound (.ofNat n) : Pkg σ ℕ).run w = (.ok n, w) := by
  refine narrow_run ?_ w
  rw [Double.ofNat_exact hn]
  exact Double.toUnsigned_natCast hbound _

theorem orZero_ofNat {n : ℕ} (hn : n ≤ 2 ^ 53) : orZero (.ofNat n) = .ofNat n := by
  rw [orZero, Double.ofNat_lt (Nat.zero_le _) hn]
  rcases n.eq_zero_or_pos with rfl | hpos
  · rfl
  · rw [decide_eq_true hpos, if_pos rfl]

theorem ofNat_le_exactInteger {n : ℕ} (hn : n ≤ 2 ^ 53) :
    (Double.ofNat n).le maxExactInteger = true := by
  rw [maxExactInteger, Double.ofNat_le hn le_rfl]
  exact decide_eq_true hn

theorem maxWhole_lt_intptr (L : Platform σ) : maxWhole L < intptrBound L := by
  unfold maxWhole intptrBound
  split <;> omega

theorem ofNat_le_native {n : ℕ} (hn : n ≤ maxWhole L) :
    (Double.ofNat n).le (maxNativeInteger L) = true := by
  rw [maxNativeInteger_whole, Double.ofNat_le (hn.trans (maxWhole_le L)) (maxWhole_le L)]
  exact decide_eq_true hn

/-- The three sizes of `mdbx_env_open_`, when they are natural numbers. -/
theorem mdbxEnvOpen_sizes (G : Graph w) {dbs map readers : ℕ} (hdbs : dbs ≤ 2 ^ 53)
    (hmap : map ≤ maxWhole L) (hreaders : readers ≤ 2 ^ 53) (path key : String)
    (readonly subdir : Bool) (mode : ℤ) (flags : List String) :
    (∃ c, (mdbxEnvOpen_ L path key readonly subdir (.ofNat dbs) (.ofNat map) (.ofNat readers) mode
        flags).run w = (.error (.stop c), w)) ∨
      ∃ bits, (mdbxEnvOpen_ L path key readonly subdir (.ofNat dbs) (.ofNat map) (.ofNat readers)
        mode flags).run w = (openHandle L path key readonly bits dbs readers map mode).run w := by
  rcases flagsFromNames_run envFlags flags w with ⟨extra, hf⟩ | ⟨c, hf⟩
  swap
  · exact .inl ⟨c, Prog.bind_error hf⟩
  have hf' : (envFlagsFromNames flags).run w = (.ok extra, w) := hf
  rcases refuseOpen_run G path key with ⟨-, hr⟩ | ⟨e, -, -, other, hr⟩
  · refine .inr ⟨extra ||| (if readonly then flagRdonly else 0) |||
      (if subdir then 0 else flagNosubdir), ?_⟩
    rw [mdbxEnvOpen_, Prog.bind_ok hf',
      Prog.bind_ok (refuse_pass (not_not.mpr (ofNat_le_exactInteger hdbs))),
      Prog.bind_ok (refuse_pass (not_not.mpr (ofNat_le_native hmap))),
      Prog.bind_ok (refuse_pass (not_not.mpr (ofNat_le_exactInteger hreaders))), Prog.bind_ok hr,
      orZero_ofNat hdbs, orZero_ofNat hreaders, orZero_ofNat (hmap.trans (maxWhole_le L)),
      Prog.bind_ok (narrow_exact hdbs (by omega) w),
      Prog.bind_ok (narrow_exact hreaders (by omega) w),
      Prog.bind_ok (narrow_exact (hmap.trans (maxWhole_le L))
        (hmap.trans_lt (maxWhole_lt_intptr L)) w)]
  · refine .inl ⟨.alreadyOpen path other, ?_⟩
    rw [mdbxEnvOpen_, Prog.bind_ok hf',
      Prog.bind_ok (refuse_pass (not_not.mpr (ofNat_le_exactInteger hdbs))),
      Prog.bind_ok (refuse_pass (not_not.mpr (ofNat_le_native hmap))),
      Prog.bind_ok (refuse_pass (not_not.mpr (ofNat_le_exactInteger hreaders))),
      Prog.bind_error hr]

/-- `mdbx_env_open` refuses its arguments or opens with the sizes that they say. -/
theorem mdbxEnvOpen_exact (G : Graph w) (path key : String) (readonly create subdir found : Bool)
    (maxDbs mapSize maxReaders : NumberArg) (mode : ℤ) (flags : List String) :
    (∃ x, (mdbxEnvOpen L path key readonly create subdir found maxDbs mapSize maxReaders mode
        flags).run w = (.error x, w)) ∨
      ∃ dbs map readers bits, Sizes (2 ^ 53) maxDbs dbs ∧ Sizes (maxWhole L) mapSize map ∧
        Sizes maxReadersLimit maxReaders readers ∧
        (mdbxEnvOpen L path key readonly create subdir found maxDbs mapSize maxReaders mode
          flags).run w =
          (Front.call (openHandle L path key readonly bits dbs readers map mode)).run w := by
  rw [mdbxEnvOpen, maxNativeInteger_whole, maxExactInteger]
  rcases checkSize_run le_rfl maxDbs "max_dbs" libmdbxDefault w with ⟨c, hr⟩ | ⟨dbs, hdbs, hr⟩
  · exact .inl ⟨_, Prog.bind_error hr⟩
  rw [Prog.bind_ok hr]
  rcases checkSize_run (maxWhole_le L) mapSize "map_size" libmdbxDefault w with
    ⟨c, hr⟩ | ⟨map, hmap, hr⟩
  · exact .inl ⟨_, Prog.bind_error hr⟩
  rw [Prog.bind_ok hr]
  rcases checkReaders_run maxReaders w with ⟨c, hr⟩ | ⟨readers, hreaders, hr⟩
  · exact .inl ⟨_, Prog.bind_error hr⟩
  rw [Prog.bind_ok hr]
  by_cases hmissing : (create = false ∨ readonly = true) ∧ found = false
  · exact .inl ⟨_, Prog.bind_error (Front.refuse_run hmissing)⟩
  rw [Prog.bind_ok (Front.refuse_pass hmissing)]
  have hfew : readers ≤ 2 ^ 53 := hreaders.le.trans (by decide)
  rcases mdbxEnvOpen_sizes G hdbs.le hmap.le hfew path key readonly subdir mode flags with
    ⟨c, hr⟩ | ⟨bits, hr⟩
  · exact .inl ⟨_, Front.call_error hr⟩
  · refine .inr ⟨dbs, map, readers, bits, hdbs, hmap, hreaders, ?_⟩
    show ((_ : Except Exit Sexp).mapError _, _) = ((_ : Except Exit Sexp).mapError _, _)
    rw [hr]

/-- The counts that a question about an environment returns. -/
theorem runStat_statList {e : EnvRef} {txn : Option TxnPtr} {stat : List (String × Double)}
    (h : (runStat L e txn).run w = (.ok stat, w')) : ∃ s, stat = statList s := by
  obtain ⟨g, w₁, -, h₁⟩ := Prog.of_bind_ok h
  obtain ⟨env, w₂, -, h₂⟩ := Prog.of_bind_ok h₁
  obtain ⟨⟨rc, s⟩, w₃, -, h₃⟩ := Prog.of_bind_ok h₂
  obtain ⟨_, w₄, -, h₄⟩ := Prog.of_bind_ok h₃
  cases h₄
  exact ⟨s, rfl⟩

theorem mdbxEnvStatOf_statList {x : Sexp} {stat : List (String × Double)}
    (h : (mdbxEnvStatOf L x).run w = (.ok stat, w')) : ∃ s, stat = statList s := by
  cases x with
  | env x =>
    obtain ⟨e, w₁, -, h₁⟩ := Prog.of_bind_ok (Prog.of_mapExit_ok h)
    obtain ⟨txn, w₂, -, h₂⟩ := Prog.of_bind_ok h₁
    exact runStat_statList h₂
  | txn x =>
    obtain ⟨t, w₁, -, h₁⟩ := Prog.of_bind_ok (Prog.of_mapExit_ok h)
    obtain ⟨k, w₂, -, h₂⟩ := Prog.of_bind_ok h₁
    rw [if_pos rfl] at h₂
    obtain ⟨owner, w₃, -, h₃⟩ := Prog.of_bind_ok h₂
    exact runStat_statList h₃
  | other => cases h

/-- The page size that `mdbx_limits` hands on is a natural number: nought for the default, and
otherwise the one passed or the one of the environment. -/
theorem limitsPagesize_ofNat {x : LimitsArg} {ps : Double}
    (h : (limitsPagesize L x).run w = (.ok ps, w')) :
    ∃ n, ps = .ofNat n ∧ (x = .null → n = 0) ∧
      ∀ y, x = .number y → Sizes (maxWhole L) (.number y) n := by
  cases x with
  | null =>
    cases h
    exact ⟨0, rfl, fun _ => rfl, fun y hy => by cases hy⟩
  | other => cases h
  | object x =>
    obtain ⟨stat, w₁, hstat, hps⟩ := Prog.of_bind_ok h
    obtain ⟨s, rfl⟩ := mdbxEnvStatOf_statList hstat
    cases hps
    exact ⟨s.psize, rfl, fun hx => (by cases hx), fun y hy => (by cases hy)⟩
  | number y =>
    have hcheck : (checkSize (.number y) "x" (.ofNat (maxWhole L))
        "this system's page size").run w = (.ok ps, w') := by
      rw [← maxNativeInteger_whole]
      exact h
    rcases checkSize_run (maxWhole_le L) (.number y) "x" "this system's page size" w with
      ⟨c, hr⟩ | ⟨n, hn, hr⟩
    · rw [hr] at hcheck
      cases hcheck
    · rw [hr] at hcheck
      cases hcheck
      refine ⟨n, rfl, fun hx => (by cases hx), fun y' hy' => ?_⟩
      cases hy'
      exact hn

theorem narrow_pagesize {n : ℕ} (hn : n ≤ maxWhole L) (w : World σ) :
    (narrow (intptrBound L) (orZero (.ofNat n)) : Pkg σ ℕ).run w = (.ok n, w) := by
  have hexact : n ≤ 2 ^ 53 := hn.trans (maxWhole_le L)
  rw [orZero_ofNat hexact]
  exact narrow_exact hexact (hn.trans_lt (maxWhole_lt_intptr L)) w

/-- `mdbx_limits_` refuses the page size that `mdbx_limits` hands on or converts it exactly. -/
theorem mdbxLimits_exact {x : LimitsArg} {ps : Double}
    (h : (limitsPagesize L x).run w = (.ok ps, w')) :
    (mdbxLimits_ L ps).run w' = (.error (.stop .pageSizeTooLarge), w') ∨
      ∃ n ≤ maxWhole L, ps = .ofNat n ∧ (x = .null → n = 0) ∧
        (∀ y, x = .number y → Sizes (maxWhole L) (.number y) n) ∧
        ∀ w : World σ, (narrow (intptrBound L) (orZero ps)).run w = (.ok n, w) := by
  obtain ⟨n, rfl, hnull, hnumber⟩ := limitsPagesize_ofNat h
  by_cases hle : (Double.ofNat n).le (maxNativeInteger L) = true
  · right
    cases x with
    | null =>
      cases hnull rfl
      exact ⟨0, Nat.zero_le _, rfl, fun _ => rfl, fun y hy => (by cases hy),
        narrow_pagesize (Nat.zero_le _)⟩
    | number y =>
      have hsize := hnumber y rfl
      exact ⟨n, hsize.le, rfl, hnull, hnumber, narrow_pagesize hsize.le⟩
    | object x =>
      -- the page size of an environment is what libmdbx says, and so may be any number
      rw [maxNativeInteger_whole] at hle
      obtain ⟨k, hk, hsame⟩ := Double.ofNat_le_exact (maxWhole_le L) hle
      rw [hsame]
      exact ⟨k, hk, rfl, fun hx => (by cases hx), fun y hy => (by cases hy), narrow_pagesize hk⟩
    | other => cases h
  · exact .inl (Prog.bind_error (refuse_run hle))

theorem Asks.none_iff {limit : NumberArg} {asked : Option ℕ} (h : Asks L limit asked) :
    asked = none ↔ limit = .null ∨ limit = .number (.inf false) := by
  constructor
  · rintro rfl
    cases h with
    | null => exact .inl rfl
    | inf => exact .inr rfl
  · rintro (rfl | rfl)
    · cases h
      rfl
    · exact h.of_inf

/-- `check_limit` refuses, or hands on the number that the limit asks for, and a negative one for
none. -/
theorem checkLimit_exact (limit : NumberArg) (w : World σ) :
    (∃ c, (checkLimit L limit).run w = (.error (.stop c), w)) ∨
      ∃ asked bound, (checkLimit L limit).run w = (.ok bound, w) ∧
        (asked = none ↔ limit = .null ∨ limit = .number (.inf false)) ∧
        (asked = none → bound.lt (.ofNat 0) = true) ∧
        ∀ n, asked = some n → limit = .number (.ofNat n) ∧ bound = .ofNat n ∧
          bound.lt (.ofNat 0) = false ∧
          ∀ w : World σ, (narrow (sizeBound L) bound).run w = (.ok n, w) := by
  rcases checkLimit_looks (L := L) limit w with ⟨c, hr⟩ | ⟨bound, hr⟩
  · exact .inl ⟨c, hr⟩
  obtain ⟨asked, A⟩ := checkLimit_asks hr
  refine .inr ⟨asked, bound, hr, A.none_iff, ?_, ?_⟩
  · rintro rfl
    have hno : bound = noLimit := by
      rcases A.none_iff.mp rfl with rfl | rfl
      · cases hr
        rfl
      · obtain ⟨bound', hr', -, hall⟩ := A.bound
        have hzero : (Double.inf false).lt (.ofNat 0) = false := by
          rw [Double.ofNat_exact (Nat.zero_le _)]
          rfl
        have hpass : ¬ (Double.inf false = .nan ∨ (Double.inf false).lt (.ofNat 0) = true) := by
          simp [hzero]
        rw [checkLimit, Prog.bind_ok (Front.refuse_pass hpass), if_pos rfl] at hr
        cases hr
        rfl
    rw [hno]
    exact (noLimit_spec (L := L)).1
  · rintro n rfl
    generalize hasked : some n = asked at A
    cases A with
    | null => cases hasked
    | inf => cases hasked
    | whole m hm =>
      cases hasked
      have hexact : n ≤ 2 ^ 53 := hm.trans (maxWhole_le L)
      have hbound : bound = .ofNat n := by
        rw [checkLimit] at hr
        obtain ⟨_, w₁, -, h₁⟩ := Prog.of_bind_ok hr
        rw [if_neg (by simp [Double.ofNat_exact hexact])] at h₁
        obtain ⟨_, w₂, -, h₂⟩ := Prog.of_bind_ok h₁
        obtain ⟨_, w₃, -, h₃⟩ := Prog.of_bind_ok h₂
        cases h₃
        rfl
      refine ⟨rfl, hbound, ?_, fun w => ?_⟩
      · rw [hbound, Double.ofNat_lt hexact (Nat.zero_le _)]
        simp
      · rw [hbound]
        exact narrow_exact hexact (hm.trans_lt (maxWhole_lt L)) w

/-- `mdbx_dbi_sequence` refuses its increment or hands it on as the natural number that it is. -/
theorem mdbxDbiSequence_exact (txn : Sexp) (db : DbArg) (increment : NumberArg) (w : World σ) :
    (∃ c, (mdbxDbiSequence L txn db increment).run w = (.error (.stop c), w)) ∨
      ∃ n ≤ 2 ^ 53, increment = .number (.ofNat n) ∧
        (mdbxDbiSequence L txn db increment).run w = (do
          let names ← dbName db txn
          Front.call (mdbxDbiSequence_ L txn names (.ofNat n))).run w ∧
        ∀ w : World σ, (narrow (2 ^ 64) (.ofNat n)).run w = (.ok n, w) := by
  cases increment with
  | null => exact .inl ⟨_, rfl⟩
  | other => exact .inl ⟨_, rfl⟩
  | number x =>
    rw [mdbxDbiSequence]
    by_cases hbad : x.isFinite = false ∨ x.lt (.ofNat 0) = true ∨ maxExactInteger.lt x = true
    · exact .inl ⟨_, Prog.bind_error (Front.refuse_run hbad)⟩
    rw [Prog.bind_ok (Front.refuse_pass hbad), checkWhole]
    by_cases hwhole : x.isWhole = false
    · exact .inl ⟨_, Prog.bind_error (Front.refuse_run hwhole)⟩
    rw [Prog.bind_ok (Front.refuse_pass hwhole)]
    simp only [not_or, Bool.not_eq_true] at hbad
    obtain ⟨-, hneg, hlarge⟩ := hbad
    obtain ⟨n, hn, rfl⟩ := Double.exists_ofNat le_rfl (by simpa using hwhole) hneg hlarge
    exact .inr ⟨n, hn, rfl, rfl, narrow_exact hn (by omega)⟩

/-! ### Every conversion -/

/-- The entry points convert no double out of range, and the R functions let them convert only
exactly, with the values that stand for the default and for no limit reserved for `NULL` and
infinity. -/
structure ConvertsExactly (L : Platform σ) : Prop where
  entries : ∀ {w}, Reachable L w → ∀ command : Command,
    ((command.run L).run w).1 ≠ .error (.undefined .narrowing)
  functions : ∀ {w}, Reachable L w → ∀ use : SizeUse,
    ((use.run L).run w).1 ≠ .error (.native (.undefined .narrowing))
  envOpen : ∀ {w}, Reachable L w → ∀ path key readonly create subdir found maxDbs mapSize
    maxReaders mode flags,
    (∃ x, (mdbxEnvOpen L path key readonly create subdir found maxDbs mapSize maxReaders mode
        flags).run w = (.error x, w)) ∨
      ∃ dbs map readers bits, Sizes (2 ^ 53) maxDbs dbs ∧ Sizes (maxWhole L) mapSize map ∧
        Sizes maxReadersLimit maxReaders readers ∧
        (mdbxEnvOpen L path key readonly create subdir found maxDbs mapSize maxReaders mode
          flags).run w =
          (Front.call (openHandle L path key readonly bits dbs readers map mode)).run w
  scan : ∀ limit (w : World σ),
    (∃ c, (checkLimit L limit).run w = (.error (.stop c), w)) ∨
      ∃ asked bound, (checkLimit L limit).run w = (.ok bound, w) ∧
        (asked = none ↔ limit = .null ∨ limit = .number (.inf false)) ∧
        (asked = none → bound.lt (.ofNat 0) = true) ∧
        ∀ n, asked = some n → limit = .number (.ofNat n) ∧ bound = .ofNat n ∧
          bound.lt (.ofNat 0) = false ∧
          ∀ w : World σ, (narrow (sizeBound L) bound).run w = (.ok n, w)
  limits : ∀ {x ps} {w w' : World σ}, (limitsPagesize L x).run w = (.ok ps, w') →
    (mdbxLimits_ L ps).run w' = (.error (.stop .pageSizeTooLarge), w') ∨
      ∃ n ≤ maxWhole L, ps = .ofNat n ∧ (x = .null → n = 0) ∧
        (∀ y, x = .number y → Sizes (maxWhole L) (.number y) n) ∧
        ∀ w : World σ, (narrow (intptrBound L) (orZero ps)).run w = (.ok n, w)
  dbiSequence : ∀ txn db increment (w : World σ),
    (∃ c, (mdbxDbiSequence L txn db increment).run w = (.error (.stop c), w)) ∨
      ∃ n ≤ 2 ^ 53, increment = .number (.ofNat n) ∧
        (mdbxDbiSequence L txn db increment).run w = (do
          let names ← dbName db txn
          Front.call (mdbxDbiSequence_ L txn names (.ofNat n))).run w ∧
        ∀ w : World σ, (narrow (2 ^ 64) (.ofNat n)).run w = (.ok n, w)

theorem converts_exactly (L : Platform σ) : ConvertsExactly L where
  entries := by
    intro w h command hx
    have I : Inv { lossy := true } w := h.invariant (by simp)
    rcases (command.spec L (by simp) I).2 _ hx with ⟨c, hc⟩ | ⟨-, hc⟩
    · cases hc
    · cases hc
  functions := by
    intro w h use hx
    rcases use.behaves.raises h hx with ⟨c, hc⟩ | ⟨-, hc⟩
    · cases hc
    · cases hc
  envOpen := by
    intro w h
    have I : Inv { lossy := true } w := h.invariant (by simp)
    exact mdbxEnvOpen_exact I.graph
  scan := checkLimit_exact
  limits := mdbxLimits_exact
  dbiSequence := mdbxDbiSequence_exact

end Mdbx
