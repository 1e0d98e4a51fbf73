import Mathlib.Data.Int.Log
import Mathlib.Data.Rat.Floor
import Mathlib.Tactic.FieldSimp
import Mathlib.Tactic.Linarith
import Mathlib.Tactic.NormNum
import Mathlib.Tactic.Positivity
import Mathlib.Tactic.Ring

/-! Binary64 numbers as the rationals they denote: which rationals are representable, rounding to
the nearest of them with ties to even, comparison, subtraction, and truncation to an unsigned
integer.  The two zeros are one number here; no operation below tells them apart. -/

namespace Mdbx.ProofKit

/-- The rationals with 53 significant bits in the exponent range of binary64. -/
def Representable (q : ℚ) : Prop :=
  ∃ m e : ℤ, |m| < 2 ^ 53 ∧ -1074 ≤ e ∧ e ≤ 971 ∧ q = m * 2 ^ e

/-- A binary64 number. -/
inductive Double where
  | nan
  | inf (negative : Bool)
  | finite (value : ℚ) (representable : Representable value)
  deriving DecidableEq

namespace Double

/-! ### Rounding -/

/-- The integer nearest to `q`, the even one of two. -/
def roundHalfEven (q : ℚ) : ℤ :=
  if q - ⌊q⌋ < 1 / 2 then ⌊q⌋
  else if 1 / 2 < q - ⌊q⌋ then ⌊q⌋ + 1
  else if ⌊q⌋ % 2 = 0 then ⌊q⌋ else ⌊q⌋ + 1

/-- The exponent of the last significant bit of a number of magnitude `|q|`. -/
def lastBit (q : ℚ) : ℤ := max (Int.log 2 |q| - 52) (-1074)

/-- `q` as an integer number of its last significant bits. -/
def significand (q : ℚ) : ℤ := roundHalfEven (q / 2 ^ lastBit q)

/-- `q` rounded to the precision that its magnitude allows. -/
def nearest (q : ℚ) : ℚ := significand q * 2 ^ lastBit q

theorem roundHalfEven_intCast (z : ℤ) : roundHalfEven z = z := by
  simp [roundHalfEven]

theorem floor_le_roundHalfEven (q : ℚ) : ⌊q⌋ ≤ roundHalfEven q := by
  unfold roundHalfEven
  split_ifs <;> omega

theorem roundHalfEven_le (q : ℚ) : roundHalfEven q ≤ ⌊q⌋ + 1 := by
  unfold roundHalfEven
  split_ifs <;> omega

/-- An integer bound from below survives rounding. -/
theorem le_roundHalfEven {z : ℤ} {q : ℚ} (h : (z : ℚ) ≤ q) : z ≤ roundHalfEven q :=
  (Int.le_floor.mpr h).trans (floor_le_roundHalfEven q)

/-- An integer bound from above survives rounding. -/
theorem roundHalfEven_le_of_le {z : ℤ} {q : ℚ} (h : q ≤ z) : roundHalfEven q ≤ z := by
  rcases h.lt_or_eq with hlt | rfl
  · have := Int.floor_lt.mpr hlt
    have := roundHalfEven_le q
    omega
  · exact (roundHalfEven_intCast z).le

theorem two_zpow_pos (e : ℤ) : (0 : ℚ) < 2 ^ e := zpow_pos (by norm_num) e

theorem two_zpow_add (a b : ℤ) : (2 : ℚ) ^ (a + b) = 2 ^ a * 2 ^ b :=
  zpow_add₀ (by norm_num) a b

theorem two_zpow_mono {a b : ℤ} (h : a ≤ b) : (2 : ℚ) ^ a ≤ 2 ^ b :=
  zpow_le_zpow_right₀ (by norm_num) h

/-- The scaled magnitude of `q` has at most 53 bits before the point. -/
theorem abs_div_lt (q : ℚ) : |q / 2 ^ lastBit q| < 2 ^ 53 := by
  have hlog := Int.lt_zpow_succ_log_self (R := ℚ) (b := 2) (by decide) |q|
  have hbit : Int.log 2 |q| - 52 ≤ lastBit q := le_max_left _ _
  rw [abs_div, abs_of_pos (two_zpow_pos _), div_lt_iff₀ (two_zpow_pos _), ← zpow_natCast,
    ← two_zpow_add]
  exact lt_of_lt_of_le hlog (two_zpow_mono (by push_cast; omega))

theorem abs_significand_le (q : ℚ) : |significand q| ≤ 2 ^ 53 := by
  obtain ⟨hlow, hhigh⟩ := abs_lt.mp (abs_div_lt q)
  rw [abs_le]
  constructor
  · exact le_roundHalfEven (le_of_lt (by exact_mod_cast hlow))
  · exact roundHalfEven_le_of_le (le_of_lt (by exact_mod_cast hhigh))

/-- Above the smallest exponent the scaled magnitude fills all 53 bits. -/
theorem le_abs_div {q : ℚ} (hq : q ≠ 0) (h : -1074 ≤ Int.log 2 |q| - 52) :
    2 ^ 52 ≤ |q / 2 ^ lastBit q| := by
  have hlog := Int.zpow_log_le_self (R := ℚ) (b := 2) (by decide) (abs_pos.mpr hq)
  have hbit : lastBit q = Int.log 2 |q| - 52 := max_eq_left h
  rw [abs_div, abs_of_pos (two_zpow_pos _), le_div_iff₀ (two_zpow_pos _), ← zpow_natCast,
    ← two_zpow_add]
  exact le_trans (two_zpow_mono (by push_cast; omega)) hlog

theorem le_abs_significand {q : ℚ} (hq : q ≠ 0) (h : -1074 < lastBit q) :
    2 ^ 52 ≤ |significand q| := by
  have hbig := le_abs_div hq (by unfold lastBit at h; omega)
  rcases abs_cases (q / 2 ^ lastBit q) with ⟨hab, -⟩ | ⟨hab, -⟩
  · rw [hab] at hbig
    exact (le_roundHalfEven (z := 2 ^ 52) (by exact_mod_cast hbig)).trans (le_abs_self _)
  · have : significand q ≤ -2 ^ 52 := roundHalfEven_le_of_le (by push_cast; linarith)
    rw [le_abs]
    right
    omega

theorem abs_nearest (q : ℚ) : |nearest q| = |(significand q : ℚ)| * 2 ^ lastBit q := by
  rw [nearest, abs_mul, abs_of_pos (two_zpow_pos _)]

/-- A number that rounds below `2^1024` with at least `2^k` last bits has no exponent above
`1023 - k`. -/
theorem lastBit_lt_of_nearest_lt {q : ℚ} {k : ℕ} (h : |nearest q| < 2 ^ (1024 : ℤ))
    (hk : 2 ^ k ≤ |significand q|) : lastBit q + k < 1024 := by
  by_contra hge
  rw [abs_nearest] at h
  have hmq : (2 ^ k : ℚ) ≤ |(significand q : ℚ)| := by exact_mod_cast hk
  have hscaled := mul_le_mul_of_nonneg_right hmq (two_zpow_pos (lastBit q)).le
  have hpow : (2 : ℚ) ^ (1024 : ℤ) ≤ 2 ^ k * 2 ^ lastBit q := by
    rw [← zpow_natCast, ← two_zpow_add]
    exact two_zpow_mono (by omega)
  linarith

/-- A rounded number in range is representable. -/
theorem representable_nearest {q : ℚ} (h : |nearest q| < 2 ^ (1024 : ℤ)) :
    Representable (nearest q) := by
  have he : -1074 ≤ lastBit q := le_max_right _ _
  by_cases hzero : q = 0
  · exact ⟨0, 0, by norm_num, by norm_num, by norm_num, by
      simp [hzero, nearest, significand, roundHalfEven]⟩
  rcases (abs_significand_le q).lt_or_eq with hlt | heq
  · refine ⟨significand q, lastBit q, hlt, he, ?_, rfl⟩
    by_contra hgt
    have := lastBit_lt_of_nearest_lt h (le_abs_significand hzero (by omega))
    omega
  · -- Rounding carried into a 54th bit; the significand is then even.
    have hexp := lastBit_lt_of_nearest_lt h heq.ge
    obtain ⟨k, hk, hkm⟩ : ∃ k : ℤ, |k| = 2 ^ 52 ∧ significand q = 2 * k := by
      rcases abs_cases (significand q) with ⟨hab, -⟩ | ⟨hab, -⟩
      · exact ⟨2 ^ 52, by norm_num, by omega⟩
      · exact ⟨-2 ^ 52, by norm_num, by omega⟩
    refine ⟨k, lastBit q + 1, by omega, by omega, by omega, ?_⟩
    rw [nearest, hkm, two_zpow_add]
    push_cast
    ring

/-- The double nearest to `q`, or an infinity when `q` rounds out of range. -/
def ofRat (q : ℚ) : Double :=
  if h : |nearest q| < 2 ^ (1024 : ℤ) then finite (nearest q) (representable_nearest h)
  else inf (decide (q < 0))

/-- Rounding leaves representable numbers alone. -/
theorem nearest_of_representable {q : ℚ} (h : Representable q) : nearest q = q := by
  obtain ⟨m, e, hm, he, -, hq⟩ := h
  by_cases hzero : q = 0
  · simp [hzero, nearest, significand, roundHalfEven]
  have hlog : Int.log 2 |q| < 53 + e := by
    refine (Int.lt_zpow_iff_log_lt (b := 2) (by decide) (abs_pos.mpr hzero)).mp ?_
    have hmq : |(m : ℚ)| < 2 ^ (53 : ℤ) := by exact_mod_cast hm
    push_cast
    rw [two_zpow_add, hq, abs_mul, abs_of_pos (two_zpow_pos e)]
    exact mul_lt_mul_of_pos_right hmq (two_zpow_pos e)
  have hbit : lastBit q ≤ e := max_le (by omega) he
  -- The exponent of `q` is a whole number of last bits above the exponent of its rounding.
  have hscaled : q / 2 ^ lastBit q = ((m * 2 ^ (e - lastBit q).toNat : ℤ) : ℚ) := by
    rw [div_eq_iff (two_zpow_pos _).ne']
    push_cast
    rw [← zpow_natCast, mul_assoc, ← two_zpow_add, Int.toNat_of_nonneg (by omega)]
    rw [hq]
    congr 2
    omega
  rw [nearest, significand, hscaled, roundHalfEven_intCast, ← hscaled,
    div_mul_cancel₀ _ (two_zpow_pos _).ne']

theorem Representable.abs_lt {q : ℚ} (h : Representable q) : |q| < 2 ^ (1024 : ℤ) := by
  obtain ⟨m, e, hm, -, he, rfl⟩ := h
  have hmq : |(m : ℚ)| < 2 ^ (53 : ℤ) := by exact_mod_cast hm
  calc |(m : ℚ) * 2 ^ e| = |(m : ℚ)| * 2 ^ e := by rw [abs_mul, abs_of_pos (two_zpow_pos e)]
    _ < 2 ^ (53 : ℤ) * 2 ^ e := mul_lt_mul_of_pos_right hmq (two_zpow_pos e)
    _ = 2 ^ (53 + e) := (two_zpow_add 53 e).symm
    _ ≤ 2 ^ (1024 : ℤ) := two_zpow_mono (by omega)

theorem ofRat_of_representable {q : ℚ} (h : Representable q) : ofRat q = finite q h := by
  have hn := nearest_of_representable h
  have hlt : |nearest q| < 2 ^ (1024 : ℤ) := by
    rw [hn]
    exact Representable.abs_lt h
  rw [ofRat, dif_pos hlt]
  congr 1

/-- A power of two below `q` stays below its rounding. -/
theorem two_zpow_le_nearest {q : ℚ} {k : ℤ} (hk : -1022 ≤ k) (h : 2 ^ k ≤ q) :
    2 ^ k ≤ nearest q := by
  have hq : 0 < q := (two_zpow_pos k).trans_le h
  have hlog : k ≤ Int.log 2 |q| := by
    rw [abs_of_pos hq]
    exact (Int.zpow_le_iff_le_log (b := 2) (by decide) hq).mp (by exact_mod_cast h)
  have hbit : lastBit q = Int.log 2 |q| - 52 := by
    unfold lastBit
    omega
  have hscaled : (2 ^ 52 : ℤ) ≤ significand q := by
    refine le_roundHalfEven ?_
    have hbig := le_abs_div hq.ne' (by omega)
    rw [abs_of_pos (div_pos hq (two_zpow_pos _))] at hbig
    exact_mod_cast hbig
  have hmq : (2 ^ 52 : ℚ) ≤ (significand q : ℚ) := by exact_mod_cast hscaled
  calc (2 : ℚ) ^ k ≤ 2 ^ ((52 : ℕ) + lastBit q) := two_zpow_mono (by push_cast; omega)
    _ = 2 ^ 52 * 2 ^ lastBit q := by rw [two_zpow_add, zpow_natCast]
    _ ≤ nearest q := mul_le_mul_of_nonneg_right hmq (two_zpow_pos _).le

/-! ### Operations -/

/-- Comparison; false when either side is a NaN. -/
def le : Double → Double → Bool
  | nan, _ | _, nan => false
  | inf true, _ | _, inf false => true
  | _, inf true | inf false, _ => false
  | finite p _, finite q _ => decide (p ≤ q)

/-- Strict comparison; false when either side is a NaN. -/
def lt : Double → Double → Bool
  | nan, _ | _, nan => false
  | inf a, inf b => a && !b
  | inf a, finite _ _ => a
  | finite _ _, inf b => !b
  | finite p _, finite q _ => decide (p < q)

/-- Subtraction, rounded. -/
def sub : Double → Double → Double
  | nan, _ | _, nan => nan
  | inf a, inf b => if a = b then nan else inf a
  | inf a, finite _ _ => inf a
  | finite _ _, inf b => inf (!b)
  | finite p _, finite q _ => ofRat (p - q)

/-- The double nearest to a natural number. -/
def ofNat (n : ℕ) : Double := ofRat n

def isFinite : Double → Bool
  | finite _ _ => true
  | _ => false

/-- A finite number without a fractional part. -/
def isWhole : Double → Bool
  | finite q _ => decide (q = ⌊q⌋)
  | _ => false

/-- The integer between zero and `q` that is nearest to `q`. -/
def truncate (q : ℚ) : ℤ := if 0 ≤ q then ⌊q⌋ else ⌈q⌉

/-- Conversion to an unsigned integer below `bound`, which C++ leaves undefined when the truncated
number is out of range. -/
def toUnsigned (bound : ℕ) : Double → Option ℕ
  | finite q _ => if 0 ≤ truncate q ∧ truncate q < bound then some (truncate q).toNat else none
  | _ => none

/-- The number as `%.0f` prints it. -/
def format0 : Double → String
  | nan => "nan"
  | inf negative => if negative then "-inf" else "inf"
  | finite q _ => toString (roundHalfEven q)

theorem representable_natCast {n : ℕ} (h : n ≤ 2 ^ 53) : Representable n := by
  rcases h.lt_or_eq with hlt | rfl
  · exact ⟨n, 0, by rw [abs_of_nonneg (by positivity)]; exact_mod_cast hlt, by norm_num,
      by norm_num, by simp⟩
  · exact ⟨2 ^ 52, 1, by norm_num, by norm_num, by norm_num, by norm_num⟩

/-- Natural numbers up to `2^53` are exact. -/
theorem ofNat_exact {n : ℕ} (h : n ≤ 2 ^ 53) : ofNat n = finite n (representable_natCast h) :=
  ofRat_of_representable _

/-- A larger natural number never rounds below `2^53`. -/
theorem le_ofNat {n : ℕ} (h : 2 ^ 53 ≤ n) :
    le (finite ((2 ^ 53 : ℕ) : ℚ) (representable_natCast le_rfl)) (ofNat n) = true := by
  have hn : (2 : ℚ) ^ (53 : ℤ) ≤ (n : ℚ) := by exact_mod_cast h
  unfold ofNat ofRat
  split
  · have := two_zpow_le_nearest (by norm_num) hn
    simp only [le, decide_eq_true_eq]
    exact_mod_cast this
  · have hneg : decide ((n : ℚ) < 0) = false := by simp
    simp [le, hneg]

/-- Differences of natural numbers up to `2^53` are exact. -/
theorem sub_exact {a b : ℕ} (ha : a ≤ 2 ^ 53) (hb : b ≤ a) :
    sub (finite a (representable_natCast ha)) (finite b (representable_natCast (hb.trans ha))) =
      finite ((a - b : ℕ) : ℚ) (representable_natCast (by omega)) := by
  rw [sub, ← Nat.cast_sub hb]
  exact ofRat_of_representable _

/-- Natural numbers up to `2^53` compare as they do. -/
theorem ofNat_lt {a b : ℕ} (ha : a ≤ 2 ^ 53) (hb : b ≤ 2 ^ 53) :
    (ofNat a).lt (ofNat b) = decide (a < b) := by
  rw [ofNat_exact ha, ofNat_exact hb]
  simp [lt]

theorem ofNat_le {a b : ℕ} (ha : a ≤ 2 ^ 53) (hb : b ≤ 2 ^ 53) :
    (ofNat a).le (ofNat b) = decide (a ≤ b) := by
  rw [ofNat_exact ha, ofNat_exact hb]
  simp [le]

theorem ofNat_inj {a b : ℕ} (ha : a ≤ 2 ^ 53) (hb : b ≤ 2 ^ 53) (h : ofNat a = ofNat b) :
    a = b := by
  rw [ofNat_exact ha, ofNat_exact hb] at h
  exact_mod_cast (Double.finite.inj h)

theorem isWhole_ofNat {n : ℕ} (h : n ≤ 2 ^ 53) : (ofNat n).isWhole = true := by
  rw [ofNat_exact h]
  simp [isWhole]

theorem truncate_natCast (n : ℕ) : truncate n = n := by
  simp [truncate]

theorem toUnsigned_natCast {n bound : ℕ} (h : n < bound) (hr : Representable n) :
    toUnsigned bound (finite n hr) = some n := by
  simp [toUnsigned, truncate_natCast, h]

/-- A number between zero and a natural number below `bound` converts. -/
theorem exists_toUnsigned {x : Double} {m bound : ℕ} (hm : m ≤ 2 ^ 53) (hbound : m < bound)
    (hnonneg : x.lt (ofNat 0) = false) (hle : x.le (ofNat m) = true) :
    ∃ n, x.toUnsigned bound = some n := by
  rw [ofNat_exact (Nat.zero_le _)] at hnonneg
  rw [ofNat_exact hm] at hle
  rcases x with _ | ⟨_ | _⟩ | ⟨q, hq⟩
  · simp [le] at hle
  · simp [le] at hle
  · simp [lt] at hnonneg
  · have hq0 : 0 ≤ q := by simpa [lt] using hnonneg
    have hqm : q ≤ m := by simpa [le] using hle
    have hfloor : ⌊q⌋ ≤ m := by exact_mod_cast (Int.floor_le q).trans hqm
    have hfloor0 : 0 ≤ ⌊q⌋ := Int.floor_nonneg.mpr hq0
    refine ⟨⌊q⌋.toNat, ?_⟩
    rw [toUnsigned, truncate, if_pos hq0, if_pos ⟨hfloor0, by omega⟩]

/-- What is above zero is not below it. -/
theorem lt_zero_of_pos {x : Double} (h : (ofNat 0).lt x = true) : x.lt (ofNat 0) = false := by
  rw [ofNat_exact (Nat.zero_le _)] at h ⊢
  rcases x with _ | ⟨_ | _⟩ | ⟨q, hq⟩
  · rfl
  · rfl
  · simp [lt] at h
  · have : 0 < q := by simpa [lt] using h
    simpa [lt] using this.le

/-- A whole number that is not negative is a natural number. -/
theorem exists_nat_of_isWhole {q : ℚ} {hr : Representable q} (h : isWhole (finite q hr) = true)
    (hq : 0 ≤ q) : ∃ n : ℕ, q = n := by
  have hfloor : q = ⌊q⌋ := by simpa [isWhole] using h
  refine ⟨⌊q⌋.toNat, ?_⟩
  conv_lhs => rw [hfloor]
  have := Int.toNat_of_nonneg (Int.floor_nonneg.mpr hq)
  exact_mod_cast this.symm

/-- A whole number between zero and a natural number is a natural number. -/
theorem exists_ofNat {x : Double} {m : ℕ} (hm : m ≤ 2 ^ 53) (hwhole : x.isWhole = true)
    (hneg : x.lt (ofNat 0) = false) (hle : (ofNat m).lt x = false) : ∃ n ≤ m, x = ofNat n := by
  rw [ofNat_exact (Nat.zero_le _)] at hneg
  rw [ofNat_exact hm] at hle
  rcases x with _ | _ | ⟨q, hq⟩
  · cases hwhole
  · cases hwhole
  · obtain ⟨n, rfl⟩ := exists_nat_of_isWhole hwhole (by simpa [lt] using hneg)
    have hn : n ≤ m := by
      have : (n : ℚ) ≤ (m : ℚ) := by simpa [lt] using hle
      exact_mod_cast this
    exact ⟨n, hn, (ofNat_exact (hn.trans hm)).symm⟩

/-- The double nearest to a natural number is one itself, if it is not too large. -/
theorem ofNat_le_exact {n m : ℕ} (hm : m ≤ 2 ^ 53) (hle : (ofNat n).le (ofNat m) = true) :
    ∃ k ≤ m, ofNat n = ofNat k := by
  by_cases hn : n ≤ 2 ^ 53
  · rw [ofNat_le hn hm] at hle
    exact ⟨n, of_decide_eq_true hle, rfl⟩
  have hge := le_ofNat (n := n) (by omega)
  rw [ofNat_exact hm] at hle
  rcases hx : ofNat n with _ | ⟨_ | _⟩ | ⟨q, hq⟩
  · rw [hx] at hle
    cases hle
  · rw [hx] at hle
    cases hle
  · rw [hx] at hge
    cases hge
  rw [hx] at hle hge
  have hqm : q ≤ m := by simpa [le] using hle
  have hmq : ((2 ^ 53 : ℕ) : ℚ) ≤ q := by simpa [le] using hge
  have hsame : m = 2 ^ 53 := by
    have : ((2 ^ 53 : ℕ) : ℚ) ≤ (m : ℚ) := hmq.trans hqm
    have : 2 ^ 53 ≤ m := by exact_mod_cast this
    omega
  subst hsame
  have hq : q = ((2 ^ 53 : ℕ) : ℚ) := le_antisymm hqm hmq
  subst hq
  exact ⟨2 ^ 53, le_rfl, (ofNat_exact le_rfl).symm⟩

end Double

end Mdbx.ProofKit
