import Mathlib.Data.Nat.Bitwise
import Mathlib.Data.List.Nodup

/-! Masks: natural numbers as sets of bits, which masks contain which, and their unions. -/

namespace Mdbx.ProofKit

/-- Every bit of `b` is a bit of `w`. -/
def Covers (w b : ℕ) : Prop := w &&& b = b

instance (w b : ℕ) : Decidable (Covers w b) := inferInstanceAs (Decidable (_ = _))

/-- The bits of all masks of a list. -/
def unionMask (l : List ℕ) : ℕ := l.foldr (· ||| ·) 0

theorem covers_iff {w b : ℕ} : Covers w b ↔ ∀ i, b.testBit i = true → w.testBit i = true := by
  constructor
  · intro h i hi
    have hbit : (w &&& b).testBit i = true := by rw [h]; exact hi
    rw [Nat.testBit_land, Bool.and_eq_true] at hbit
    exact hbit.1
  · intro h
    refine Nat.eq_of_testBit_eq fun i => ?_
    rw [Nat.testBit_land]
    cases hi : b.testBit i with
    | false => rw [Bool.and_false]
    | true => rw [h i hi, Bool.and_true]

theorem Covers.refl (w : ℕ) : Covers w w := Nat.and_self w

theorem Covers.trans {a b c : ℕ} (h : Covers a b) (h' : Covers b c) : Covers a c :=
  covers_iff.mpr fun i hi => covers_iff.mp h i (covers_iff.mp h' i hi)

theorem testBit_unionMask (l : List ℕ) (i : ℕ) :
    (unionMask l).testBit i = true ↔ ∃ b ∈ l, b.testBit i = true := by
  induction l with
  | nil => simp [unionMask]
  | cons b rest ih =>
    show (b ||| unionMask rest).testBit i = true ↔ _
    rw [Nat.testBit_lor, Bool.or_eq_true, ih]
    constructor
    · rintro (h | ⟨c, hc, h⟩)
      · exact ⟨b, List.mem_cons_self, h⟩
      · exact ⟨c, List.mem_cons_of_mem _ hc, h⟩
    · rintro ⟨c, hc, h⟩
      rcases List.mem_cons.mp hc with rfl | hc
      · exact .inl h
      · exact .inr ⟨c, hc, h⟩

/-- A union contains each of its masks. -/
theorem covers_unionMask {l : List ℕ} {b : ℕ} (hb : b ∈ l) : Covers (unionMask l) b :=
  covers_iff.mpr fun i hi => (testBit_unionMask l i).mpr ⟨b, hb, hi⟩

/-- What contains each mask contains their union. -/
theorem covers_of_forall {l : List ℕ} {w : ℕ} (h : ∀ b ∈ l, Covers w b) :
    Covers w (unionMask l) := by
  refine covers_iff.mpr fun i hi => ?_
  obtain ⟨b, hb, hbit⟩ := (testBit_unionMask l i).mp hi
  exact covers_iff.mp (h b hb) i hbit

theorem Covers.antisymm {a b : ℕ} (h : Covers a b) (h' : Covers b a) : a = b := by
  refine Nat.eq_of_testBit_eq fun i => ?_
  exact Bool.eq_iff_iff.mpr ⟨covers_iff.mp h' i, covers_iff.mp h i⟩

/-- Two lists have one union if each mask of either lies in a mask of the other. -/
theorem unionMask_eq {l l' : List ℕ} (h : ∀ b ∈ l, ∃ c ∈ l', Covers c b)
    (h' : ∀ b ∈ l', ∃ c ∈ l, Covers c b) : unionMask l = unionMask l' := by
  refine Covers.antisymm (covers_of_forall fun b hb => ?_) (covers_of_forall fun b hb => ?_)
  · obtain ⟨c, hc, hcovers⟩ := h' b hb
    exact (covers_unionMask hc).trans hcovers
  · obtain ⟨c, hc, hcovers⟩ := h b hb
    exact (covers_unionMask hc).trans hcovers

theorem unionMask_lt {l : List ℕ} {n : ℕ} (h : ∀ b ∈ l, b < 2 ^ n) : unionMask l < 2 ^ n := by
  induction l with
  | nil => exact Nat.two_pow_pos n
  | cons b rest ih =>
    refine Nat.or_lt_two_pow (h b List.mem_cons_self) (ih fun c hc => ?_)
    exact h c (List.mem_cons_of_mem _ hc)

/-- Bits that no mask of a list has are not in its union. -/
theorem unionMask_disjoint {l : List ℕ} {m : ℕ} (h : ∀ b ∈ l, b &&& m = 0) :
    unionMask l &&& m = 0 := by
  induction l with
  | nil => exact Nat.zero_and m
  | cons b rest ih =>
    show (b ||| unionMask rest) &&& m = 0
    rw [Nat.and_or_distrib_right, h b List.mem_cons_self,
      ih fun c hc => h c (List.mem_cons_of_mem _ hc), Nat.or_zero]

end Mdbx.ProofKit
