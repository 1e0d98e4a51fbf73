import Mdbx.ProofKit.Program

/-! What a program can do to its state, as a preorder that every run stays within, and programs
that behave alike from related states.  The rules of both follow the way a program is written. -/

namespace Mdbx.ProofKit

/-- Every run of `m` ends in a state that `R` relates to the one it started from. -/
def Within {S X α : Type} (R : S → S → Prop) (m : Prog S X α) : Prop := ∀ s, R s (m.run s).2

/-- What a predicate that is kept makes of states. -/
theorem preorder_of_kept {S : Type} (P : S → Prop) : IsPreorder S fun s s' => P s → P s' where
  refl _ := id
  trans _ _ _ h h' := h' ∘ h

namespace Within

variable {S X α β : Type} {R : S → S → Prop} {m : Prog S X α} {f : α → Prog S X β}

section Preorder

variable [IsPreorder S R]

theorem pure (a : α) : Within R (Pure.pure a : Prog S X α) := fun s => refl_of R s

theorem exit (x : X) : Within R (Prog.exit x : Prog S X α) := fun s => refl_of R s

theorem get : Within R (Prog.get : Prog S X S) := fun s => refl_of R s

theorem bind (hm : Within R m) (hf : ∀ a, Within R (f a)) : Within R (m >>= f) := by
  intro s
  have hs := hm s
  rw [Prog.run_bind]
  rcases hr : m.run s with ⟨x | a, s'⟩
  · rw [hr] at hs
    exact hs
  · rw [hr] at hs
    exact trans_of R hs (hf a s')

theorem map {g : α → β} (hm : Within R m) : Within R (g <$> m) := by
  rw [← bind_pure_comp]
  exact hm.bind fun _ => pure _

end Preorder

theorem modify {g : S → S} (h : ∀ s, R s (g s)) : Within R (Prog.modify g : Prog S X Unit) := h

theorem attempt (hm : Within R m) : Within R (Prog.attempt m) := hm

theorem ite {c : Prop} [Decidable c] {m' : Prog S X α} (hm : Within R m) (hm' : Within R m') :
    Within R (if c then m else m') := by
  split
  · exact hm
  · exact hm'

theorem mapExit {Y : Type} {g : X → Y} (hm : Within R m) : Within R (Prog.mapExit g m) := hm

end Within

end Mdbx.ProofKit
