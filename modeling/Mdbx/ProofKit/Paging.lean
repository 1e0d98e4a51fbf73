import Mdbx.ProofKit.Program
import Mdbx.ProofKit.Table

/-! Reading a table in chunks.  Each chunk after the first starts at the last item of the one before
it, which it repeats; a chunk that is short of its size is the last one.  Together they are the
whole listing. -/

namespace Mdbx.ProofKit

variable {S X A B R K : Type} [LinearOrder K]

/-- The items of the chunks after `previous`, or none when `fuel` chunks do not suffice. -/
def nextChunks (read : Option B → Prog S X (List A)) (name : A → B) (n : ℕ) :
    ℕ → List A → Prog S X (Option (List A))
  | 0, _ => pure none
  | fuel + 1, previous =>
    if previous.length < n then pure (some [])
    else do
      let chunk ← read (previous.getLast?.map name)
      let rest ← nextChunks read name n fuel chunk
      pure (rest.map (chunk.drop 1 ++ ·))

/-- The items of all chunks. -/
def inChunks (read : Option B → Prog S X (List A)) (name : A → B) (n fuel : ℕ) :
    Prog S X (Option (List A)) := do
  let chunk ← read none
  let rest ← nextChunks read name n fuel chunk
  pure (rest.map (chunk ++ ·))

/-- A list from `i` on is `n` items of it, the rest of the chunk that starts at the last of them,
and what comes after that. -/
theorem drop_overlap {α : Type} (l : List α) {i n : ℕ} (hn : 1 ≤ n) :
    ((l.drop (i + n - 1)).take n).drop 1 ++ l.drop (i + n - 1 + n) = l.drop (i + n) := by
  have hsame : i + n - 1 + 1 = i + n := by omega
  have hrest : i + n - 1 + n = i + n + (n - 1) := by omega
  have hback : l.drop (i + n + (n - 1)) = (l.drop (i + n)).drop (n - 1) := by rw [List.drop_drop]
  rw [List.drop_take, List.drop_drop, hsame, hrest, hback, List.take_append_drop]

section Complete

variable (label : R → B) (rank : B → K) (m : Table fun r => rank (label r)) (view : R → A)
  {name : A → B} {reverse : Bool} {n : ℕ} {read : Option B → Prog S X (List A)} {Good : S → Prop}
  {E : X → S → Prop}

/-- The chunks after the one at `i` are what comes after it. -/
theorem nextChunks_complete (hname : ∀ r, name (view r) = label r) (hn : 2 ≤ n)
    (hread : ∀ s start, Good s → Triple (read start) s (fun chunk s' =>
      chunk = ((m.listing reverse (start.map rank)).take n).map view ∧ Good s') E) (fuel : ℕ) :
    ∀ {i : ℕ} {s : S}, Good s → i ≤ (m.listing reverse none).length →
      (m.listing reverse none).length < i + fuel →
      Triple (nextChunks read name n fuel ((((m.listing reverse none).drop i).take n).map view)) s
        (fun items s' => items = some (((m.listing reverse none).drop (i + n)).map view) ∧ Good s')
        E := by
  generalize hl : m.listing reverse none = l
  induction fuel with
  | zero =>
    intro i s _ hi hfuel
    omega
  | succ fuel ih =>
    intro i s good hi hfuel
    rw [nextChunks]
    by_cases hshort : ((((l.drop i).take n).map view).length < n)
    · have hnone : l.drop (i + n) = [] := by
        simp only [List.length_map, List.length_take, List.length_drop] at hshort
        exact List.drop_eq_nil_iff.mpr (by omega)
      rw [if_pos hshort]
      exact Triple.pure ⟨by simp [hnone], good⟩
    rw [if_neg hshort]
    have hfull : i + n ≤ l.length := by
      simp only [List.length_map, List.length_take, List.length_drop] at hshort
      omega
    have hlast : i + n - 1 < l.length := by omega
    have hstart : ((((l.drop i).take n).map view).getLast?.map name) =
        some (label l[i + n - 1]) := by
      have hget : ((l.drop i).take n).getLast? = some l[i + n - 1] := by
        rw [List.getLast?_eq_getElem?, List.getElem?_take, List.getElem?_drop]
        simp only [List.length_take, List.length_drop]
        have hindex : i + (min n (l.length - i) - 1) = i + n - 1 := by omega
        rw [hindex, List.getElem?_eq_getElem hlast, if_pos (by omega)]
      rw [List.getLast?_map, hget, Option.map_some, Option.map_some, hname]
    have hresume : m.listing reverse (some (rank (label l[i + n - 1]))) = l.drop (i + n - 1) := by
      subst hl
      exact m.listing_resume reverse none hlast
    rw [hstart]
    refine Triple.bind (hread s _ good) ?_
    rintro chunk s₁ ⟨rfl, good₁⟩
    rw [Option.map_some, hresume]
    refine Triple.bind (ih good₁ (by omega) (by omega)) ?_
    rintro rest s₂ ⟨rfl, good₂⟩
    refine Triple.pure ⟨?_, good₂⟩
    rw [Option.map_some, ← drop_overlap l (i := i) (n := n) (by omega), List.map_append,
      List.map_drop (i := 1)]

/-- The chunks together are the whole listing, and `fuel` chunks suffice if the table has fewer
records. -/
theorem inChunks_complete (hname : ∀ r, name (view r) = label r) (hn : 2 ≤ n)
    (hread : ∀ s start, Good s → Triple (read start) s (fun chunk s' =>
      chunk = ((m.listing reverse (start.map rank)).take n).map view ∧ Good s') E) {fuel : ℕ}
    (hfuel : m.records.length < fuel) {s : S} (good : Good s) :
    Triple (inChunks read name n fuel) s
      (fun items s' => items = some ((m.listing reverse none).map view) ∧ Good s') E := by
  have hlen := m.length_listing_le reverse none
  refine Triple.bind (hread s none good) ?_
  rintro chunk s₁ ⟨rfl, good₁⟩
  have hnext := nextChunks_complete label rank m view hname hn hread fuel (i := 0) good₁
    (Nat.zero_le _) (by omega)
  rw [List.drop_zero, Nat.zero_add] at hnext
  refine Triple.bind hnext ?_
  rintro rest s₂ ⟨rfl, good₂⟩
  refine Triple.pure ⟨?_, good₂⟩
  rw [Option.map_some, Option.map_none, ← List.map_append, List.take_append_drop]

end Complete

end Mdbx.ProofKit
