import Mathlib.Algebra.Order.Group.Nat
import Mathlib.Order.Defs.LinearOrder
import Mathlib.Data.List.Basic
import Mathlib.Tactic.Common

/-! Tables of records in ascending order of their keys, cursors that walk them in either direction,
and the listing of a table in chunks. -/

namespace Mdbx.ProofKit

/-! ### Lists that a predicate splits -/

section Split

variable {α : Type} {p : α → Bool} {l : List α}

/-- Once true, always true: the predicate holds from its first element on. -/
theorem drop_findIdx (h : l.Pairwise fun a b => p a = true → p b = true) :
    l.drop (l.findIdx p) = l.filter p := by
  induction l with
  | nil => rfl
  | cons a rest ih =>
    rw [List.pairwise_cons] at h
    rw [List.findIdx_cons]
    cases hp : p a with
    | false => simpa [hp] using ih h.2
    | true =>
      have hall : rest.filter p = rest := List.filter_eq_self.mpr fun b hb => h.1 b hb hp
      simp [hp, hall]

end Split

variable {R K : Type} [LinearOrder K]

/-- Records in strictly ascending order of their keys. -/
structure Table (key : R → K) where
  records : List R
  ascending : records.Pairwise fun a b => key a < key b

namespace Table

variable {key : R → K} (m : Table key)

/-- The records from `start` on, in ascending order or in descending order. -/
def listing (reverse : Bool) (start : Option K) : List R :=
  match reverse, start with
  | false, none => m.records
  | true, none => m.records.reverse
  | false, some k => m.records.filter fun r => k ≤ key r
  | true, some k => (m.records.filter fun r => key r ≤ k).reverse

theorem length_listing_le (reverse : Bool) (start : Option K) :
    (m.listing reverse start).length ≤ m.records.length := by
  cases reverse <;> cases start <;> simp [listing, List.length_filter_le]

/-! ### Cursors -/

/-- Where a cursor stands that was asked for the first record, for the last one, or for the first
one with at least the key `k`. -/
def first : Option ℕ := if m.records = [] then none else some 0

def last : Option ℕ := if m.records = [] then none else some (m.records.length - 1)

def seek (k : K) : Option ℕ :=
  let i := m.records.findIdx fun r => k ≤ key r
  if i < m.records.length then some i else none

/-- Where a cursor at `i` stands after one move. -/
def step (reverse : Bool) (i : ℕ) : Option ℕ :=
  if reverse then (if 0 < i then some (i - 1) else none)
  else (if i + 1 < m.records.length then some (i + 1) else none)

/-- The records that a walk delivers which has its first move made. -/
def ahead (reverse : Bool) : Option ℕ → List R
  | none => []
  | some i => if reverse then (m.records.take (i + 1)).reverse else m.records.drop i

theorem ahead_cons (reverse : Bool) {i : ℕ} (h : i < m.records.length) :
    m.ahead reverse (some i) = m.records[i] :: m.ahead reverse (m.step reverse i) := by
  cases reverse with
  | false =>
    by_cases hnext : i + 1 < m.records.length
    · simp [ahead, step, hnext]
    · have hdrop : m.records.drop (i + 1) = [] := List.drop_eq_nil_iff.mpr (by omega)
      simp [ahead, step, hnext, List.drop_eq_getElem_cons h, hdrop]
  | true =>
    cases i with
    | zero => simp [ahead, step, List.take_one, List.head?_eq_getElem?, h]
    | succ i =>
      have : i < m.records.length := by omega
      simp [ahead, step, List.take_add_one, h]

theorem step_lt {reverse : Bool} {i j : ℕ} (hi : i < m.records.length)
    (h : m.step reverse i = some j) : j < m.records.length := by
  unfold step at h
  grind

theorem ahead_first : m.ahead false m.first = m.listing false none := by
  unfold first
  split
  · simp_all [ahead, listing]
  · simp [ahead, listing]

theorem ahead_last : m.ahead true m.last = m.listing true none := by
  unfold last
  split
  · simp_all [ahead, listing]
  · have : m.records.length - 1 + 1 = m.records.length := by
      have := List.length_pos_iff.mpr ‹m.records ≠ []›
      omega
    simp [ahead, listing, this]

/-- Keys that are at least `k` come last. -/
theorem pairwise_le (k : K) :
    m.records.Pairwise fun a b => decide (k ≤ key a) = true → decide (k ≤ key b) = true :=
  m.ascending.imp fun hlt h => by
    simp only [decide_eq_true_eq] at h ⊢
    exact h.trans hlt.le

theorem ahead_seek (k : K) : m.ahead false (m.seek k) = m.listing false (some k) := by
  have hdrop := drop_findIdx (m.pairwise_le k)
  unfold seek
  simp only
  split
  · exact hdrop
  · have : m.records.drop (m.records.findIdx fun r => k ≤ key r) = [] :=
      List.drop_eq_nil_iff.mpr (by omega)
    rw [this] at hdrop
    exact hdrop

/-! ### Walking backward from a key -/

theorem seek_some {k : K} {i : ℕ} (h : m.seek k = some i) :
    ∃ hi : i < m.records.length, k ≤ key m.records[i] ∧
      ∀ j (hj : j < i), key m.records[j] < k := by
  unfold seek at h
  simp only at h
  split at h
  · obtain rfl := Option.some.inj h
    refine ⟨‹_›, ?_, fun j hj => ?_⟩
    · have := List.findIdx_getElem (w := ‹_ < m.records.length›)
      simpa using this
    · have := List.not_of_lt_findIdx hj
      simpa using this
  · cases h

theorem seek_none {k : K} (h : m.seek k = none) : ∀ r ∈ m.records, key r < k := by
  unfold seek at h
  simp only at h
  split at h
  · cases h
  · intro r hr
    have hlen : m.records.findIdx (fun r => k ≤ key r) = m.records.length :=
      le_antisymm List.findIdx_le_length (by omega)
    have := List.findIdx_eq_length.mp hlen r hr
    simpa using this

theorem key_lt {i j : ℕ} (hi : i < m.records.length) (hj : j < m.records.length) (h : i < j) :
    key m.records[i] < key m.records[j] := List.pairwise_iff_getElem.mp m.ascending i j hi hj h

/-- The records up to `k` are those before an index, if the keys before it are at most `k` and the
others above. -/
theorem listing_true_eq_take {k : K} {j : ℕ}
    (hlow : ∀ i (hi : i < m.records.length), i < j → key m.records[i] ≤ k)
    (hhigh : ∀ i (hi : i < m.records.length), j ≤ i → k < key m.records[i]) :
    m.listing true (some k) = (m.records.take j).reverse := by
  have hfront : (m.records.take j).filter (fun r => decide (key r ≤ k)) = m.records.take j := by
    refine List.filter_eq_self.mpr fun r hr => ?_
    obtain ⟨i, hi, rfl⟩ := List.mem_take_iff_getElem.mp hr
    exact decide_eq_true (hlow i (by omega) (by omega))
  have hback : (m.records.drop j).filter (fun r => decide (key r ≤ k)) = [] := by
    refine List.filter_eq_nil_iff.mpr fun r hr => ?_
    obtain ⟨i, hi, rfl⟩ := List.mem_drop_iff_getElem.mp hr
    simpa using hhigh (j + i) (by omega) (by omega)
  have := congrArg (List.filter fun r => decide (key r ≤ k)) (List.take_append_drop j m.records)
  rw [List.filter_append, hfront, hback, List.append_nil] at this
  rw [listing, ← this]

/-- Past every key the walk starts from the last record. -/
theorem ahead_past {k : K} (h : m.seek k = none) :
    m.ahead true m.last = m.listing true (some k) := by
  have hall : m.records.filter (fun r => decide (key r ≤ k)) = m.records :=
    List.filter_eq_self.mpr fun r hr => decide_eq_true (m.seek_none h r hr).le
  rw [ahead_last, listing, listing, hall]

/-- A hit is the first record of the walk. -/
theorem ahead_hit {k : K} {i : ℕ} (h : m.seek k = some i)
    (hk : ∀ hi : i < m.records.length, key m.records[i] ≤ k) :
    m.ahead true (some i) = m.listing true (some k) := by
  obtain ⟨hi, hle, hbelow⟩ := m.seek_some h
  rw [m.listing_true_eq_take (j := i + 1)]
  · rfl
  · intro j hj hlt
    rcases Nat.lt_succ_iff_lt_or_eq.mp hlt with hlt | rfl
    · exact (hbelow j hlt).le
    · exact hk hi
  · intro j hj hge
    exact hle.trans_lt (m.key_lt hi hj hge)

/-- A record above the key is stepped back from. -/
theorem ahead_overshot {k : K} {i : ℕ} (h : m.seek k = some i)
    (hk : ∀ hi : i < m.records.length, k < key m.records[i]) :
    m.ahead true (m.step true i) = m.listing true (some k) := by
  obtain ⟨hi, hle, hbelow⟩ := m.seek_some h
  rw [m.listing_true_eq_take (j := i)]
  · cases i with
    | zero => rfl
    | succ i => simp [step, ahead]
  · exact fun j hj hlt => (hbelow j hlt).le
  · intro j hj hge
    rcases hge.lt_or_eq with hlt | rfl
    · exact (hk hi).trans (m.key_lt hi hj hlt)
    · exact hk hi

/-! ### Going on from a record -/

/-- Whether a listing that starts at `k` has a record of key `k'`. -/
def reaches (reverse : Bool) (k k' : K) : Bool := if reverse then k' ≤ k else k ≤ k'

theorem listing_some (reverse : Bool) (k : K) :
    m.listing reverse (some k) = (m.listing reverse none).filter fun r =>
      reaches reverse k (key r) := by
  cases reverse <;> simp [listing, reaches, List.filter_reverse]

/-- A later record of a listing is reached from an earlier one, and not the other way round. -/
theorem listing_pairwise (reverse : Bool) (start : Option K) :
    (m.listing reverse start).Pairwise fun a b =>
      reaches reverse (key a) (key b) = true ∧ reaches reverse (key b) (key a) = false := by
  have hwhole : (m.listing reverse none).Pairwise fun a b =>
      reaches reverse (key a) (key b) = true ∧ reaches reverse (key b) (key a) = false := by
    cases reverse with
    | false =>
      refine m.ascending.imp fun {a b} h => ?_
      simp [reaches, h, h.le]
    | true =>
      refine List.pairwise_reverse.mpr (m.ascending.imp fun {a b} h => ?_)
      simp [reaches, h, h.le]
  cases start with
  | none => exact hwhole
  | some k =>
    rw [listing_some]
    exact hwhole.filter _

/-- What is reached from a record that is reached is reached. -/
theorem reaches_trans {reverse : Bool} {k a b : K} (h : reaches reverse k a = true)
    (h' : reaches reverse a b = true) : reaches reverse k b = true := by
  cases reverse with
  | false =>
    simp only [reaches, Bool.false_eq_true, if_false, decide_eq_true_eq] at *
    exact h.trans h'
  | true =>
    simp only [reaches, if_true, decide_eq_true_eq] at *
    exact h'.trans h

/-- The listing that starts at a record of a listing has the records of it that are reached. -/
theorem listing_from {reverse : Bool} {start : Option K} {x : R}
    (hx : x ∈ m.listing reverse start) :
    m.listing reverse (some (key x)) = (m.listing reverse start).filter fun r =>
      reaches reverse (key x) (key r) := by
  rw [listing_some]
  cases start with
  | none => rfl
  | some k =>
    rw [listing_some] at hx ⊢
    have hreached := (List.mem_filter.mp hx).2
    rw [List.filter_filter]
    refine List.filter_congr fun r _ => ?_
    cases hr : reaches reverse (key x) (key r) with
    | false => rfl
    | true => rw [reaches_trans hreached hr, Bool.true_and]

/-- The listing that starts at a record of a listing is the rest of it. -/
theorem listing_resume (reverse : Bool) (start : Option K) {i : ℕ}
    (hi : i < (m.listing reverse start).length) :
    m.listing reverse (some (key (m.listing reverse start)[i])) =
      (m.listing reverse start).drop i := by
  generalize hl : m.listing reverse start = l at hi
  have hpair : l.Pairwise fun a b => reaches reverse (key a) (key b) = true ∧
      reaches reverse (key b) (key a) = false := hl ▸ m.listing_pairwise reverse start
  have hget := List.pairwise_iff_getElem.mp hpair
  have hself : reaches reverse (key l[i]) (key l[i]) = true := by
    cases reverse <;> simp [reaches]
  have hfront : (l.take i).filter (fun r => reaches reverse (key l[i]) (key r)) = [] := by
    refine List.filter_eq_nil_iff.mpr fun r hr => ?_
    obtain ⟨j, hj, rfl⟩ := List.mem_take_iff_getElem.mp hr
    simp [(hget j i (by omega) hi (by omega)).2]
  have hback : (l.drop i).filter (fun r => reaches reverse (key l[i]) (key r)) = l.drop i := by
    refine List.filter_eq_self.mpr fun r hr => ?_
    obtain ⟨j, hj, rfl⟩ := List.mem_drop_iff_getElem.mp hr
    rcases Nat.eq_zero_or_pos j with rfl | hpos
    · simpa using hself
    · exact (hget i (i + j) hi (by omega) (by omega)).1
  have hsplit := congrArg (List.filter fun r => reaches reverse (key l[i]) (key r))
    (List.take_append_drop i l)
  rw [List.filter_append, hfront, hback, List.nil_append] at hsplit
  have hmem : l[i] ∈ m.listing reverse start := hl ▸ List.getElem_mem hi
  rw [m.listing_from hmem, hl, ← hsplit]

end Table

end Mdbx.ProofKit
