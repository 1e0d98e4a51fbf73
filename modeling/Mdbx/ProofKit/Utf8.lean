import Mathlib.Data.List.Lex
import Mathlib.Data.List.Nodup
import Mathlib.Order.Fin.Basic
import Mathlib.Data.Char

/-! UTF-8 over bytes: the encoding of texts, the decoding of well-formed bytes, that each undoes the
other, and that texts compare as their bytes do. -/

namespace Mdbx.ProofKit.Utf8

/-! ### One character -/

/-- The bytes of one scalar value. -/
def units (n : ℕ) : List ℕ :=
  if n < 0x80 then [n]
  else if n < 0x800 then [0xC0 + n / 64, 0x80 + n % 64]
  else if n < 0x10000 then [0xE0 + n / 4096, 0x80 + n / 64 % 64, 0x80 + n % 64]
  else [0xF0 + n / 262144, 0x80 + n / 4096 % 64, 0x80 + n / 64 % 64, 0x80 + n % 64]

def continuation (b : ℕ) : Bool := 0x80 ≤ b ∧ b ≤ 0xBF

/-- The rows of the table of well-formed sequences, by their first bytes. -/
def two (a b : ℕ) : Bool := (0xC2 ≤ a ∧ a ≤ 0xDF) ∧ continuation b

def three (a b c : ℕ) : Bool :=
  ((a = 0xE0 ∧ 0xA0 ≤ b ∧ b ≤ 0xBF) ∨ ((0xE1 ≤ a ∧ a ≤ 0xEC) ∧ continuation b) ∨
    (a = 0xED ∧ 0x80 ≤ b ∧ b ≤ 0x9F) ∨ ((0xEE ≤ a ∧ a ≤ 0xEF) ∧ continuation b)) ∧ continuation c

def four (a b c d : ℕ) : Bool :=
  ((a = 0xF0 ∧ 0x90 ≤ b ∧ b ≤ 0xBF) ∨ ((0xF1 ≤ a ∧ a ≤ 0xF3) ∧ continuation b) ∨
    (a = 0xF4 ∧ 0x80 ≤ b ∧ b ≤ 0x8F)) ∧ continuation c ∧ continuation d

/-- The scalar values that bytes spell, if they are well-formed. -/
def decode : List ℕ → Option (List ℕ)
  | [] => some []
  | a :: rest =>
    if a < 0x80 then (decode rest).map (List.cons a) else
    match rest with
    | [] => none
    | b :: rest =>
      if two a b then (decode rest).map (List.cons ((a - 0xC0) * 64 + (b - 0x80))) else
      match rest with
      | [] => none
      | c :: rest =>
        if three a b c then
          (decode rest).map (List.cons ((a - 0xE0) * 4096 + (b - 0x80) * 64 + (c - 0x80)))
        else
        match rest with
        | [] => none
        | d :: rest =>
          if four a b c d then
            (decode rest).map
              (List.cons ((a - 0xF0) * 262144 + (b - 0x80) * 4096 + (c - 0x80) * 64 + (d - 0x80)))
          else none

theorem units_lt {n : ℕ} (h : n < 0x110000) : ∀ b ∈ units n, b < 256 := by
  unfold units
  split
  · simp
    omega
  · split
    · simp
      omega
    · split <;> simp <;> omega

theorem units_ne_nil (n : ℕ) : units n ≠ [] := by
  unfold units
  split
  · simp
  · split
    · simp
    · split <;> simp

/-- Only the character zero has a byte zero. -/
theorem zero_mem_units {n : ℕ} : 0 ∈ units n ↔ n = 0 := by
  unfold units
  split
  · simp [eq_comm]
  · split
    · simp
      omega
    · split <;> simp <;> omega

/-- Decoding takes the bytes of a scalar value off. -/
theorem decode_units {n : ℕ} (h : n.isValidChar) (rest : List ℕ) :
    decode (units n ++ rest) = (decode rest).map (List.cons n) := by
  unfold Nat.isValidChar at h
  unfold units
  split
  · show decode (n :: rest) = _
    rw [decode.eq_def]
    simp only [if_pos ‹n < 0x80›]
  · split
    · show decode (_ :: _ :: rest) = _
      have htwo : two (0xC0 + n / 64) (0x80 + n % 64) = true := by
        simp [two, continuation]
        omega
      have hvalue : (0xC0 + n / 64 - 0xC0) * 64 + (0x80 + n % 64 - 0x80) = n := by omega
      rw [decode.eq_def]
      simp only [if_neg (show ¬ 0xC0 + n / 64 < 0x80 by omega), htwo, if_true, hvalue]
    · split
      · show decode (_ :: _ :: _ :: rest) = _
        have htwo : two (0xE0 + n / 4096) (0x80 + n / 64 % 64) = false := by
          simp [two]
          omega
        have hthree : three (0xE0 + n / 4096) (0x80 + n / 64 % 64) (0x80 + n % 64) = true := by
          simp [three, continuation]
          omega
        have hvalue : (0xE0 + n / 4096 - 0xE0) * 4096 + (0x80 + n / 64 % 64 - 0x80) * 64 +
            (0x80 + n % 64 - 0x80) = n := by omega
        rw [decode.eq_def]
        simp only [if_neg (show ¬ 0xE0 + n / 4096 < 0x80 by omega), htwo, hthree, if_true, hvalue,
          Bool.false_eq_true, if_false]
      · show decode (_ :: _ :: _ :: _ :: rest) = _
        have htwo : two (0xF0 + n / 262144) (0x80 + n / 4096 % 64) = false := by
          simp [two]
          omega
        have hthree : three (0xF0 + n / 262144) (0x80 + n / 4096 % 64) (0x80 + n / 64 % 64) =
            false := by
          simp [three]
          omega
        have hfour : four (0xF0 + n / 262144) (0x80 + n / 4096 % 64) (0x80 + n / 64 % 64)
            (0x80 + n % 64) = true := by
          simp [four, continuation]
          omega
        have hvalue : (0xF0 + n / 262144 - 0xF0) * 262144 + (0x80 + n / 4096 % 64 - 0x80) * 4096 +
            (0x80 + n / 64 % 64 - 0x80) * 64 + (0x80 + n % 64 - 0x80) = n := by omega
        rw [decode.eq_def]
        simp only [if_neg (show ¬ 0xF0 + n / 262144 < 0x80 by omega), htwo, hthree, hfour, if_true,
          hvalue, Bool.false_eq_true, if_false]

theorem units_two {a b : ℕ} (h : two a b = true) :
    Nat.isValidChar ((a - 0xC0) * 64 + (b - 0x80)) ∧
      units ((a - 0xC0) * 64 + (b - 0x80)) = [a, b] := by
  simp only [two, continuation, decide_eq_true_eq] at h
  refine ⟨by unfold Nat.isValidChar; omega, ?_⟩
  have hfirst : 0xC0 + ((a - 0xC0) * 64 + (b - 0x80)) / 64 = a := by omega
  have hsecond : 0x80 + ((a - 0xC0) * 64 + (b - 0x80)) % 64 = b := by omega
  rw [units, if_neg (by omega), if_pos (by omega), hfirst, hsecond]

theorem units_three {a b c : ℕ} (h : three a b c = true) :
    Nat.isValidChar ((a - 0xE0) * 4096 + (b - 0x80) * 64 + (c - 0x80)) ∧
      units ((a - 0xE0) * 4096 + (b - 0x80) * 64 + (c - 0x80)) = [a, b, c] := by
  simp only [three, continuation, decide_eq_true_eq] at h
  refine ⟨by unfold Nat.isValidChar; omega, ?_⟩
  generalize hn : (a - 0xE0) * 4096 + (b - 0x80) * 64 + (c - 0x80) = n
  have hfirst : 0xE0 + n / 4096 = a := by omega
  have hsecond : 0x80 + n / 64 % 64 = b := by omega
  have hthird : 0x80 + n % 64 = c := by omega
  rw [units, if_neg (by omega), if_neg (by omega), if_pos (by omega), hfirst, hsecond, hthird]

theorem units_four {a b c d : ℕ} (h : four a b c d = true) :
    Nat.isValidChar ((a - 0xF0) * 262144 + (b - 0x80) * 4096 + (c - 0x80) * 64 + (d - 0x80)) ∧
      units ((a - 0xF0) * 262144 + (b - 0x80) * 4096 + (c - 0x80) * 64 + (d - 0x80)) =
        [a, b, c, d] := by
  simp only [four, continuation, decide_eq_true_eq] at h
  refine ⟨by unfold Nat.isValidChar; omega, ?_⟩
  generalize hn : (a - 0xF0) * 262144 + (b - 0x80) * 4096 + (c - 0x80) * 64 + (d - 0x80) = n
  have hfirst : 0xF0 + n / 262144 = a := by omega
  have hsecond : 0x80 + n / 4096 % 64 = b := by omega
  have hthird : 0x80 + n / 64 % 64 = c := by omega
  have hfourth : 0x80 + n % 64 = d := by omega
  rw [units, if_neg (by omega), if_neg (by omega), if_neg (by omega), hfirst, hsecond, hthird,
    hfourth]

/-! ### Texts -/

/-- The scalar values spell the bytes. -/
structure Spells (ns l : List ℕ) : Prop where
  valid : ∀ n ∈ ns, n.isValidChar
  units : ns.flatMap units = l

theorem Spells.cons {n : ℕ} {ns front rest : List ℕ} (hn : n.isValidChar)
    (hfront : Utf8.units n = front) (h : Spells ns rest) : Spells (n :: ns) (front ++ rest) where
  valid m hm := by
    rcases List.mem_cons.mp hm with rfl | hm
    · exact hn
    · exact h.valid m hm
  units := by rw [List.flatMap_cons, hfront, h.units]

/-- Well-formed bytes are those of the scalar values that they spell. -/
theorem decode_spells {l ns : List ℕ} (h : decode l = some ns) : Spells ns l := by
  fun_induction decode l generalizing ns with
  | case1 =>
    cases h
    exact ⟨by simp, rfl⟩
  | case2 a rest hone ih =>
    obtain ⟨tail, htail, rfl⟩ := Option.map_eq_some_iff.mp h
    exact (ih htail).cons (.inl (by omega)) (if_pos hone)
  | case4 a _ b rest htwo ih =>
    obtain ⟨tail, htail, rfl⟩ := Option.map_eq_some_iff.mp h
    obtain ⟨hvalid, hunits⟩ := units_two htwo
    exact (ih htail).cons hvalid hunits
  | case6 a _ b _ c rest hthree ih =>
    obtain ⟨tail, htail, rfl⟩ := Option.map_eq_some_iff.mp h
    obtain ⟨hvalid, hunits⟩ := units_three hthree
    exact (ih htail).cons hvalid hunits
  | case8 a _ b _ c _ d rest hfour ih =>
    obtain ⟨tail, htail, rfl⟩ := Option.map_eq_some_iff.mp h
    obtain ⟨hvalid, hunits⟩ := units_four hfour
    exact (ih htail).cons hvalid hunits
  | case3 | case5 | case7 | case9 => cases h

theorem decode_flatMap {ns : List ℕ} (h : ∀ n ∈ ns, n.isValidChar) :
    decode (ns.flatMap units) = some ns := by
  induction ns with
  | nil => rfl
  | cons n ns ih =>
    rw [List.flatMap_cons, decode_units (h n List.mem_cons_self),
      ih fun m hm => h m (List.mem_cons_of_mem _ hm)]
    rfl

/-! ### Order -/

/-- Where two characters differ, their bytes compare as they do, whatever follows. -/
theorem units_append_lt {m n : ℕ} (h : m < n) (hn : n < 0x110000) (r s : List ℕ) :
    units m ++ r < units n ++ s := by
  unfold units
  split
  · split
    · simp [List.cons_lt_cons_iff, h]
    · split
      · simp [List.cons_lt_cons_iff]
        omega
      · split <;> simp [List.cons_lt_cons_iff] <;> omega
  · rw [if_neg (show ¬ n < 0x80 by omega)]
    split
    · split
      · simp [List.cons_lt_cons_iff]
        omega
      · split <;> simp [List.cons_lt_cons_iff] <;> omega
    · rw [if_neg (show ¬ n < 0x800 by omega)]
      split
      · split <;> simp [List.cons_lt_cons_iff] <;> omega
      · rw [if_neg (show ¬ n < 0x10000 by omega)]
        simp [List.cons_lt_cons_iff]
        omega

theorem append_lt_append {l r s : List ℕ} (h : r < s) : l ++ r < l ++ s := by
  induction l with
  | nil => exact h
  | cons a l ih => exact List.cons_lt_cons_iff.mpr (.inr ⟨rfl, ih⟩)

theorem flatMap_units_lt {ns ms : List ℕ} (hms : ∀ m ∈ ms, m.isValidChar) (h : ns < ms) :
    ns.flatMap units < ms.flatMap units := by
  induction ms generalizing ns with
  | nil => exact absurd h (List.not_lt_nil ns)
  | cons m ms ih =>
    have hm : m < 0x110000 := by
      have := hms m List.mem_cons_self
      unfold Nat.isValidChar at this
      omega
    rw [List.flatMap_cons]
    cases ns with
    | nil =>
      rw [List.flatMap_nil]
      cases hunits : units m with
      | nil => exact absurd hunits (units_ne_nil m)
      | cons b rest => exact List.nil_lt_cons _ _
    | cons n ns =>
      rw [List.flatMap_cons]
      rcases List.cons_lt_cons_iff.mp h with hlt | ⟨rfl, hlt⟩
      · exact units_append_lt hlt hm _ _
      · exact append_lt_append (ih (fun k hk => hms k (List.mem_cons_of_mem _ hk)) hlt)

/-- Texts compare as their bytes do. -/
theorem flatMap_units_lt_iff {ns ms : List ℕ} (hns : ∀ n ∈ ns, n.isValidChar)
    (hms : ∀ m ∈ ms, m.isValidChar) : ns.flatMap units < ms.flatMap units ↔ ns < ms := by
  constructor
  · intro h
    rcases lt_trichotomy ns ms with hlt | rfl | hgt
    · exact hlt
    · exact absurd h (lt_irrefl _)
    · exact absurd (h.trans (flatMap_units_lt hns hgt)) (lt_irrefl _)
  · exact flatMap_units_lt hms

/-! ### Characters and bytes -/

/-- A strictly monotone function keeps the order of lists. -/
theorem map_lt_map_iff {α β : Type} [LinearOrder α] [LinearOrder β] {f : α → β} (hf : StrictMono f)
    {l l' : List α} : l.map f < l'.map f ↔ l < l' := by
  induction l generalizing l' with
  | nil =>
    cases l' with
    | nil => simp
    | cons b l' => simp
  | cons a l ih =>
    cases l' with
    | nil => simp
    | cons b l' =>
      rw [List.map_cons, List.map_cons, List.cons_lt_cons_iff, List.cons_lt_cons_iff, hf.lt_iff_lt,
        hf.injective.eq_iff, ih]

theorem toNat_strictMono : StrictMono Char.toNat := fun _ _ h => h

theorem val_strictMono : StrictMono (Fin.val : Fin 256 → ℕ) := fun _ _ h => h

def toByte (n : ℕ) : Fin 256 := ⟨n % 256, Nat.mod_lt n (by decide)⟩

/-- The bytes of a text. -/
def encode (text : List Char) : List (Fin 256) := ((text.map Char.toNat).flatMap units).map toByte

/-- The text that bytes spell, if they are well-formed. -/
def text (bytes : List (Fin 256)) : Option (List Char) :=
  (decode (bytes.map Fin.val)).map (List.map Char.ofNat)

/-- The bytes are well-formed. -/
def WellFormed (bytes : List (Fin 256)) : Prop := (text bytes).isSome = true

instance (bytes : List (Fin 256)) : Decidable (WellFormed bytes) :=
  inferInstanceAs (Decidable (_ = true))

theorem toNat_ofNat {n : ℕ} (h : n.isValidChar) : (Char.ofNat n).toNat = n := by
  rw [Char.ofNat, dif_pos h]
  rfl

theorem map_toNat_valid (cs : List Char) : ∀ n ∈ cs.map Char.toNat, n.isValidChar := by
  intro n hn
  obtain ⟨c, -, rfl⟩ := List.mem_map.mp hn
  exact c.valid

theorem encode_val (cs : List Char) :
    (encode cs).map Fin.val = (cs.map Char.toNat).flatMap units := by
  rw [encode, List.map_map]
  have hbyte : ∀ b ∈ (cs.map Char.toNat).flatMap units, (Fin.val ∘ toByte) b = b := by
    intro b hb
    obtain ⟨n, hn, hb⟩ := List.mem_flatMap.mp hb
    have hvalid := map_toNat_valid cs n hn
    have hlt : b < 256 := units_lt (by unfold Nat.isValidChar at hvalid; omega) b hb
    exact Nat.mod_eq_of_lt hlt
  exact (List.map_congr_left hbyte).trans (List.map_id _)

theorem text_encode (cs : List Char) : text (encode cs) = some cs := by
  rw [text, encode_val, decode_flatMap (map_toNat_valid cs), Option.map_some, List.map_map]
  have hchar : ∀ c ∈ cs, (Char.ofNat ∘ Char.toNat) c = c := fun c _ => Char.ofNat_toNat c
  rw [List.map_congr_left hchar]
  exact congrArg some (List.map_id _)

/-- Encoding and decoding undo each other. -/
theorem text_eq_some {bytes : List (Fin 256)} {cs : List Char} :
    text bytes = some cs ↔ encode cs = bytes := by
  constructor
  · intro h
    obtain ⟨ns, hns, rfl⟩ := Option.map_eq_some_iff.mp h
    obtain ⟨hvalid, hunits⟩ := decode_spells hns
    have hback : (ns.map Char.ofNat).map Char.toNat = ns := by
      rw [List.map_map]
      have hnat : ∀ n ∈ ns, (Char.toNat ∘ Char.ofNat) n = n :=
        fun n hn => toNat_ofNat (hvalid n hn)
      rw [List.map_congr_left hnat]
      exact List.map_id _
    have hval : (encode (ns.map Char.ofNat)).map Fin.val = bytes.map Fin.val := by
      rw [encode_val, hback, hunits]
    exact List.map_injective_iff.mpr Fin.val_injective hval
  · rintro rfl
    exact text_encode cs

theorem wellFormed_iff {bytes : List (Fin 256)} : WellFormed bytes ↔ ∃ cs, encode cs = bytes := by
  rw [WellFormed, Option.isSome_iff_exists]
  exact exists_congr fun cs => text_eq_some

theorem encode_injective : Function.Injective encode := fun cs ds h => by
  have htext := text_encode cs
  rw [h, text_encode ds] at htext
  exact (Option.some.inj htext).symm

/-- Texts compare by their code points as their bytes do. -/
theorem encode_lt_iff {cs ds : List Char} : encode cs < encode ds ↔ cs < ds := by
  rw [← map_lt_map_iff val_strictMono, encode_val, encode_val,
    flatMap_units_lt_iff (map_toNat_valid cs) (map_toNat_valid ds),
    map_lt_map_iff toNat_strictMono]

/-- A byte zero comes from a character zero. -/
theorem zero_mem_encode {cs : List Char} {b : Fin 256} (hb : b.val = 0) :
    b ∈ encode cs ↔ ∃ c ∈ cs, c.toNat = 0 := by
  have hmem : b ∈ encode cs ↔ 0 ∈ (encode cs).map Fin.val := by
    rw [List.mem_map]
    constructor
    · exact fun h => ⟨b, h, hb⟩
    · rintro ⟨b', hb', hzero⟩
      have hsame : b' = b := Fin.val_injective (hzero.trans hb.symm)
      exact hsame ▸ hb'
  rw [hmem, encode_val, List.mem_flatMap]
  constructor
  · rintro ⟨n, hn, hzero⟩
    obtain ⟨c, hc, rfl⟩ := List.mem_map.mp hn
    exact ⟨c, hc, zero_mem_units.mp hzero⟩
  · rintro ⟨c, hc, hzero⟩
    exact ⟨c.toNat, List.mem_map_of_mem hc, zero_mem_units.mpr hzero⟩

end Mdbx.ProofKit.Utf8
