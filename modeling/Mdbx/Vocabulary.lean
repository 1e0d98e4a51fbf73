import Mdbx.Flags
import Mdbx.ProofKit.Masks

/-! Flag names against flag bits: what each direction of the translation makes of the other, and
what `check_flags` lets through. -/

namespace Mdbx

open ProofKit

/-! ### Names to bits -/

section Table

variable {table : List FlagEntry} {names : List String}

/-- The bits of the entries of a table that a list names. -/
def namedBits (table : List FlagEntry) (names : List String) : ℕ :=
  unionMask ((table.filter fun entry => entry.name ∈ names).map FlagEntry.bit)

/-- Each name of the list is in the table. -/
def Known (table : List FlagEntry) (names : List String) : Prop :=
  ∀ name ∈ names, name ∈ table.map FlagEntry.name

theorem find_known {name : String} (h : name ∈ table.map FlagEntry.name) :
    ∃ entry ∈ table, entry.name = name ∧
      table.find? (fun entry => entry.name == name) = some entry := by
  cases hfind : table.find? fun entry => entry.name == name with
  | none =>
    obtain ⟨entry, hmem, rfl⟩ := List.mem_map.mp h
    simpa using List.find?_eq_none.mp hfind entry hmem
  | some entry =>
    exact ⟨entry, List.mem_of_find?_eq_some hfind, by simpa using List.find?_some hfind, rfl⟩

/-- The names of a list stand for the bits of their entries, whatever their order and however often
each comes. -/
theorem bitsFrom_known (hone : (table.map FlagEntry.name).Nodup) (h : Known table names) :
    bitsFrom table names = .ok (namedBits table names) := by
  induction names with
  | nil => simp [bitsFrom, namedBits, unionMask]
  | cons name rest ih =>
    obtain ⟨entry, hmem, hname, hfind⟩ := find_known (h name List.mem_cons_self)
    rw [bitsFrom, hfind]
    simp only
    rw [ih fun n hn => h n (List.mem_cons_of_mem _ hn)]
    show Except.ok (entry.bit ||| namedBits table rest) = _
    congr 1
    have hcons : entry.bit ||| namedBits table rest = unionMask (entry.bit ::
        ((table.filter fun entry => entry.name ∈ rest).map FlagEntry.bit)) := rfl
    rw [hcons, namedBits]
    refine unionMask_eq (fun b hb => ?_) (fun b hb => ?_)
    · rcases List.mem_cons.mp hb with rfl | hb
      · exact ⟨_, List.mem_map_of_mem (List.mem_filter.mpr ⟨hmem, by simp [hname]⟩), .refl _⟩
      · obtain ⟨e, he, rfl⟩ := List.mem_map.mp hb
        obtain ⟨hin, hrest⟩ := List.mem_filter.mp he
        refine ⟨_, List.mem_map_of_mem (List.mem_filter.mpr ⟨hin, ?_⟩), .refl _⟩
        simp only [decide_eq_true_eq] at hrest ⊢
        exact List.mem_cons_of_mem _ hrest
    · obtain ⟨e, he, rfl⟩ := List.mem_map.mp hb
      obtain ⟨hin, hnamed⟩ := List.mem_filter.mp he
      rcases List.mem_cons.mp (of_decide_eq_true hnamed) with heq | hrest
      · have hsame : e = entry := List.inj_on_of_nodup_map hone hin hmem (heq.trans hname.symm)
        exact ⟨entry.bit, List.mem_cons_self, hsame ▸ .refl _⟩
      · refine ⟨e.bit, List.mem_cons_of_mem _ (List.mem_map_of_mem ?_), .refl _⟩
        exact List.mem_filter.mpr ⟨hin, decide_eq_true hrest⟩

/-- A name that the table lacks is refused. -/
theorem bitsFrom_unknown (h : ¬ Known table names) :
    ∃ name ∈ names, bitsFrom table names = .error name := by
  induction names with
  | nil => exact absurd (by simp [Known]) h
  | cons name rest ih =>
    rw [bitsFrom]
    cases hfind : table.find? fun entry => entry.name == name with
    | none => exact ⟨name, List.mem_cons_self, rfl⟩
    | some entry =>
      have hrest : ¬ Known table rest := by
        intro hrest
        refine h fun n hn => ?_
        rcases List.mem_cons.mp hn with rfl | hn
        · refine List.mem_map.mpr ⟨entry, List.mem_of_find?_eq_some hfind, ?_⟩
          simpa using List.find?_some hfind
        · exact hrest n hn
      obtain ⟨n, hn, hbits⟩ := ih hrest
      exact ⟨n, List.mem_cons_of_mem _ hn, by simp only [hbits]; rfl⟩

end Table

/-! ### Bits to names -/

/-- The entry is one that `names_from` reports: all its bits are there, and it is not a
`SAFE_NOSYNC` inside an `UTTERLY_NOSYNC`. -/
def Shown (w : ℕ) (entry : FlagEntry) : Prop :=
  Covers w entry.bit ∧ ¬ (entry.name = "SAFE_NOSYNC" ∧ Covers w 0x110000)

instance (w : ℕ) (entry : FlagEntry) : Decidable (Shown w entry) :=
  inferInstanceAs (Decidable (_ ∧ _))

/-- Past the entry of `UTTERLY_NOSYNC`, the walk reports what is contained. -/
theorem namesFromTable_rest {w : ℕ} {utterly : Bool} {table : List FlagEntry}
    (h : ∀ entry ∈ table, entry.name ≠ "UTTERLY_NOSYNC") :
    namesFromTable w utterly table = (table.filter fun entry =>
      Covers w entry.bit ∧ ¬ (utterly = true ∧ entry.name = "SAFE_NOSYNC")).map FlagEntry.name := by
  induction table with
  | nil => rfl
  | cons entry rest ih =>
    have ih := ih fun e he => h e (List.mem_cons_of_mem _ he)
    have hother := h entry List.mem_cons_self
    by_cases hcovers : Covers w entry.bit
    · have hmask : ¬ (w &&& entry.bit ≠ entry.bit) := not_not.mpr hcovers
      rw [namesFromTable, if_neg hmask, if_neg hother]
      by_cases hsafe : utterly = true ∧ entry.name = "SAFE_NOSYNC"
      · rw [if_pos hsafe, List.filter_cons_of_neg (by simp [hsafe]), ih]
      · rw [if_neg hsafe, List.filter_cons_of_pos (by
          rw [decide_eq_true_eq]
          exact ⟨hcovers, hsafe⟩), List.map_cons, ih]
    · have hmask : w &&& entry.bit ≠ entry.bit := hcovers
      rw [namesFromTable, if_pos hmask, List.filter_cons_of_neg (by simp [hcovers]), ih]

theorem namesFrom_eq (w : ℕ) :
    namesFrom w = (envFlags.filter fun entry => Shown w entry).map FlagEntry.name := by
  have hrest : ∀ entry ∈ envFlags.tail, entry.name ≠ "UTTERLY_NOSYNC" := by decide
  have hhead : envFlags = ⟨"UTTERLY_NOSYNC", 0x110000, true, true⟩ :: envFlags.tail := rfl
  rw [namesFrom, hhead, namesFromTable]
  by_cases hutterly : Covers w 0x110000
  · have hshown : Shown w ⟨"UTTERLY_NOSYNC", 0x110000, true, true⟩ :=
      ⟨hutterly, by simp⟩
    have hmask : ¬ (w &&& 0x110000 ≠ 0x110000) := not_not.mpr hutterly
    rw [if_neg hmask, if_pos rfl, namesFromTable_rest hrest,
      List.filter_cons_of_pos (by simpa using hshown), List.map_cons]
    congr 3
    funext entry
    simp [Shown, hutterly]
  · have hshown : ¬ Shown w ⟨"UTTERLY_NOSYNC", 0x110000, true, true⟩ := fun h => hutterly h.1
    have hmask : w &&& 0x110000 ≠ 0x110000 := hutterly
    rw [if_pos hmask, namesFromTable_rest hrest,
      List.filter_cons_of_neg (by simpa using hshown)]
    congr 2
    funext entry
    simp [Shown, hutterly]

theorem envFlags_nodup : (envFlags.map FlagEntry.name).Nodup := by decide

theorem txnFlags_nodup : (txnFlags.map FlagEntry.name).Nodup := by decide

theorem mem_namesFrom {w : ℕ} {entry : FlagEntry} (h : entry ∈ envFlags) :
    entry.name ∈ namesFrom w ↔ Shown w entry := by
  rw [namesFrom_eq]
  constructor
  · intro hname
    obtain ⟨e, he, heq⟩ := List.mem_map.mp hname
    obtain ⟨hin, hshown⟩ := List.mem_filter.mp he
    obtain rfl : e = entry := List.inj_on_of_nodup_map envFlags_nodup hin h heq
    exact of_decide_eq_true hshown
  · intro hshown
    exact List.mem_map_of_mem (List.mem_filter.mpr ⟨h, decide_eq_true hshown⟩)

theorem namesFrom_nodup (w : ℕ) : (namesFrom w).Nodup := by
  rw [namesFrom_eq]
  exact envFlags_nodup.sublist (List.filter_sublist.map _)

theorem namesFrom_known (w : ℕ) : Known envFlags (namesFrom w) := by
  intro name hname
  rw [namesFrom_eq] at hname
  obtain ⟨e, he, rfl⟩ := List.mem_map.mp hname
  exact List.mem_map_of_mem (List.mem_filter.mp he).1

/-- A flag that is contained is reported, or absorbed by `UTTERLY_NOSYNC`, which is. -/
theorem shown_or_absorbed {w : ℕ} {entry : FlagEntry} (h : Covers w entry.bit) :
    Shown w entry ∨ (entry.name = "SAFE_NOSYNC" ∧ "UTTERLY_NOSYNC" ∈ namesFrom w) := by
  by_cases habsorbed : entry.name = "SAFE_NOSYNC" ∧ Covers w 0x110000
  · right
    have hutterly : (⟨"UTTERLY_NOSYNC", 0x110000, true, true⟩ : FlagEntry) ∈ envFlags := by decide
    exact ⟨habsorbed.1, (mem_namesFrom hutterly).mpr ⟨habsorbed.2, by simp⟩⟩
  · exact .inl ⟨h, habsorbed⟩

/-! ### There and back -/

/-- The bits of all flags that a word contains. -/
def containedBits (w : ℕ) : ℕ :=
  unionMask ((envFlags.filter fun entry => Covers w entry.bit).map FlagEntry.bit)

/-- A word and the flags in it contain the same flags. -/
theorem covers_containedBits {w : ℕ} {entry : FlagEntry} (h : entry ∈ envFlags) :
    Covers (containedBits w) entry.bit ↔ Covers w entry.bit := by
  constructor
  · intro hcovers
    refine Covers.trans (covers_of_forall fun b hb => ?_) hcovers
    obtain ⟨e, he, rfl⟩ := List.mem_map.mp hb
    exact of_decide_eq_true (List.mem_filter.mp he).2
  · intro hcovers
    exact covers_unionMask (List.mem_map_of_mem (List.mem_filter.mpr ⟨h, decide_eq_true hcovers⟩))

theorem bitsFrom_namesFrom (w : ℕ) : bitsFrom envFlags (namesFrom w) = .ok (containedBits w) := by
  rw [bitsFrom_known envFlags_nodup (namesFrom_known w)]
  congr 1
  refine unionMask_eq (fun b hb => ?_) (fun b hb => ?_)
  · obtain ⟨e, he, rfl⟩ := List.mem_map.mp hb
    obtain ⟨hin, hnamed⟩ := List.mem_filter.mp he
    have hshown := (mem_namesFrom hin).mp (of_decide_eq_true hnamed)
    exact ⟨_, List.mem_map_of_mem (List.mem_filter.mpr ⟨hin, decide_eq_true hshown.1⟩), .refl _⟩
  · obtain ⟨e, he, rfl⟩ := List.mem_map.mp hb
    obtain ⟨hin, hcovers⟩ := List.mem_filter.mp he
    rcases shown_or_absorbed (of_decide_eq_true hcovers) with hshown | ⟨hsafe, hutterly⟩
    · have hnamed := (mem_namesFrom hin).mpr hshown
      exact ⟨_, List.mem_map_of_mem (List.mem_filter.mpr ⟨hin, decide_eq_true hnamed⟩), .refl _⟩
    · -- the bits of an absorbed `SAFE_NOSYNC` come with `UTTERLY_NOSYNC`
      have hmem : (⟨"UTTERLY_NOSYNC", 0x110000, true, true⟩ : FlagEntry) ∈ envFlags := by decide
      refine ⟨0x110000, List.mem_map.mpr ⟨_, List.mem_filter.mpr ⟨hmem, decide_eq_true hutterly⟩,
        rfl⟩, ?_⟩
      have hbit : ∀ e ∈ envFlags, e.name = "SAFE_NOSYNC" → Covers 0x110000 e.bit := by decide
      exact hbit e hin hsafe

/-- A word and the flags in it have the same names. -/
theorem namesFrom_containedBits (w : ℕ) : namesFrom (containedBits w) = namesFrom w := by
  rw [namesFrom_eq, namesFrom_eq]
  congr 1
  refine List.filter_congr fun entry h => ?_
  have hmem : (⟨"UTTERLY_NOSYNC", 0x110000, true, true⟩ : FlagEntry) ∈ envFlags := by decide
  have hutterly : Covers (containedBits w) 0x110000 ↔ Covers w 0x110000 := covers_containedBits hmem
  exact decide_eq_decide.mpr (and_congr (covers_containedBits h) (by rw [hutterly]))

/-- The order of names and how often each comes do not matter. -/
theorem namedBits_congr {table : List FlagEntry} {names names' : List String}
    (h : ∀ name, name ∈ names ↔ name ∈ names') :
    namedBits table names = namedBits table names' := by
  rw [namedBits, namedBits]
  congr 2
  exact List.filter_congr fun entry _ => decide_eq_decide.mpr (h _)

theorem known_congr {table : List FlagEntry} {names names' : List String}
    (h : ∀ name, name ∈ names ↔ name ∈ names') : Known table names ↔ Known table names' := by
  unfold Known
  constructor
  · exact fun hknown name hname => hknown name ((h name).mpr hname)
  · exact fun hknown name hname => hknown name ((h name).mp hname)

theorem bits_lt {table : List FlagEntry} (h : ∀ entry ∈ table, entry.bit < 2 ^ 32)
    (names : List String) : namedBits table names < 2 ^ 32 := by
  refine unionMask_lt fun b hb => ?_
  obtain ⟨e, he, rfl⟩ := List.mem_map.mp hb
  exact h e (List.mem_filter.mp he).1

/-! ### What R lets through -/

/-- Where flags are going: to `mdbx_env_open`, to `mdbx_env_set_flags` or to `mdbx_txn_begin`. -/
inductive FlagScope where
  | env
  | envRuntime
  | txn
  deriving DecidableEq

/-- A `flags` argument: `NULL`, a character vector, where `none` is `NA`, or anything else. -/
inductive FlagsArg where
  | null
  | names (flags : List (Option String))
  | other
  deriving DecidableEq

/-- The rows of `mdbx_flags()`, with their `scope`. -/
def mdbxFlags_ : List (FlagEntry × String) :=
  envFlags.map (·, "env") ++ txnFlags.map (·, "txn")

def allowedFlags : FlagScope → List String
  | .txn => (mdbxFlags_.filter fun row => row.2 = "txn" ∧ row.1.settable = true).map (·.1.name)
  | .envRuntime =>
    (mdbxFlags_.filter fun row => row.2 = "env" ∧ row.1.runtime = true).map (·.1.name)
  | .env => (mdbxFlags_.filter fun row => row.2 = "env" ∧ row.1.settable = true).map (·.1.name)

/-- `sub("^MDBX_(TXN_)?", "", name)`. -/
def bareName (name : String) : String :=
  if "MDBX_TXN_".toList.isPrefixOf name.toList then String.ofList (name.toList.drop 9)
  else if "MDBX_".toList.isPrefixOf name.toList then String.ofList (name.toList.drop 5)
  else name

/-- One rejected name, explained. -/
def flagMessage (name : String) (scope : FlagScope) (arg : String) : String :=
  let known := (mdbxFlags_.filter fun row =>
    row.2 = if scope = .txn then "txn" else "env").map (·.1.name)
  let bare := bareName name
  let detail :=
    if bare ≠ name ∧ bare ∈ known then
      "use \"" ++ bare ++ "\"; the MDBX_ prefix is not part of the name"
    else if scope ≠ .txn ∧ name = "RDONLY" then
      "use `readonly = TRUE` on mdbx_env_open() instead"
    else if scope ≠ .txn ∧ name = "NOSUBDIR" then
      "use `subdir = FALSE` on mdbx_env_open() instead"
    else if name = "NOSTICKYTHREADS" then
      "this package never sets it: it lifts libmdbx's one-transaction-per-thread " ++
        "rule, which the transaction lifecycle depends on"
    else if scope = .txn ∧ name ∈ envFlags.map FlagEntry.name then
      "that is an environment flag; set it on mdbx_env_open() or mdbx_env_set_flags()"
    else if scope = .envRuntime ∧ name ∈ known then
      "libmdbx only allows that flag to be set when the environment is opened"
    else
      "valid names are " ++
        ", ".intercalate ((allowedFlags scope).mergeSort fun a b => decide (a ≤ b))
  "`" ++ arg ++ "` contains \"" ++ name ++ "\": " ++ detail

/-- The flags without their repetitions, or the text of the refusal. -/
def checkFlags (flags : FlagsArg) (scope : FlagScope) (arg : String) :
    Except String (List String) :=
  match flags with
  | .null => .ok []
  | .other => .error ("`" ++ arg ++ "` must be a character vector of flag names, or NULL for none")
  | .names entries =>
    if none ∈ entries then
      .error ("`" ++ arg ++ "` must be a character vector of flag names, or NULL for none")
    else
      let flags := (entries.filterMap id).eraseDups
      match flags.filter (· ∉ allowedFlags scope) with
      | [] => .ok flags
      | unknown :: _ => .error (flagMessage unknown scope arg)

/-- The table that the native side looks the flags up in. -/
def FlagScope.table : FlagScope → List FlagEntry
  | .txn => txnFlags
  | _ => envFlags

/-- The bits of `RDONLY`, `NOSUBDIR` and `NOSTICKYTHREADS`. -/
def reservedBits : ℕ := 0x20000 ||| 0x4000 ||| 0x200000

theorem checkFlags_allowed {flags : FlagsArg} {scope : FlagScope} {arg : String}
    {names : List String} (h : checkFlags flags scope arg = .ok names) :
    ∀ name ∈ names, name ∈ allowedFlags scope := by
  cases flags with
  | null =>
    cases h
    simp
  | other => cases h
  | names entries =>
    rw [checkFlags] at h
    split at h
    · cases h
    · simp only at h
      split at h
      · cases h
        intro name hname
        by_contra hnot
        have hnil := ‹List.filter _ _ = []›
        rw [List.filter_eq_nil_iff] at hnil
        exact hnil name hname (decide_eq_true hnot)
      · cases h

/-- What R allows is in the native table. -/
theorem allowedFlags_table (scope : FlagScope) :
    ∀ name ∈ allowedFlags scope, ∃ entry ∈ scope.table, entry.name = name ∧
      (scope ≠ .txn → entry.bit &&& reservedBits = 0) := by
  cases scope <;> decide

theorem checkFlags_known {flags : FlagsArg} {scope : FlagScope} {arg : String}
    {names : List String} (h : checkFlags flags scope arg = .ok names) :
    Known scope.table names := by
  intro name hname
  obtain ⟨entry, hmem, hname, -⟩ := allowedFlags_table scope name (checkFlags_allowed h name hname)
  exact List.mem_map.mpr ⟨entry, hmem, hname⟩

theorem FlagScope.table_nodup (scope : FlagScope) : (scope.table.map FlagEntry.name).Nodup := by
  cases scope
  · exact envFlags_nodup
  · exact envFlags_nodup
  · exact txnFlags_nodup

/-- The environment scopes leave the bits alone that `mdbx_env_open` sets from its arguments. -/
theorem checkFlags_reserved {flags : FlagsArg} {scope : FlagScope} {arg : String}
    {names : List String} (h : checkFlags flags scope arg = .ok names) (hscope : scope ≠ .txn) :
    namedBits scope.table names &&& reservedBits = 0 := by
  refine unionMask_disjoint fun b hb => ?_
  obtain ⟨e, he, rfl⟩ := List.mem_map.mp hb
  obtain ⟨hin, hnamed⟩ := List.mem_filter.mp he
  have hallowed := checkFlags_allowed h e.name (of_decide_eq_true hnamed)
  obtain ⟨entry, hmem, hname, hbit⟩ := allowedFlags_table scope e.name hallowed
  obtain rfl := List.inj_on_of_nodup_map scope.table_nodup hmem hin hname
  exact hbit hscope

/-! ### Both directions -/

/-- What becomes of a list of environment flags: the word holds just their bits, and its names are
the flags contained in it, in table order and without repetition, among them each flag of the list
that `UTTERLY_NOSYNC` does not absorb. -/
structure NamesRoundTrip (names : List String) (w : ℕ) : Prop where
  bits : bitsFrom envFlags names = .ok w
  exact_ : ∀ i, w.testBit i = true ↔ ∃ e ∈ envFlags, e.name ∈ names ∧ e.bit.testBit i = true
  fits : w < 2 ^ 32
  back : namesFrom w = (envFlags.filter fun e =>
    Covers w e.bit ∧ ¬ (e.name = "SAFE_NOSYNC" ∧ Covers w 0x110000)).map FlagEntry.name
  once : (namesFrom w).Nodup
  kept : ∀ name ∈ names, name ∈ namesFrom w ∨
    (name = "SAFE_NOSYNC" ∧ "UTTERLY_NOSYNC" ∈ namesFrom w)
  again : ∃ w', bitsFrom envFlags (namesFrom w) = .ok w' ∧ namesFrom w' = namesFrom w

/-- What becomes of a word: just the flags contained in it stay. -/
structure BitsRoundTrip (w w' : ℕ) : Prop where
  bits : bitsFrom envFlags (namesFrom w) = .ok w'
  exact_ : ∀ i, w'.testBit i = true ↔ ∃ e ∈ envFlags, Covers w e.bit ∧ e.bit.testBit i = true
  again : bitsFrom envFlags (namesFrom w') = .ok w'

theorem namesRoundTrip {names : List String} (h : Known envFlags names) :
    NamesRoundTrip names (namedBits envFlags names) where
  bits := bitsFrom_known envFlags_nodup h
  exact_ i := by
    rw [namedBits, testBit_unionMask]
    constructor
    · rintro ⟨b, hb, hbit⟩
      obtain ⟨e, he, rfl⟩ := List.mem_map.mp hb
      obtain ⟨hin, hnamed⟩ := List.mem_filter.mp he
      exact ⟨e, hin, of_decide_eq_true hnamed, hbit⟩
    · rintro ⟨e, hin, hnamed, hbit⟩
      exact ⟨_, List.mem_map_of_mem (List.mem_filter.mpr ⟨hin, decide_eq_true hnamed⟩), hbit⟩
  fits := bits_lt (by decide) names
  back := namesFrom_eq _
  once := namesFrom_nodup _
  kept := by
    intro name hname
    obtain ⟨e, hin, rfl, -⟩ := find_known (h name hname)
    have hcovers : Covers (namedBits envFlags names) e.bit :=
      covers_unionMask (List.mem_map_of_mem (List.mem_filter.mpr ⟨hin, decide_eq_true hname⟩))
    exact (shown_or_absorbed hcovers).imp (mem_namesFrom hin).mpr id
  again := ⟨_, bitsFrom_namesFrom _, namesFrom_containedBits _⟩

theorem bitsRoundTrip (w : ℕ) : BitsRoundTrip w (containedBits w) where
  bits := bitsFrom_namesFrom w
  exact_ i := by
    rw [containedBits, testBit_unionMask]
    constructor
    · rintro ⟨b, hb, hbit⟩
      obtain ⟨e, he, rfl⟩ := List.mem_map.mp hb
      obtain ⟨hin, hcovers⟩ := List.mem_filter.mp he
      exact ⟨e, hin, of_decide_eq_true hcovers, hbit⟩
    · rintro ⟨e, hin, hcovers, hbit⟩
      exact ⟨_, List.mem_map_of_mem (List.mem_filter.mpr ⟨hin, decide_eq_true hcovers⟩), hbit⟩
  again := by
    rw [namesFrom_containedBits]
    exact bitsFrom_namesFrom w

/-- Flag names and flag bits agree, and what `check_flags` accepts the native table accepts. -/
theorem flags_agree :
    (∀ names, Known envFlags names → ∃ w, NamesRoundTrip names w) ∧
      (∀ w, ∃ w', BitsRoundTrip w w') ∧
      (∀ names names', Known envFlags names → (∀ name, name ∈ names ↔ name ∈ names') →
        bitsFrom envFlags names = bitsFrom envFlags names') ∧
      ∀ flags scope arg names, checkFlags flags scope arg = .ok names →
        ∃ w, bitsFrom scope.table names = .ok w ∧ (scope ≠ .txn → w &&& reservedBits = 0) := by
  refine ⟨fun names h => ⟨_, namesRoundTrip h⟩, fun w => ⟨_, bitsRoundTrip w⟩, ?_, ?_⟩
  · intro names names' h hsame
    rw [bitsFrom_known envFlags_nodup h, bitsFrom_known envFlags_nodup ((known_congr hsame).mp h),
      namedBits_congr hsame]
  · intro flags scope arg names h
    exact ⟨_, bitsFrom_known scope.table_nodup (checkFlags_known h), checkFlags_reserved h⟩

end Mdbx
