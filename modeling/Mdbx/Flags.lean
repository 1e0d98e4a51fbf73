import Mdbx.Handles

/-! The flag vocabulary: the names of environment and transaction flags and their bits. -/

namespace Mdbx

/-- A `flag_entry`: `settable` at open, `runtime` by `mdbx_env_set_flags`. -/
structure FlagEntry where
  name : String
  bit : ℕ
  settable : Bool
  runtime : Bool
  deriving DecidableEq

def envFlags : List FlagEntry :=
  [⟨"UTTERLY_NOSYNC", 0x110000, true, true⟩, ⟨"SAFE_NOSYNC", 0x10000, true, true⟩,
   ⟨"NOMETASYNC", 0x40000, true, true⟩, ⟨"WRITEMAP", 0x80000, true, false⟩,
   ⟨"LIFORECLAIM", 0x4000000, true, true⟩, ⟨"NORDAHEAD", 0x800000, true, false⟩,
   ⟨"NOMEMINIT", 0x1000000, true, true⟩, ⟨"EXCLUSIVE", 0x400000, true, false⟩,
   ⟨"ACCEDE", 0x40000000, true, false⟩, ⟨"VALIDATION", 0x2000, true, false⟩,
   ⟨"RDONLY", 0x20000, false, false⟩, ⟨"NOSUBDIR", 0x4000, false, false⟩,
   ⟨"NOSTICKYTHREADS", 0x200000, false, false⟩]

def txnFlags : List FlagEntry :=
  [⟨"NOSYNC", 0x10000, true, false⟩, ⟨"NOMETASYNC", 0x40000, true, false⟩,
   ⟨"TRY", 0x10000000, true, false⟩]

/-- The bits of the named flags together, or the first name that the table lacks. -/
def bitsFrom (table : List FlagEntry) : List String → Except String ℕ
  | [] => .ok 0
  | name :: rest =>
    match table.find? fun entry => entry.name == name with
    | none => .error name
    | some entry => (bitsFrom table rest).map (entry.bit ||| ·)

/-- The walk of `names_from` over a table; `utterly` records that `UTTERLY_NOSYNC` was reported. -/
def namesFromTable (bits : ℕ) : Bool → List FlagEntry → List String
  | _, [] => []
  | utterly, entry :: rest =>
    if bits &&& entry.bit ≠ entry.bit then namesFromTable bits utterly rest
    else if entry.name = "UTTERLY_NOSYNC" then entry.name :: namesFromTable bits true rest
    else if utterly = true ∧ entry.name = "SAFE_NOSYNC" then namesFromTable bits utterly rest
    else entry.name :: namesFromTable bits utterly rest

/-- The names of the flags with all their bits in `bits`; `UTTERLY_NOSYNC` hides the `SAFE_NOSYNC`
that it contains. -/
def namesFrom (bits : ℕ) : List String := namesFromTable bits false envFlags

variable {σ : Type}

def flagsFromNames (table : List FlagEntry) (names : List String) : Pkg σ ℕ :=
  match bitsFrom table names with
  | .ok bits => pure bits
  | .error name => stop (.unknownFlag name)

def envFlagsFromNames (names : List String) : Pkg σ ℕ := flagsFromNames envFlags names

def txnFlagsFromNames (names : List String) : Pkg σ ℕ := flagsFromNames txnFlags names

end Mdbx
