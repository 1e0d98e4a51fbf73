import Mdbx.Listing
import Mdbx.ProofKit.Utf8
import Mathlib.Data.List.DropRight

/-! Text keys and values: what `as_bytes` makes of a string and `decode_utf8` of bytes, and in which
order text keys are listed. -/

namespace Mdbx

open ProofKit

/-! ### Strings of R -/

/-- The declared encoding of a string. -/
inductive Mark where
  | unknown
  | utf8
  | latin1
  | bytes
  deriving DecidableEq

/-- No byte is above 127. -/
def Ascii (bytes : Bytes) : Prop := ∀ b ∈ bytes, b.val < 0x80

instance (bytes : Bytes) : Decidable (Ascii bytes) :=
  inferInstanceAs (Decidable (∀ b ∈ bytes, _))

/-- A string of R other than `NA`.  It holds no NUL, and one of ASCII characters is not marked. -/
@[ext]
structure RString where
  bytes : Bytes
  mark : Mark
  noNul : nul ∉ bytes
  plain : Ascii bytes → mark = .unknown
  deriving DecidableEq

/-- How a session reads bytes: those of an unmarked string by its locale, those marked as latin1,
and what it puts where they are no text. -/
structure Session where
  native : Bytes → Option (List Char)
  latin1 : Bytes → Option (List Char)
  escaped : Bytes → Bytes
  native_ascii : ∀ {bytes}, nul ∉ bytes → Ascii bytes → native bytes = Utf8.text bytes
  native_nonzero : ∀ {bytes text}, nul ∉ bytes → native bytes = some text → ∀ c ∈ text, c.toNat ≠ 0
  latin1_nonzero : ∀ {bytes text}, nul ∉ bytes → latin1 bytes = some text → ∀ c ∈ text, c.toNat ≠ 0
  escaped_nonzero : ∀ {bytes}, nul ∉ bytes → nul ∉ escaped bytes

/-- The string of some bytes, marked unless it is ASCII. -/
def RString.of (bytes : Bytes) (mark : Mark) (h : nul ∉ bytes) : RString where
  bytes := bytes
  mark := if Ascii bytes then .unknown else mark
  noNul := h
  plain hascii := if_pos hascii

@[simp] theorem RString.of_bytes (bytes : Bytes) (mark : Mark) (h : nul ∉ bytes) :
    (RString.of bytes mark h).bytes = bytes := rfl

theorem RString.of_mark (bytes : Bytes) (mark : Mark) (h : nul ∉ bytes) :
    (RString.of bytes mark h).mark = if Ascii bytes then .unknown else mark := by
  rw [RString.of]

/-- The code points that a string denotes, if it is valid in its encoding. -/
def RString.codes (S : Session) (s : RString) : Option (List Char) :=
  match s.mark with
  | .unknown => S.native s.bytes
  | .utf8 => Utf8.text s.bytes
  | .latin1 => S.latin1 s.bytes
  | .bytes => none

theorem nul_mem_encode {text : List Char} :
    nul ∈ Utf8.encode text ↔ ∃ c ∈ text, c.toNat = 0 := Utf8.zero_mem_encode rfl

theorem RString.codes_nonzero {S : Session} {s : RString} {text : List Char}
    (h : s.codes S = some text) : ∀ c ∈ text, c.toNat ≠ 0 := by
  unfold RString.codes at h
  cases hmark : s.mark with
  | unknown => exact S.native_nonzero s.noNul (by simpa [hmark] using h)
  | latin1 => exact S.latin1_nonzero s.noNul (by simpa [hmark] using h)
  | bytes => simp [hmark] at h
  | utf8 =>
    have hbytes : Utf8.encode text = s.bytes := Utf8.text_eq_some.mp (by simpa [hmark] using h)
    intro c hc hzero
    exact s.noNul (hbytes ▸ nul_mem_encode.mpr ⟨c, hc, hzero⟩)

section Strings

variable (S : Session)

/-- The bytes that a string is translated to. -/
def RString.translated (s : RString) : Bytes :=
  match s.codes S with
  | some text => Utf8.encode text
  | none => S.escaped s.bytes

theorem RString.translated_noNul (s : RString) : nul ∉ s.translated S := by
  rw [translated]
  cases h : s.codes S with
  | none => exact S.escaped_nonzero s.noNul
  | some text =>
    intro hmem
    obtain ⟨c, hc, hzero⟩ := nul_mem_encode.mp hmem
    exact codes_nonzero h c hc hzero

/-- `enc2utf8`. -/
def enc2utf8 (s : RString) : RString :=
  if Ascii s.bytes ∨ s.mark = .utf8 ∨ s.mark = .bytes then s
  else .of (s.translated S) .utf8 (s.translated_noNul S)

/-- `charToRaw`. -/
def charToRaw (s : RString) : Bytes := s.bytes

/-- `rawToChar`: trailing NULs are dropped, and an inner one is an error. -/
def rawToChar (bytes : Bytes) : Except String RString :=
  let kept := bytes.rdropWhile (· = nul)
  if h : nul ∉ kept then .ok (.of kept .unknown h)
  else .error "embedded nul in string"

def validUtf8 (s : RString) : Prop := Utf8.WellFormed s.bytes

instance (s : RString) : Decidable (validUtf8 s) := inferInstanceAs (Decidable (Utf8.WellFormed _))

/-- `Encoding(text) <- "UTF-8"`. -/
def RString.markUtf8 (s : RString) : RString := .of s.bytes .utf8 s.noNul

/-! ### The functions of the package -/

/-- A key or value argument: a raw vector, a character vector, where `none` is `NA`, or anything
else. -/
inductive BytesArg where
  | raw (bytes : Bytes)
  | strings (strings : List (Option RString))
  | other
  deriving DecidableEq

def asBytes (x : BytesArg) (arg : String) : Except String Bytes :=
  match x with
  | .raw bytes => .ok bytes
  | .strings [some s] => .ok (charToRaw (enc2utf8 S s))
  | _ => .error ("`" ++ arg ++ "` must be a raw vector or a single string; use serialize() for " ++
      "an arbitrary R object")

def decodeUtf8 (bytes : Bytes) : Except String RString := do
  if nul ∈ bytes then
    .error ("value is not text: it contains a NUL byte. Read it with as = \"raw\", and " ++
      "unserialize() it if it was written with serialize()")
  else
    let text ← rawToChar bytes
    if ¬ validUtf8 text then .error "value is not valid UTF-8 text; read it with as = \"raw\""
    else .ok text.markUtf8

/-- `decode_many` for text. -/
def decodeMany : List Bytes → Except String (List RString)
  | [] => .ok []
  | bytes :: rest => do
    let s ← decodeUtf8 bytes
    let rest ← decodeMany rest
    .ok (s :: rest)

end Strings

/-! ### What they compute -/

section Facts

variable {S : Session} {s : RString} {bytes : Bytes}

/-- The string of some bytes as UTF-8 denotes what they spell. -/
theorem RString.codes_of (h : nul ∉ bytes) :
    (RString.of bytes .utf8 h).codes S = Utf8.text bytes := by
  by_cases hascii : Ascii bytes
  · simp only [codes, of, if_pos hascii]
    exact S.native_ascii h hascii
  · simp only [codes, of, if_neg hascii]

/-- A string that denotes code points and is returned as it is by `enc2utf8` is in UTF-8. -/
theorem RString.bytes_kept {text : List Char} (h : s.codes S = some text)
    (hkept : Ascii s.bytes ∨ s.mark = .utf8 ∨ s.mark = .bytes) :
    Utf8.encode text = s.bytes ∧ s.mark = if Ascii s.bytes then .unknown else .utf8 := by
  by_cases hascii : Ascii s.bytes
  · have hmark := s.plain hascii
    rw [codes, hmark] at h
    rw [if_pos hascii]
    exact ⟨Utf8.text_eq_some.mp ((S.native_ascii s.noNul hascii).symm.trans h), hmark⟩
  rw [if_neg hascii]
  rcases hkept with hkept | hmark | hmark
  · exact absurd hkept hascii
  · rw [codes, hmark] at h
    exact ⟨Utf8.text_eq_some.mp h, hmark⟩
  · rw [codes, hmark] at h
    cases h

/-- `enc2utf8` of a string that denotes code points is the string of their bytes. -/
theorem enc2utf8_valid {text : List Char} (h : s.codes S = some text) :
    ∃ hnul, enc2utf8 S s = .of (Utf8.encode text) .utf8 hnul := by
  have hnul : nul ∉ Utf8.encode text := by
    intro hmem
    obtain ⟨c, hc, hzero⟩ := nul_mem_encode.mp hmem
    exact RString.codes_nonzero h c hc hzero
  refine ⟨hnul, ?_⟩
  by_cases hkept : Ascii s.bytes ∨ s.mark = .utf8 ∨ s.mark = .bytes
  · obtain ⟨hbytes, hmark⟩ := RString.bytes_kept h hkept
    rw [enc2utf8, if_pos hkept]
    refine RString.ext (hbytes.symm.trans (RString.of_bytes _ _ _).symm) ?_
    rw [RString.of_mark, hbytes, hmark]
  · have htranslated : s.translated S = Utf8.encode text := by
      rw [RString.translated, h]
    rw [enc2utf8, if_neg hkept]
    refine RString.ext ?_ ?_
    · rw [RString.of_bytes, RString.of_bytes, htranslated]
    · rw [RString.of_mark, RString.of_mark, htranslated]

theorem rawToChar_noNul (h : nul ∉ bytes) : rawToChar bytes = .ok (.of bytes .unknown h) := by
  have hkept : bytes.rdropWhile (· = nul) = bytes := by
    refine List.rdropWhile_eq_self_iff.mpr fun hne => ?_
    intro hlast
    exact h (of_decide_eq_true hlast ▸ List.getLast_mem hne)
  unfold rawToChar
  simp only [hkept]
  rw [dif_pos h]

/-- `decode_utf8` succeeds on well-formed bytes without a NUL, with the string of these bytes. -/
theorem decodeUtf8_ok : decodeUtf8 bytes = .ok s ↔
    ∃ h : nul ∉ bytes, Utf8.WellFormed bytes ∧ s = .of bytes .utf8 h := by
  unfold decodeUtf8
  by_cases hnul : nul ∈ bytes
  · rw [if_pos hnul]
    constructor
    · intro h
      cases h
    · rintro ⟨h, -, -⟩
      exact absurd hnul h
  rw [if_neg hnul, rawToChar_noNul hnul]
  show (if ¬ Utf8.WellFormed bytes then _ else
      Except.ok (RString.of bytes .unknown hnul).markUtf8) =
    _ ↔ _
  by_cases hwell : Utf8.WellFormed bytes
  · rw [if_neg (not_not.mpr hwell)]
    constructor
    · intro h
      exact ⟨hnul, hwell, (Except.ok.inj h).symm⟩
    · rintro ⟨_, -, rfl⟩
      rfl
  · rw [if_pos hwell]
    constructor
    · intro h
      cases h
    · rintro ⟨-, h, -⟩
      exact absurd h hwell

/-- The bytes of a string of well-formed bytes are these again. -/
theorem asBytes_decoded (h : decodeUtf8 bytes = .ok s) (S : Session) (arg : String) :
    asBytes S (.strings [some s]) arg = .ok bytes := by
  obtain ⟨hnul, hwell, rfl⟩ := decodeUtf8_ok.mp h
  obtain ⟨text, rfl⟩ := Utf8.wellFormed_iff.mp hwell
  have hcodes : (RString.of (Utf8.encode text) .utf8 hnul).codes S = some text :=
    (RString.codes_of hnul).trans (Utf8.text_encode text)
  obtain ⟨hnul', henc⟩ := enc2utf8_valid hcodes
  rw [asBytes, henc]
  rfl

theorem asBytes_valid {text : List Char} (h : s.codes S = some text) (arg : String) :
    asBytes S (.strings [some s]) arg = .ok (Utf8.encode text) := by
  obtain ⟨hnul, henc⟩ := enc2utf8_valid h
  rw [asBytes, henc]
  rfl

theorem decodeUtf8_encode {text : List Char} (h : s.codes S = some text) :
    decodeUtf8 (Utf8.encode text) = .ok (enc2utf8 S s) := by
  obtain ⟨hnul, henc⟩ := enc2utf8_valid h
  exact decodeUtf8_ok.mpr ⟨hnul, Utf8.wellFormed_iff.mpr ⟨text, rfl⟩, henc⟩

theorem enc2utf8_codes {text : List Char} (h : s.codes S = some text) (S' : Session) :
    (enc2utf8 S s).codes S' = some text := by
  obtain ⟨hnul, henc⟩ := enc2utf8_valid h
  rw [henc]
  exact (RString.codes_of hnul).trans (Utf8.text_encode text)

/-- What a decoded list denotes. -/
theorem decodeMany_ok {items : List Bytes} {texts : List RString} (S : Session) :
    decodeMany items = .ok texts →
      ∃ codes : List (List Char), texts.map (RString.codes S) = codes.map some ∧
        items = codes.map Utf8.encode := by
  induction items generalizing texts with
  | nil =>
    intro h
    cases h
    exact ⟨[], rfl, rfl⟩
  | cons bytes rest ih =>
    intro h
    cases hs : decodeUtf8 bytes with
    | error e =>
      rw [decodeMany, hs] at h
      cases h
    | ok s =>
      cases hrest : decodeMany rest with
      | error e =>
        rw [decodeMany, hs, hrest] at h
        cases h
      | ok rests =>
        rw [decodeMany, hs, hrest] at h
        cases h
        obtain ⟨hnul, hwell, rfl⟩ := decodeUtf8_ok.mp hs
        obtain ⟨text, rfl⟩ := Utf8.wellFormed_iff.mp hwell
        obtain ⟨codes, hcodes, rfl⟩ := ih hrest
        refine ⟨text :: codes, ?_, rfl⟩
        rw [List.map_cons, List.map_cons, hcodes, RString.codes_of, Utf8.text_encode]

theorem decodeMany_text {items : List Bytes}
    (h : ∀ b ∈ items, nul ∉ b ∧ Utf8.WellFormed b) : ∃ texts, decodeMany items = .ok texts := by
  induction items with
  | nil => exact ⟨[], rfl⟩
  | cons bytes rest ih =>
    obtain ⟨hnul, hwell⟩ := h bytes List.mem_cons_self
    obtain ⟨texts, htexts⟩ := ih fun b hb => h b (List.mem_cons_of_mem _ hb)
    refine ⟨.of bytes .utf8 hnul :: texts, ?_⟩
    rw [decodeMany, decodeUtf8_ok.mpr ⟨hnul, hwell, rfl⟩, htexts]
    rfl

end Facts

/-! ### The order of text keys -/

section Order

variable {σ : Type} {L : Platform σ} {T : Tables σ Bytes} {w w' : World σ}

/-- Whether `b` comes after `a` in a listing. -/
def Follows {α : Type} [LT α] (reverse : Bool) (a b : α) : Prop :=
  if reverse then b < a else a < b

theorem follows_encode {reverse : Bool} {cs ds : List Char} :
    Follows reverse (Utf8.encode cs) (Utf8.encode ds) ↔ Follows reverse cs ds := by
  cases reverse with
  | false => exact Utf8.encode_lt_iff
  | true => exact Utf8.encode_lt_iff

theorem wanted_sublist {α : Type} (asked : Option ℕ) (l : List α) :
    (wanted asked l).Sublist l := by
  cases asked with
  | none => exact List.Sublist.refl l
  | some n => exact List.take_sublist n l

/-- Where libmdbx compares keys byte by byte, `mdbx_keys` lists them so. -/
theorem mdbxKeys_follow (C : L.Cursors T) (hrank : T.rank = id) (h : Reachable L w) {txn : Sexp}
    {limit : NumberArg} {db : DbArg} {start : Option Bytes} {reverse : Bool} {ks : List Bytes}
    (hr : (mdbxKeys L txn limit db start reverse).run w = (.ok ks, w')) :
    ks.Pairwise (Follows reverse) := by
  obtain ⟨w₀, names, t, p, dbi, w₂, asked, -, -, -, rfl⟩ := mdbxKeys_returned C h hr
  refine List.pairwise_map.mpr (List.Pairwise.sublist (wanted_sublist _ _) ?_)
  refine ((T.table w₂.lib p dbi).listing_pairwise reverse (start.map T.rank)).imp ?_
  rintro a b ⟨hle, hlt⟩
  rw [hrank] at hle hlt
  cases reverse with
  | false => exact lt_of_not_ge (of_decide_eq_false hlt)
  | true => exact lt_of_not_ge (of_decide_eq_false hlt)

end Order

/-- What text keys and values do in a session. -/
structure TextKeys (S : Session) : Prop where
  /-- A string that denotes code points is stored as their bytes, and read back in UTF-8. -/
  stored : ∀ {s text}, s.codes S = some text → ∀ arg,
    asBytes S (.strings [some s]) arg = .ok (Utf8.encode text) ∧
      decodeUtf8 (Utf8.encode text) = .ok (enc2utf8 S s) ∧
      ∀ S', (enc2utf8 S s).codes S' = some text
  /-- What is read as text is well-formed and without a NUL, and is stored again as it was. -/
  read : ∀ bytes, ((∃ s, decodeUtf8 bytes = .ok s) ↔ nul ∉ bytes ∧ Utf8.WellFormed bytes) ∧
    ∀ s, decodeUtf8 bytes = .ok s → ∀ arg, asBytes S (.strings [some s]) arg = .ok bytes
  /-- Strings are one key if they denote the same code points, also those of two sessions. -/
  same : ∀ S' {s s' text text'}, s.codes S = some text → s'.codes S' = some text' → ∀ arg,
    (asBytes S (.strings [some s]) arg = asBytes S' (.strings [some s']) arg ↔ text = text')
  /-- Bytes are in the order of the code points that they spell. -/
  ordered : ∀ text text', Utf8.encode text < Utf8.encode text' ↔ text < text'
  /-- Keys that are all text are listed in the order of their code points. -/
  listed : ∀ {σ : Type} {L : Platform σ} {T : Tables σ Bytes} {w w' : World σ}, L.Cursors T →
    T.rank = id → Reachable L w → ∀ {txn limit db start reverse ks},
    (mdbxKeys L txn limit db start reverse).run w = (.ok ks, w') →
    (∀ k ∈ ks, nul ∉ k ∧ Utf8.WellFormed k) →
    ∃ texts, ∃ codes : List (List Char), decodeMany ks = .ok texts ∧
      texts.map (RString.codes S) = codes.map some ∧ ks = codes.map Utf8.encode ∧
      codes.Pairwise (Follows reverse)

/-- Text keys and values round-trip in every session, and are listed in the order of their code
points. -/
theorem text_keys (S : Session) : TextKeys S where
  stored := fun h arg => ⟨asBytes_valid h arg, decodeUtf8_encode h, enc2utf8_codes h⟩
  read bytes := by
    refine ⟨?_, fun s h arg => asBytes_decoded h S arg⟩
    constructor
    · rintro ⟨s, h⟩
      obtain ⟨hnul, hwell, -⟩ := decodeUtf8_ok.mp h
      exact ⟨hnul, hwell⟩
    · rintro ⟨hnul, hwell⟩
      exact ⟨_, decodeUtf8_ok.mpr ⟨hnul, hwell, rfl⟩⟩
  same S' s s' text text' h h' arg := by
    rw [asBytes_valid h arg, asBytes_valid h' arg]
    constructor
    · intro heq
      exact Utf8.encode_injective (Except.ok.inj heq)
    · rintro rfl
      rfl
  ordered text text' := Utf8.encode_lt_iff
  listed := by
    intro σ L T w w' C hrank h txn limit db start reverse ks hr htext
    obtain ⟨texts, htexts⟩ := decodeMany_text htext
    obtain ⟨codes, hcodes, hks⟩ := decodeMany_ok S htexts
    refine ⟨texts, codes, htexts, hcodes, hks, ?_⟩
    have hfollow := mdbxKeys_follow C hrank h hr
    rw [hks, List.pairwise_map] at hfollow
    exact hfollow.imp follows_encode.mp

/-- A session in a UTF-8 locale. -/
def utf8Session : Session where
  native := Utf8.text
  latin1 bytes := some (bytes.map fun b => Char.ofNat b.val)
  escaped := id
  native_ascii := fun _ _ => rfl
  native_nonzero := by
    intro bytes text hnul h c hc hzero
    exact hnul (Utf8.text_eq_some.mp h ▸ nul_mem_encode.mpr ⟨c, hc, hzero⟩)
  latin1_nonzero := by
    intro bytes text hnul h c hc hzero
    obtain rfl := Option.some.inj h
    obtain ⟨b, hb, rfl⟩ := List.mem_map.mp hc
    rw [Utf8.toNat_ofNat (Or.inl (b.isLt.trans (by decide)))] at hzero
    have hnone : b = nul := Fin.ext hzero
    exact hnul (hnone ▸ hb)
  escaped_nonzero := fun h => h

/-- The word of the tests, with its last letter as latin1 has it. -/
def latin1Word : RString :=
  .of ([0x63, 0x61, 0x66, 0xE9].map Utf8.toByte) .latin1 (by decide)

/-- The key of that word, and the keys of the library with two records. -/
theorem text_keys_latin1 :
    (asBytes utf8Session (.strings [some latin1Word]) "key" =
        .ok (Utf8.encode "café".toList) ∧
      decodeUtf8 (Utf8.encode "café".toList) = .ok (enc2utf8 utf8Session latin1Word) ∧
      ∀ S', (enc2utf8 utf8Session latin1Word).codes S' = some "café".toList) ∧
    ∃ texts, ∃ codes : List (List Char), decodeMany [[97], [98]] = .ok texts ∧
      texts.map (RString.codes utf8Session) = codes.map some ∧
      [[97], [98]] = codes.map Utf8.encode ∧ codes.Pairwise (Follows false) := by
  refine ⟨(text_keys utf8Session).stored (by decide +kernel) "key", ?_⟩
  have hrun : (mdbxKeys shelf (.txn 1) (.number (.inf false)) .null none false).run shelfOpened =
      (.ok [[97], [98]], ((mdbxKeys shelf (.txn 1) (.number (.inf false)) .null none false).run
        shelfOpened).2) := Prod.ext (by decide +kernel) rfl
  exact (text_keys utf8Session).listed shelf_cursors rfl shelfOpened_reachable hrun
    (by decide +kernel)

end Mdbx
