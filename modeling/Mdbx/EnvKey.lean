import Mdbx.ProofKit.FileTree
import Mathlib.Data.List.DropRight

/-! `env_key`: the key under which an environment is registered, and the data file that a call
addresses.  The keys of two calls agree just when their files do, as long as the last name of each
path is no link and no dots. -/

namespace Mdbx

open ProofKit

/-! ### What the key is made of -/

/-- The names of a path, without the separators at its end. -/
def unslashed (parts : List String) : List String := parts.rdropWhile (· = "")

/-- `dirname`: without the last name and the separators before it.  That of a single name is the
empty relative path, which stands for `.`. -/
def dirname (path : Path) : Path := ⟨path.absolute, unslashed (unslashed path.parts).dropLast⟩

/-- `basename`, which is empty for the root. -/
def basename (path : Path) : String := (unslashed path.parts).getLast?.getD ""

section Host

variable (t : FileTree) (cwd : Place)

/-- What a path leads to, for a host that is in `cwd`. -/
def stat (path : Path) : Option Place := t.realpath t.links (path.base cwd) path.parts

/-- `normalizePath(mustWork = FALSE)`. -/
def normalizePath (path : Path) : Path :=
  match stat t cwd path with
  | some place => ⟨true, place⟩
  | none => path

def fileExists (path : Path) : Bool := (stat t cwd path).isSome

def dirExists (path : Path) : Bool := (stat t cwd path).bind t.node = some .dir

/-- `file.path(key, name)`, as a path. -/
def Path.below (path : Path) (name : String) : Path := ⟨path.absolute, path.parts ++ [name]⟩

def envKey (path : Path) (subdir : Bool) : String :=
  let dir := normalizePath t cwd (dirname path)
  let key := filePath dir.text (basename path)
  let place := Path.below dir (basename path)
  if dirExists t cwd place = true ∨ (subdir = true ∧ fileExists t cwd place = false) then
    filePath key "mdbx.dat"
  else key

end Host

/-! ### What a call addresses -/

/-- A call of `mdbx_env_open`, made in the directory `cwd`.  Its path is not empty, and a relative
one does not start with a separator. -/
structure OpenCall where
  cwd : Place
  path : Path
  subdir : Bool
  separated : ∀ n ∈ path.parts, '/' ∉ n.toList
  relative : path.absolute = false → path.parts.headD "" ≠ ""

def OpenCall.key (c : OpenCall) (t : FileTree) : String := envKey t c.cwd c.path c.subdir

/-- Whether a place is, or is to be, the directory of an environment. -/
def DirLayout (t : FileTree) (loc : Place) (subdir : Bool) : Prop :=
  t.node loc = some .dir ∨ (t.node loc = none ∧ subdir = true)

/-- The data file of a call, once links and dots are resolved.  Separators at the end of the path
do not make another file of it. -/
def OpenCall.Addresses (c : OpenCall) (t : FileTree) (data : Place) : Prop :=
  ∃ loc, t.Leads (c.path.base c.cwd) (unslashed c.path.parts) loc ∧
    ((DirLayout t loc c.subdir ∧ t.Leads loc ["mdbx.dat"] data) ∨
      (¬ DirLayout t loc c.subdir ∧ data = loc))

/-- The directory that the path of a call is in. -/
structure OpenCall.In (c : OpenCall) (t : FileTree) (d : Place) : Prop where
  stat : stat t c.cwd (dirname c.path) = some d
  dir : t.node d = some .dir

/-- The last name of a path is a name, of no link, and the data file below it is no link and is not
in a directory below the root. -/
structure OpenCall.Plain (c : OpenCall) (t : FileTree) (d : Place) : Prop where
  name : Proper (basename c.path)
  noLink : ∀ target, t.node (d ++ [basename c.path]) ≠ some (.link target)
  below : DirLayout t (d ++ [basename c.path]) c.subdir → d ≠ [] ∧
    ∀ target, t.node (d ++ [basename c.path, "mdbx.dat"]) ≠ some (.link target)

/-- The key of a data file whose call is plain. -/
def placeKey (data : Place) : String := filePath (Place.text data.dropLast) (data.getLast?.getD "")

/-! ### The key of a plain call -/

section Plain

variable {t : FileTree} {c : OpenCall} {d data : Place}

theorem unslashed_append {p : Place} {n : String} (hn : n ≠ "") :
    unslashed (p ++ [n]) = p ++ [n] :=
  List.rdropWhile_concat_neg _ _ _ (by simpa)

/-- A place is written without separators at its end. -/
theorem unslashed_place {p : Place} (hp : ∀ n ∈ p, Proper n) : unslashed p = p := by
  rcases p.eq_nil_or_concat with rfl | ⟨p, n, rfl⟩
  · rfl
  · rw [List.concat_eq_append] at hp ⊢
    exact unslashed_append (hp n (by simp)).nonempty

/-- Separators after the name of a directory lead nowhere else. -/
theorem leads_unslashed {cur : Place} {parts : List String}
    (h : t.Leads cur (unslashed parts) d) (hd : t.node d = some .dir) : t.Leads cur parts d := by
  have hrest : ∀ rest : List String, (∀ n ∈ rest, n = "") → t.Leads d rest d := by
    intro rest
    induction rest with
    | nil => exact fun _ => .done d
    | cons n rest ih =>
      intro hempty
      exact .dot (.inl (hempty n (by simp))) (ih fun m hm => hempty m (by simp [hm]))
  rw [← List.rdropWhile_append_rtakeWhile (p := fun n => decide (n = "")) (l := parts)]
  refine h.append hd (hrest _ fun n hn => ?_)
  simpa using List.mem_rtakeWhile_imp hn

theorem OpenCall.In.key (I : c.In t d) :
    c.key t = if dirExists t c.cwd ⟨true, d ++ [basename c.path]⟩ = true ∨
        (c.subdir = true ∧ fileExists t c.cwd ⟨true, d ++ [basename c.path]⟩ = false) then
      filePath (filePath (Place.text d) (basename c.path)) "mdbx.dat"
    else filePath (Place.text d) (basename c.path) := by
  rw [OpenCall.key, envKey, normalizePath, I.stat]
  rfl

/-- The last name is looked for in the directory. -/
theorem OpenCall.In.stat_last (I : c.In t d) (hn : Proper (basename c.path))
    (hlink : ∀ target, t.node (d ++ [basename c.path]) ≠ some (.link target)) :
    Mdbx.stat t c.cwd ⟨true, d ++ [basename c.path]⟩ =
      (t.node (d ++ [basename c.path])).map fun _ => d ++ [basename c.path] := by
  show t.realpath t.links [] (d ++ [basename c.path]) = _
  rw [FileTree.realpath_through I.dir, FileTree.realpath_last hn hlink]

/-- What the key asks the host is the layout of the environment. -/
theorem OpenCall.In.layout (I : c.In t d) (hn : Proper (basename c.path))
    (hlink : ∀ target, t.node (d ++ [basename c.path]) ≠ some (.link target)) :
    (dirExists t c.cwd ⟨true, d ++ [basename c.path]⟩ = true ∨
        (c.subdir = true ∧ fileExists t c.cwd ⟨true, d ++ [basename c.path]⟩ = false)) ↔
      DirLayout t (d ++ [basename c.path]) c.subdir := by
  have hstat := I.stat_last hn hlink
  rw [dirExists, fileExists, hstat, DirLayout]
  cases hnode : t.node (d ++ [basename c.path]) with
  | none => simp
  | some x => simp [hnode]

/-- A path leads to its last name in its directory. -/
theorem OpenCall.In.leads (I : c.In t d) (hn : Proper (basename c.path))
    (hlink : ∀ target, t.node (d ++ [basename c.path]) ≠ some (.link target)) :
    t.Leads (c.path.base c.cwd) (unslashed c.path.parts) (d ++ [basename c.path]) := by
  have hparts : unslashed c.path.parts =
      (unslashed c.path.parts).dropLast ++ [basename c.path] := by
    rcases (unslashed c.path.parts).eq_nil_or_concat with hnil | ⟨front, n, hconcat⟩
    · exact absurd (by simp [basename, hnil]) hn.nonempty
    · rw [basename, hconcat]
      simp
  rw [hparts]
  have hfront : t.Leads (c.path.base c.cwd) (unslashed c.path.parts).dropLast d :=
    leads_unslashed (FileTree.realpath_leads I.stat) I.dir
  exact hfront.append I.dir (.last hn hlink)

/-- The data file of a plain call. -/
theorem OpenCall.Plain.data_eq (P : c.Plain t d) (I : c.In t d) (A : c.Addresses t data) :
    (DirLayout t (d ++ [basename c.path]) c.subdir ∧
        data = d ++ [basename c.path, "mdbx.dat"]) ∨
      (¬ DirLayout t (d ++ [basename c.path]) c.subdir ∧ data = d ++ [basename c.path]) := by
  obtain ⟨loc, hloc, hdata⟩ := A
  obtain rfl := hloc.unique (I.leads P.name P.noLink)
  rcases hdata with ⟨hlayout, hdata⟩ | hdata
  · have hdat : Proper "mdbx.dat" := ⟨by decide, by decide, by decide, by decide⟩
    have hbelow := (P.below hlayout).2
    refine .inl ⟨hlayout, ?_⟩
    have hlast : t.Leads (d ++ [basename c.path]) ["mdbx.dat"] _ :=
      .last hdat (by simpa using hbelow)
    rw [hdata.unique hlast]
    simp
  · exact .inr hdata

/-- The key of a plain call is that of its data file. -/
theorem OpenCall.Plain.key (P : c.Plain t d) (I : c.In t d) (A : c.Addresses t data) :
    c.key t = placeKey data := by
  rw [I.key]
  rcases P.data_eq I A with ⟨hlayout, rfl⟩ | ⟨hlayout, rfl⟩
  · have hsplit :
        d ++ [basename c.path, "mdbx.dat"] = (d ++ [basename c.path]) ++ ["mdbx.dat"] := by
      simp
    rw [if_pos ((I.layout P.name P.noLink).mpr hlayout), placeKey, hsplit, List.dropLast_concat,
      List.getLast?_concat, Place.text_append, Place.text, if_neg (P.below hlayout).1]
    rfl
  · rw [if_neg fun h => hlayout ((I.layout P.name P.noLink).mp h), placeKey, List.dropLast_concat,
      List.getLast?_concat]
    rfl

theorem OpenCall.Plain.proper (P : c.Plain t d) (I : c.In t d) (A : c.Addresses t data) :
    ∀ n ∈ data, Proper n := by
  have hd : ∀ n ∈ d, Proper n := FileTree.names_proper (by rw [I.dir]; simp)
  have hdat : Proper "mdbx.dat" := ⟨by decide, by decide, by decide, by decide⟩
  intro n hn
  rcases P.data_eq I A with ⟨-, rfl⟩ | ⟨-, rfl⟩
  · simp only [List.mem_append, List.mem_cons, List.not_mem_nil, or_false] at hn
    rcases hn with hn | rfl | rfl
    · exact hd n hn
    · exact P.name
    · exact hdat
  · simp only [List.mem_append, List.mem_singleton] at hn
    rcases hn with hn | rfl
    · exact hd n hn
    · exact P.name

theorem OpenCall.Plain.nonempty (P : c.Plain t d) (I : c.In t d) (A : c.Addresses t data) :
    data ≠ [] := by
  rcases P.data_eq I A with ⟨-, rfl⟩ | ⟨-, rfl⟩ <;> simp

theorem placeKey_append (p : Place) (n : String) :
    placeKey (p ++ [n]) = filePath (Place.text p) n := by
  rw [placeKey, List.dropLast_concat, List.getLast?_concat]
  rfl

/-- Different data files have different keys. -/
theorem placeKey_inj {p q : Place} (hp : ∀ n ∈ p, Proper n) (hq : ∀ n ∈ q, Proper n)
    (hp' : p ≠ []) (hq' : q ≠ []) (h : placeKey p = placeKey q) : p = q := by
  obtain ⟨p, m, rfl⟩ := p.eq_nil_or_concat.resolve_left hp'
  obtain ⟨q, n, rfl⟩ := q.eq_nil_or_concat.resolve_left hq'
  rw [List.concat_eq_append] at *
  rw [List.concat_eq_append] at *
  rw [placeKey_append, placeKey_append] at h
  obtain ⟨htext, rfl⟩ := filePath_inj (hp m (by simp)).separated (hq n (by simp)).separated h
  rw [Place.text_inj (fun k hk => hp k (by simp [hk])) (fun k hk => hq k (by simp [hk])) htext]

/-- Plain calls have equal keys just when they address one file. -/
theorem OpenCall.Plain.keys {t' : FileTree} {c' : OpenCall} {d' data' : Place} (P : c.Plain t d)
    (I : c.In t d) (A : c.Addresses t data) (P' : c'.Plain t' d') (I' : c'.In t' d')
    (A' : c'.Addresses t' data') : c.key t = c'.key t' ↔ data = data' := by
  rw [P.key I A, P'.key I' A']
  constructor
  · exact placeKey_inj (P.proper I A) (P'.proper I' A') (P.nonempty I A) (P'.nonempty I' A')
  · rintro rfl
    rfl

end Plain

/-! ### Every other call -/

section Exact

variable {t t' : FileTree} {c : OpenCall} {d data : Place}

/-- A plain call stays one while its data file does. -/
theorem OpenCall.Plain.extends (P : c.Plain t d) (I : c.In t d) (A : c.Addresses t data)
    (X : t.Extends t') (A' : c.Addresses t' data) : c.In t' d ∧ c.Plain t' d := by
  have I' : c.In t' d := by
    refine ⟨?_, X.node I.dir⟩
    have hstat := I.stat
    unfold Mdbx.stat at hstat ⊢
    rw [X.links]
    exact X.realpath hstat
  have hlink : ∀ target, t'.node (d ++ [basename c.path]) ≠ some (.link target) :=
    fun target h => P.noLink target (X.noLink h)
  refine ⟨I', P.name, hlink, fun hlayout' => ?_⟩
  by_cases hlayout : DirLayout t (d ++ [basename c.path]) c.subdir
  · exact ⟨(P.below hlayout).1, fun target h => (P.below hlayout).2 target (X.noLink h)⟩
  -- The data file was the path itself, so the path has not become a directory.
  exfalso
  obtain rfl := ((P.data_eq I A).resolve_left fun h => hlayout h.1).2
  obtain ⟨loc, hloc, ⟨-, hdata⟩ | ⟨hnot, -⟩⟩ := A'
  · obtain rfl := hloc.unique (I'.leads P.name hlink)
    have hdat : Proper "mdbx.dat" := ⟨by decide, by decide, by decide, by decide⟩
    have hfree : ∀ target,
        t'.node (d ++ [basename c.path] ++ ["mdbx.dat"]) ≠ some (.link target) := by
      intro target h
      have hdir : t.node (d ++ [basename c.path]) = some .dir :=
        t.parent (by rw [X.noLink h]; simp)
      exact hlayout (.inl hdir)
    have hsame := congrArg List.length (hdata.unique (.last hdat hfree))
    simp at hsame
  · obtain rfl := hloc.unique (I'.leads P.name hlink)
    exact hnot hlayout'

/-- The call that spells out an existing data file. -/
def spelled (data : Place) (h : ∀ n ∈ data, Proper n) : OpenCall :=
  ⟨[], ⟨true, data⟩, false, fun n hn => (h n hn).separated, by simp⟩

theorem spelled_plain {q : Place} {n : String} (hfile : t.node (q ++ [n]) = some .file)
    (h : ∀ m ∈ q ++ [n], Proper m) : (spelled (q ++ [n]) h).In t q ∧
      (spelled (q ++ [n]) h).Addresses t (q ++ [n]) ∧ (spelled (q ++ [n]) h).Plain t q := by
  have hq : t.node q = some .dir := t.parent (by rw [hfile]; simp)
  have hparts : unslashed (q ++ [n]) = q ++ [n] := unslashed_place h
  have hbase : basename (spelled (q ++ [n]) h).path = n := by
    rw [basename, spelled, hparts, List.getLast?_concat]
    rfl
  have hreal := FileTree.realpath_canonical hq t.links
  have hlink : ∀ target, t.node (q ++ [n]) ≠ some (.link target) := by simp [hfile]
  have hlayout : ¬ DirLayout t (q ++ [n]) false := by simp [DirLayout, hfile]
  refine ⟨⟨?_, hq⟩, ⟨q ++ [n], ?_, .inr ⟨hlayout, rfl⟩⟩, ⟨?_, ?_, ?_⟩⟩
  · show t.realpath t.links [] (unslashed (unslashed (q ++ [n])).dropLast) = some q
    rw [hparts, List.dropLast_concat, unslashed_place fun m hm => h m (by simp [hm]), hreal]
  · show t.Leads [] (unslashed (q ++ [n])) (q ++ [n])
    rw [hparts]
    exact (FileTree.realpath_leads hreal).append hq (.last (h n (by simp)) hlink)
  · rw [hbase]
    exact h n (by simp)
  · rw [hbase]
    exact hlink
  · rw [hbase]
    exact fun hdir => absurd hdir hlayout

/-- A call whose key is that of its existing data file is plain. -/
theorem OpenCall.In.plain_of_key (I : c.In t d) (X : t.Extends t')
    (hfile : t'.node data = some .file) (hkey : c.key t = placeKey data) : c.Plain t d := by
  have hproper : ∀ n ∈ data, Proper n := FileTree.names_proper (by rw [hfile]; simp)
  have hd : ∀ n ∈ d, Proper n := FileTree.names_proper (by rw [I.dir]; simp)
  have hbase : '/' ∉ (basename c.path).toList := by
    rw [basename]
    cases hlast : (unslashed c.path.parts).getLast? with
    | none => simp
    | some n =>
      have hmem : n ∈ c.path.parts :=
        (List.rdropWhile_prefix _ _).subset (List.mem_of_getLast? hlast)
      exact c.separated n hmem
  have hnotLink : ∀ {p target}, t'.node p = some .file ∨ t'.node p = some .dir →
      t.node p ≠ some (.link target) := by
    intro p target h hlink
    rw [X.node hlink] at h
    simp at h
  rcases data.eq_nil_or_concat with rfl | ⟨q, n, rfl⟩
  · simp [t'.root] at hfile
  rw [List.concat_eq_append] at hfile hkey hproper
  have hq : ∀ m ∈ q, Proper m := fun m hm => hproper m (by simp [hm])
  have hn := hproper n (by simp)
  rw [I.key, placeKey_append] at hkey
  split at hkey
  · -- The key names the data file in a directory.
    obtain ⟨htext, rfl⟩ := filePath_inj (by decide) hn.separated hkey
    rcases q.eq_nil_or_concat with rfl | ⟨r, m, rfl⟩
    · rw [show Place.text [] = filePath "" "" from rfl] at htext
      exact absurd (filePath_inj hbase (by simp) htext).1 (Place.text_ne_empty hd)
    rw [List.concat_eq_append] at hfile htext hq
    rw [Place.text_append] at htext
    obtain ⟨hroot, hm⟩ := filePath_inj hbase (hq m (by simp)).separated htext
    have hr : ∀ k ∈ r, Proper k := fun k hk => hq k (by simp [hk])
    have hne : d ≠ [] := by
      rintro rfl
      exact rooted_ne_slash hr hroot.symm
    rw [Place.text, if_neg hne] at hroot
    obtain rfl := rooted_inj hd hr hroot
    subst hm
    have hdir : t'.node (d ++ [basename c.path]) = some .dir := t'.parent (by rw [hfile]; simp)
    refine ⟨hq _ (by simp), fun target => hnotLink (.inr hdir), fun _ => ⟨hne, fun target => ?_⟩⟩
    exact hnotLink (.inl (by simpa using hfile))
  · -- The key names the path itself.
    obtain ⟨htext, rfl⟩ := filePath_inj hbase hn.separated hkey
    obtain rfl := Place.text_inj hd hq htext
    have hlink : ∀ target, t.node (d ++ [basename c.path]) ≠ some (.link target) :=
      fun target => hnotLink (.inl hfile)
    refine ⟨hn, hlink, fun hlayout => ?_⟩
    exact absurd ((I.layout hn hlink).mpr hlayout) ‹_›

/-- The key of a call agrees with the keys of plain calls just when their data files do, whatever
is added to the tree, and stays what it is, if and only if the call is plain. -/
theorem env_key_exact (I : c.In t d) (A : c.Addresses t data)
    (hopened : ∃ t', t.Extends t' ∧ t'.node data = some .file) :
    ((∀ t' c' d' data', t.Extends t' → OpenCall.In c' t' d' → c'.Addresses t' data' →
        c'.Plain t' d' → (c.key t = c'.key t' ↔ data = data')) ∧
      ∀ t', t.Extends t' → c.Addresses t' data → c.key t = c.key t') ↔ c.Plain t d := by
  constructor
  · rintro ⟨hkeys, -⟩
    obtain ⟨t', X, hfile⟩ := hopened
    have hproper : ∀ n ∈ data, Proper n := FileTree.names_proper (by rw [hfile]; simp)
    rcases data.eq_nil_or_concat with rfl | ⟨q, n, rfl⟩
    · simp [t'.root] at hfile
    rw [List.concat_eq_append] at *
    obtain ⟨I', A', P'⟩ := spelled_plain hfile hproper
    have hkey := (hkeys t' _ q _ X I' A' P').mpr rfl
    rw [P'.key I' A'] at hkey
    exact I.plain_of_key X hfile hkey
  · intro P
    refine ⟨fun t' c' d' data' _ I' A' P' => P.keys I A P' I' A', fun t' X A' => ?_⟩
    obtain ⟨I', P'⟩ := P.extends I A X A'
    exact (P.keys I A P' I' A').mpr rfl

end Exact

/-! ### A directory environment -/

theorem smallTree_names {p : Place} {n : String}
    (h : (if p ++ [n] ∈ [[], ["x"], ["x", "d"]] then some Node.dir
      else if p ++ [n] = ["x", "d", "mdbx.dat"] then some Node.file else none) ≠ none) :
    (p = [] ∧ n = "x") ∨ (p = ["x"] ∧ n = "d") ∨ (p = ["x", "d"] ∧ n = "mdbx.dat") := by
  have hsplit : ∀ {q m}, p ++ [n] = q ++ [m] → p = q ∧ n = m := fun heq => by
    simpa using List.append_inj' heq rfl
  split at h
  · simp only [List.mem_cons, List.not_mem_nil, or_false] at *
    rename_i hmem
    rcases hmem with heq | heq | heq
    · simp at heq
    · exact .inl (hsplit (q := []) heq)
    · exact .inr (.inl (hsplit (q := ["x"]) heq))
  · split at h
    · exact .inr (.inr (hsplit (q := ["x", "d"]) ‹_›))
    · exact absurd rfl h

/-- The directory `/x/d` with the data file of an environment in it. -/
def smallTree : FileTree where
  node p :=
    if p ∈ [[], ["x"], ["x", "d"]] then some .dir
    else if p = ["x", "d", "mdbx.dat"] then some .file else none
  links := 40
  root := rfl
  parent := by
    intro p n h
    rcases smallTree_names h with ⟨rfl, -⟩ | ⟨rfl, -⟩ | ⟨rfl, -⟩ <;> rfl
  proper := by
    intro p n h
    rcases smallTree_names h with ⟨-, rfl⟩ | ⟨-, rfl⟩ | ⟨-, rfl⟩ <;>
      exact ⟨by decide, by decide, by decide, by decide⟩

/-- The environment by its absolute path. -/
def absoluteCall : OpenCall := ⟨[], ⟨true, ["x", "d"]⟩, true, by decide, by decide⟩

/-- The environment from inside its directory. -/
def dotCall : OpenCall := ⟨["x", "d"], ⟨false, ["."]⟩, true, by decide, by decide⟩

theorem absoluteCall_addresses : absoluteCall.In smallTree ["x"] ∧
    absoluteCall.Addresses smallTree ["x", "d", "mdbx.dat"] ∧
      absoluteCall.Plain smallTree ["x"] := by
  refine ⟨⟨rfl, rfl⟩, ⟨["x", "d"], ?_, .inl ⟨.inl rfl, ?_⟩⟩, ?_⟩
  · exact FileTree.realpath_leads (rfl : smallTree.realpath 0 [] ["x", "d"] = _)
  · exact FileTree.realpath_leads (rfl : smallTree.realpath 0 ["x", "d"] ["mdbx.dat"] = _)
  · have hdir : smallTree.node ["x", "d"] = some .dir := rfl
    have hfile : smallTree.node ["x", "d", "mdbx.dat"] = some .file := rfl
    refine ⟨⟨by decide, by decide, by decide, by decide⟩, fun target h => ?_,
      fun _ => ⟨by decide, fun target h => ?_⟩⟩
    · exact absurd (hdir.symm.trans h) (by simp)
    · exact absurd (hfile.symm.trans h) (by simp)

theorem smallTree_proper : ∀ n ∈ ["x", "d"] ++ ["mdbx.dat"], Proper n :=
  FileTree.names_proper (t := smallTree) (by decide)

/-- The directory and its data file have one key. -/
theorem env_key_exact_absoluteCall :
    absoluteCall.key smallTree = (spelled _ smallTree_proper).key smallTree := by
  obtain ⟨I, A, P⟩ := absoluteCall_addresses
  obtain ⟨I', A', P'⟩ := spelled_plain (t := smallTree) rfl smallTree_proper
  exact (((env_key_exact I A ⟨smallTree, .refl smallTree, rfl⟩).mpr P).1 smallTree _ _ _
    (.refl smallTree) I' A' P').mpr rfl

/-- A separator after the name of the directory is no part of the name. -/
example : OpenCall.key ⟨[], ⟨true, ["x", "d", ""]⟩, true, by decide, by decide⟩ smallTree =
    "/x/d/mdbx.dat" := by decide +kernel

/-- The path `.` and the path of the same directory address one data file under two keys. -/
theorem dot_has_another_key :
    dotCall.In smallTree ["x", "d"] ∧ dotCall.Addresses smallTree ["x", "d", "mdbx.dat"] ∧
      absoluteCall.In smallTree ["x"] ∧
      absoluteCall.Addresses smallTree ["x", "d", "mdbx.dat"] ∧
      dotCall.key smallTree = "/x/d/./mdbx.dat" ∧ absoluteCall.key smallTree = "/x/d/mdbx.dat" := by
  refine ⟨⟨rfl, rfl⟩, ⟨["x", "d"], ?_, .inl ⟨.inl rfl, ?_⟩⟩, absoluteCall_addresses.1,
    absoluteCall_addresses.2.1, by decide +kernel, by decide +kernel⟩
  · exact FileTree.realpath_leads (rfl : smallTree.realpath 0 ["x", "d"] ["."] = _)
  · exact FileTree.realpath_leads (rfl : smallTree.realpath 0 ["x", "d"] ["mdbx.dat"] = _)

end Mdbx
