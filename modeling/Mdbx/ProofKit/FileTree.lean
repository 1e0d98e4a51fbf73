import Mathlib.Data.List.Basic
import Mathlib.Data.List.Induction
import Mathlib.Tactic.Common

/-! Trees of directories, files and symbolic links: where a path leads, how a host follows it with a
bound on the links, and the text of a place.  A path is what its separators split it into. -/

namespace Mdbx.ProofKit

/-- A path as it is written. -/
structure Path where
  absolute : Bool
  parts : List String
  deriving DecidableEq

/-- The names from the root down. -/
abbrev Place := List String

inductive Node where
  | dir
  | file
  | link (target : Path)
  deriving DecidableEq

/-- A name that a directory can hold. -/
structure Proper (n : String) : Prop where
  nonempty : n ≠ ""
  notDot : n ≠ "."
  notDots : n ≠ ".."
  separated : '/' ∉ n.toList

/-- What is where; a host follows at most `links` links on one path. -/
structure FileTree where
  node : Place → Option Node
  links : ℕ
  root : node [] = some .dir
  parent : ∀ {p n}, node (p ++ [n]) ≠ none → node p = some .dir
  proper : ∀ {p n}, node (p ++ [n]) ≠ none → Proper n

/-- Where a path starts. -/
def Path.base (p : Path) (cwd : Place) : Place := if p.absolute then [] else cwd

namespace FileTree

variable (t : FileTree)

/-! ### Following a path -/

/-- `parts` leads from the directory `cur` to a place; all of them but the last are there. -/
inductive Leads : Place → List String → Place → Prop where
  | done (cur : Place) : Leads cur [] cur
  | dot {cur loc : Place} {n : String} {rest : List String} (hn : n = "" ∨ n = ".")
      (h : Leads cur rest loc) : Leads cur (n :: rest) loc
  | up {cur loc : Place} {rest : List String} (h : Leads cur.dropLast rest loc) :
    Leads cur (".." :: rest) loc
  | enter {cur loc : Place} {n : String} {rest : List String} (hn : Proper n)
      (hnode : t.node (cur ++ [n]) = some .dir) (h : Leads (cur ++ [n]) rest loc) :
    Leads cur (n :: rest) loc
  | follow {cur loc : Place} {n : String} {rest : List String} {target : Path} (hn : Proper n)
      (hnode : t.node (cur ++ [n]) = some (.link target))
      (h : Leads (target.base cur) (target.parts ++ rest) loc) : Leads cur (n :: rest) loc
  | file {cur : Place} {n : String} (hn : Proper n) (hnode : t.node (cur ++ [n]) = some .file) :
    Leads cur [n] (cur ++ [n])
  | absent {cur : Place} {n : String} (hn : Proper n) (hnode : t.node (cur ++ [n]) = none) :
    Leads cur [n] (cur ++ [n])

/-- The place that `parts` leads to if there is something; `follow` takes a link from there on. -/
def walk (follow : Place → List String → Option Place) : List String → Place → Option Place
  | [], cur => some cur
  | n :: rest, cur =>
    if n = "" ∨ n = "." then walk follow rest cur
    else if n = ".." then walk follow rest cur.dropLast
    else match t.node (cur ++ [n]) with
      | some .dir => walk follow rest (cur ++ [n])
      | some (.link target) => follow (target.base cur) (target.parts ++ rest)
      | some .file => if rest = [] then some (cur ++ [n]) else none
      | none => none

/-- The walk that follows so many links at most. -/
def realpath : ℕ → Place → List String → Option Place
  | 0, cur, parts => t.walk (fun _ _ => none) parts cur
  | links + 1, cur, parts => t.walk (realpath links) parts cur

variable {t} {cur loc : Place} {n : String} {parts rest : List String}

theorem walk_leads {follow : Place → List String → Option Place}
    (hfollow : ∀ {cur parts loc}, follow cur parts = some loc → t.Leads cur parts loc) :
    ∀ {cur : Place}, t.walk follow parts cur = some loc → t.Leads cur parts loc := by
  induction parts with
  | nil =>
    intro cur h
    obtain rfl := Option.some.inj h
    exact .done cur
  | cons n rest ih =>
    intro cur h
    rw [walk] at h
    split at h
    · exact .dot ‹_› (ih h)
    · split at h
      · subst ‹n = ".."›
        exact .up (ih h)
      · split at h
        · rename_i hnode
          exact .enter (t.proper (by rw [hnode]; simp)) hnode (ih h)
        · rename_i target hnode
          exact .follow (t.proper (by rw [hnode]; simp)) hnode (hfollow h)
        · rename_i hnode
          split at h
          · subst ‹rest = []›
            obtain rfl := Option.some.inj h
            exact .file (t.proper (by rw [hnode]; simp)) hnode
          · cases h
        · cases h

/-- A host that follows a path gets where it leads. -/
theorem realpath_leads {links : ℕ} (h : t.realpath links cur parts = some loc) :
    t.Leads cur parts loc := by
  induction links generalizing cur parts loc with
  | zero => exact walk_leads (by simp) h
  | succ links ih => exact walk_leads (fun h' => ih h') h

/-- A path leads to one place. -/
theorem Leads.unique {loc' : Place} (h : t.Leads cur parts loc) (h' : t.Leads cur parts loc') :
    loc = loc' := by
  induction h with
  | done cur =>
    cases h'
    rfl
  | dot hn h ih =>
    cases h' with
    | dot _ h' => exact ih h'
    | up h' => simp at hn
    | enter hp _ _ | follow hp _ _ | file hp _ | absent hp _ =>
      exact absurd hn (by simp [hp.nonempty, hp.notDot])
  | up h ih =>
    cases h' with
    | dot hn _ => simp at hn
    | up h' => exact ih h'
    | enter hp _ _ | follow hp _ _ | file hp _ | absent hp _ => exact absurd rfl hp.notDots
  | enter hn hnode h ih =>
    cases h' with
    | dot hn' _ => exact absurd hn' (by simp [hn.nonempty, hn.notDot])
    | up _ => exact absurd rfl hn.notDots
    | enter _ _ h' => exact ih h'
    | follow _ hnode' _ | file _ hnode' | absent _ hnode' => simp [hnode] at hnode'
  | follow hn hnode h ih =>
    cases h' with
    | dot hn' _ => exact absurd hn' (by simp [hn.nonempty, hn.notDot])
    | up _ => exact absurd rfl hn.notDots
    | follow _ hnode' h' =>
      rw [hnode] at hnode'
      cases hnode'
      exact ih h'
    | enter _ hnode' _ | file _ hnode' | absent _ hnode' => simp [hnode] at hnode'
  | file hn hnode =>
    cases h' with
    | dot hn' _ => exact absurd hn' (by simp [hn.nonempty, hn.notDot])
    | up _ => exact absurd rfl hn.notDots
    | file _ _ => rfl
    | enter _ hnode' _ | follow _ hnode' _ | absent _ hnode' => simp [hnode] at hnode'
  | absent hn hnode =>
    cases h' with
    | dot hn' _ => exact absurd hn' (by simp [hn.nonempty, hn.notDot])
    | up _ => exact absurd rfl hn.notDots
    | absent _ _ => rfl
    | enter _ hnode' _ | follow _ hnode' _ | file _ hnode' => simp [hnode] at hnode'

/-- A path goes on from the directory that its first parts lead to. -/
theorem Leads.append {d : Place} (h : t.Leads cur parts d) (hd : t.node d = some .dir)
    (h' : t.Leads d rest loc) : t.Leads cur (parts ++ rest) loc := by
  induction h with
  | done cur => exact h'
  | dot hn _ ih => exact .dot hn (ih hd h')
  | up _ ih => exact .up (ih hd h')
  | enter hn hnode _ ih => exact .enter hn hnode (ih hd h')
  | follow hn hnode _ ih =>
    have hrest := ih hd h'
    rw [List.append_assoc] at hrest
    exact .follow hn hnode hrest
  | file _ hnode => simp [hnode] at hd
  | absent _ hnode => simp [hnode] at hd

/-- What is above something is a directory. -/
theorem node_above {p q : Place} (h : t.node (p ++ q) ≠ none) (hq : q ≠ []) :
    t.node p = some .dir := by
  induction q using List.reverseRecOn with
  | nil => exact absurd rfl hq
  | append_singleton q n ih =>
    rw [← List.append_assoc] at h
    have hparent := t.parent h
    rcases q.eq_nil_or_concat with rfl | ⟨q', m, rfl⟩
    · simpa using hparent
    · exact ih (by rw [hparent]; simp) (by simp)

/-- The names on the way to something are proper. -/
theorem names_proper {p : Place} (h : t.node p ≠ none) : ∀ n ∈ p, Proper n := by
  induction p using List.reverseRecOn with
  | nil => simp
  | append_singleton p n ih =>
    have hdir := t.parent h
    intro m hm
    rcases List.mem_append.mp hm with hm | hm
    · exact ih (by rw [hdir]; simp) m hm
    · rw [List.mem_singleton.mp hm]
      exact t.proper h

/-- A walk goes through directories as they stand. -/
theorem walk_through {follow : Place → List String → Option Place} {q : Place} :
    ∀ {cur : Place}, t.node (cur ++ q) = some .dir →
      t.walk follow (q ++ rest) cur = t.walk follow rest (cur ++ q) := by
  induction q with
  | nil =>
    intro cur _
    rw [List.nil_append, List.append_nil]
  | cons n q ih =>
    intro cur h
    have hsplit : cur ++ n :: q = (cur ++ [n]) ++ q := by simp
    have hdir : t.node (cur ++ [n]) = some .dir := by
      rcases eq_or_ne q [] with rfl | hq
      · exact h
      · exact node_above (by rw [← hsplit, h]; simp) hq
    have hn : Proper n := t.proper (by rw [hdir]; simp)
    rw [hsplit] at h
    rw [List.cons_append, walk, if_neg (by simp [hn.nonempty, hn.notDot]), if_neg hn.notDots,
      hdir, hsplit]
    exact ih h

/-- A path that spells out a directory goes on from it. -/
theorem realpath_through {q : Place} (h : t.node q = some .dir) (links : ℕ) :
    t.realpath links [] (q ++ rest) = t.realpath links q rest := by
  have hroot : t.node (([] : Place) ++ q) = some .dir := h
  cases links <;> exact walk_through hroot

/-- The place of a directory leads to it. -/
theorem realpath_canonical {q : Place} (h : t.node q = some .dir) (links : ℕ) :
    t.realpath links [] q = some q := by
  have hthrough : t.realpath links [] (q ++ []) = t.realpath links q [] :=
    realpath_through h links
  rw [List.append_nil] at hthrough
  rw [hthrough]
  cases links <;> rfl

/-- The last name of a path that is no link. -/
theorem realpath_last {d : Place} {n : String} (hn : Proper n)
    (hlink : ∀ target, t.node (d ++ [n]) ≠ some (.link target)) (links : ℕ) :
    t.realpath links d [n] = (t.node (d ++ [n])).map fun _ => d ++ [n] := by
  have hwalk : ∀ follow, t.walk follow [n] d = (t.node (d ++ [n])).map fun _ => d ++ [n] := by
    intro follow
    rw [walk, if_neg (by simp [hn.nonempty, hn.notDot]), if_neg hn.notDots]
    cases hnode : t.node (d ++ [n]) with
    | none => rfl
    | some x =>
      cases x with
      | dir => rfl
      | file => rfl
      | link target => exact absurd hnode (hlink target)
  cases links <;> exact hwalk _

/-- A name that is no link leads to its own place. -/
theorem Leads.last {d : Place} {n : String} (hn : Proper n)
    (hlink : ∀ target, t.node (d ++ [n]) ≠ some (.link target)) : t.Leads d [n] (d ++ [n]) := by
  cases hnode : t.node (d ++ [n]) with
  | none => exact .absent hn hnode
  | some x =>
    cases x with
    | dir => exact .enter hn hnode (.done _)
    | file => exact .file hn hnode
    | link target => exact absurd hnode (hlink target)

/-- Something has been added to a tree, but no link. -/
structure Extends (t t' : FileTree) : Prop where
  links : t'.links = t.links
  node : ∀ {p x}, t.node p = some x → t'.node p = some x
  noLink : ∀ {p target}, t'.node p = some (.link target) → t.node p = some (.link target)

theorem Extends.refl (t : FileTree) : t.Extends t := ⟨rfl, id, id⟩

theorem Extends.walk {t' : FileTree} (X : t.Extends t')
    {follow follow' : Place → List String → Option Place}
    (hfollow : ∀ {cur parts loc}, follow cur parts = some loc → follow' cur parts = some loc) :
    ∀ {cur : Place}, t.walk follow parts cur = some loc → t'.walk follow' parts cur = some loc := by
  induction parts with
  | nil => exact fun h => h
  | cons n rest ih =>
    intro cur h
    rw [FileTree.walk] at h ⊢
    split
    · rw [if_pos ‹_›] at h
      exact ih h
    rw [if_neg ‹_›] at h
    split
    · rw [if_pos ‹_›] at h
      exact ih h
    rw [if_neg ‹_›] at h
    split at h
    · rw [X.node ‹_›]
      exact ih h
    · rw [X.node ‹_›]
      exact hfollow h
    · rw [X.node ‹_›]
      exact h
    · cases h

/-- What a path leads to stays where it is. -/
theorem Extends.realpath {t' : FileTree} (X : t.Extends t') {links : ℕ}
    (h : t.realpath links cur parts = some loc) : t'.realpath links cur parts = some loc := by
  induction links generalizing cur parts loc with
  | zero => exact X.walk (by simp) h
  | succ links ih => exact X.walk (fun h' => ih h') h

end FileTree

/-! ### Texts -/

/-- `file.path` of two texts. -/
def filePath (a b : String) : String := a ++ "/" ++ b

/-- A separator that nothing after it holds splits a list in one way. -/
theorem last_separator {a b m n : List Char} (hm : '/' ∉ m) (hn : '/' ∉ n)
    (h : a ++ '/' :: m = b ++ '/' :: n) : a = b ∧ m = n := by
  have hside : ∀ {a b m n c : List Char}, '/' ∉ m → b = a ++ c → '/' :: m = c ++ '/' :: n →
      a = b ∧ m = n := by
    intro a b m n c hm hb hc
    cases c with
    | nil =>
      rw [List.append_nil] at hb
      rw [List.nil_append] at hc
      exact ⟨hb.symm, (List.cons.inj hc).2⟩
    | cons x c =>
      rw [List.cons_append] at hc
      have hmem : '/' ∈ m := by
        rw [(List.cons.inj hc).2]
        simp
      exact absurd hmem hm
  rcases List.append_eq_append_iff.mp h with ⟨c, hb, hc⟩ | ⟨c, ha, hc⟩
  · exact hside hm hb hc
  · obtain ⟨hab, hmn⟩ := hside hn ha hc
    exact ⟨hab.symm, hmn.symm⟩

theorem filePath_inj {a b m n : String} (hm : '/' ∉ m.toList) (hn : '/' ∉ n.toList)
    (h : filePath a m = filePath b n) : a = b ∧ m = n := by
  have hlist : a.toList ++ '/' :: m.toList = b.toList ++ '/' :: n.toList := by
    have := congrArg String.toList h
    simpa [filePath] using this
  obtain ⟨hab, hmn⟩ := last_separator hm hn hlist
  exact ⟨String.ext hab, String.ext hmn⟩

/-- The names of a place after separators. -/
def rooted (p : Place) : String := p.foldl filePath ""

theorem rooted_append (p : Place) (n : String) : rooted (p ++ [n]) = filePath (rooted p) n := by
  simp [rooted]

/-- The place as an absolute path. -/
def Place.text (p : Place) : String := if p = [] then "/" else rooted p

theorem Place.text_append (p : Place) (n : String) :
    Place.text (p ++ [n]) = filePath (rooted p) n := by
  rw [Place.text, if_neg (by simp), rooted_append]

/-- The root has the text of an empty name below an empty text. -/
theorem slash_eq : "/" = filePath "" "" := rfl

theorem rooted_inj {p q : Place} (hp : ∀ n ∈ p, Proper n) (hq : ∀ n ∈ q, Proper n)
    (h : rooted p = rooted q) : p = q := by
  have hempty : ∀ (p : Place) n, rooted (p ++ [n]) ≠ "" := by
    intro p n hnil
    rw [rooted_append] at hnil
    have := congrArg String.length hnil
    simp [filePath] at this
  induction p using List.reverseRecOn generalizing q with
  | nil =>
    rcases q.eq_nil_or_concat with rfl | ⟨q, m, rfl⟩
    · rfl
    · rw [List.concat_eq_append] at h
      exact absurd h.symm (hempty q m)
  | append_singleton p n ih =>
    rcases q.eq_nil_or_concat with rfl | ⟨q, m, rfl⟩
    · exact absurd h (hempty p n)
    · rw [List.concat_eq_append] at h hq ⊢
      rw [rooted_append, rooted_append] at h
      obtain ⟨hpq, rfl⟩ := filePath_inj (hp n (by simp)).separated (hq m (by simp)).separated h
      rw [ih (fun k hk => hp k (by simp [hk])) (fun k hk => hq k (by simp [hk])) hpq]

/-- The text of a path; the empty relative one is the current directory. -/
def Path.text (p : Path) : String :=
  if p.absolute then Place.text p.parts
  else match p.parts with
    | [] => "."
    | n :: rest => rest.foldl filePath n

/-- The root is no other place. -/
theorem rooted_ne_slash {p : Place} (hp : ∀ n ∈ p, Proper n) : rooted p ≠ "/" := by
  intro h
  rcases p.eq_nil_or_concat with rfl | ⟨p, n, rfl⟩
  · simp [rooted] at h
  · rw [List.concat_eq_append] at h hp
    rw [rooted_append, slash_eq] at h
    have hn := hp n (by simp)
    exact hn.nonempty (filePath_inj hn.separated (by simp) h).2

theorem Place.text_ne_empty {p : Place} (hp : ∀ n ∈ p, Proper n) : p.text ≠ "" := by
  intro h
  unfold Place.text at h
  split at h
  · simp at h
  · exact absurd (rooted_inj hp (q := []) (by simp) h) ‹_›

theorem Place.text_inj {p q : Place} (hp : ∀ n ∈ p, Proper n) (hq : ∀ n ∈ q, Proper n)
    (h : p.text = q.text) : p = q := by
  unfold Place.text at h
  split at h
  · split at h
    · rw [‹p = []›, ‹q = []›]
    · exact absurd h.symm (rooted_ne_slash hq)
  · split at h
    · exact absurd h (rooted_ne_slash hp)
    · exact rooted_inj hp hq h

end Mdbx.ProofKit
