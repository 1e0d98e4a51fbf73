import Mathlib.Tactic.Common

/-! Programs that read and write a state and either return a value or leave by an exit, keeping
the state they had reached.  `Triple` says what holds at both ends of a run from one state, and
`Keeps` what a program preserves from every state; their rules follow the way a program is
written. -/

namespace Mdbx.ProofKit

/-- A program over states `S` that returns an `α` or exits with an `X`. -/
structure Prog (S X α : Type) where
  run : S → Except X α × S

namespace Prog

variable {S X α β : Type}

/-- Run `m`, then `f` on what it returned; an exit of `m` skips `f`. -/
def bind (m : Prog S X α) (f : α → Prog S X β) : Prog S X β where
  run s := match m.run s with
    | (.ok a, s') => (f a).run s'
    | (.error x, s') => (.error x, s')

instance : Monad (Prog S X) where
  pure a := ⟨fun s => (.ok a, s)⟩
  bind := bind

/-- Leave by the exit `x`. -/
def exit (x : X) : Prog S X α := ⟨fun s => (.error x, s)⟩

/-- The current state. -/
def get : Prog S X S := ⟨fun s => (.ok s, s)⟩

/-- Replace the state. -/
def modify (f : S → S) : Prog S X Unit := ⟨fun s => (.ok (), f s)⟩

/-- Run `m` and return how it ended. -/
def attempt (m : Prog S X α) : Prog S X (Except X α) := ⟨fun s => (.ok (m.run s).1, (m.run s).2)⟩

/-- `m` with its exits seen from outside. -/
def mapExit {Y : Type} (g : X → Y) (m : Prog S X α) : Prog S Y α :=
  ⟨fun s => ((m.run s).1.mapError g, (m.run s).2)⟩

/-- `m`, and `handler` however `m` ended; an exit of the handler takes the place of what `m`
made. -/
def onExit (handler : Prog S X Unit) (m : Prog S X α) : Prog S X α :=
  ⟨fun s => match handler.run (m.run s).2 with
    | (.ok _, s') => ((m.run s).1, s')
    | (.error x, s') => (.error x, s')⟩

@[simp] theorem run_pure (a : α) (s : S) : (pure a : Prog S X α).run s = (.ok a, s) := rfl

@[simp] theorem run_exit (x : X) (s : S) : (exit x : Prog S X α).run s = (.error x, s) := rfl

@[simp] theorem run_get (s : S) : (get : Prog S X S).run s = (.ok s, s) := rfl

@[simp] theorem run_modify (f : S → S) (s : S) :
    (modify f : Prog S X Unit).run s = (.ok (), f s) := rfl

@[simp] theorem run_attempt (m : Prog S X α) (s : S) :
    (attempt m).run s = (.ok (m.run s).1, (m.run s).2) := rfl

theorem run_bind (m : Prog S X α) (f : α → Prog S X β) (s : S) :
    (m >>= f).run s = match m.run s with
      | (.ok a, s') => (f a).run s'
      | (.error x, s') => (.error x, s') := rfl

/-- A first step that returns hands its value and state on. -/
theorem bind_ok {m : Prog S X α} {f : α → Prog S X β} {s s' : S} {a : α}
    (h : m.run s = (.ok a, s')) : (m >>= f).run s = (f a).run s' := by
  rw [run_bind, h]

/-- A first step that exits ends the program. -/
theorem bind_error {m : Prog S X α} {f : α → Prog S X β} {s s' : S} {x : X}
    (h : m.run s = (.error x, s')) : (m >>= f).run s = (.error x, s') := by
  rw [run_bind, h]

/-- A program that returns has returned from its first step. -/
theorem of_bind_ok {m : Prog S X α} {f : α → Prog S X β} {s s' : S} {b : β}
    (h : (m >>= f).run s = (.ok b, s')) :
    ∃ a s₁, m.run s = (.ok a, s₁) ∧ (f a).run s₁ = (.ok b, s') := by
  rw [run_bind] at h
  rcases hm : m.run s with ⟨x | a, s₁⟩
  · simp [hm] at h
  · rw [hm] at h
    exact ⟨a, s₁, rfl, h⟩

@[simp] theorem run_get_bind (f : S → Prog S X β) (s : S) :
    (get >>= f).run s = (f s).run s := rfl

@[simp] theorem run_modify_bind (g : S → S) (f : Unit → Prog S X β) (s : S) :
    (modify g >>= f).run s = (f ()).run (g s) := rfl

@[simp] theorem run_exit_bind (x : X) (f : α → Prog S X β) (s : S) :
    ((exit x : Prog S X α) >>= f).run s = (.error x, s) := rfl

/-- A map changes the value that is returned. -/
theorem map_run {m : Prog S X α} {s s' : S} {r : Except X α} (g : α → β)
    (h : m.run s = (r, s')) : (g <$> m).run s = (r.map g, s') := by
  show (bind m fun a => pure (g a)).run s = _
  rw [bind]
  simp only [h]
  cases r <;> rfl

theorem map_error {m : Prog S X α} {s s' : S} {x : X} (g : α → β)
    (h : m.run s = (.error x, s')) : (g <$> m).run s = (.error x, s') := map_run g h

/-- A map leaves the state alone. -/
theorem map_final (g : α → β) (m : Prog S X α) (s : S) : ((g <$> m).run s).2 = (m.run s).2 := by
  rcases h : m.run s with ⟨r, s'⟩
  rw [map_run g h]

theorem mapExit_ok {Y : Type} {m : Prog S X α} {s s' : S} {a : α} (g : X → Y)
    (h : m.run s = (.ok a, s')) : (mapExit g m).run s = (.ok a, s') := by
  show ((m.run s).1.mapError g, (m.run s).2) = _
  rw [h]
  rfl

theorem mapExit_error {Y : Type} {m : Prog S X α} {s s' : S} {x : X} (g : X → Y)
    (h : m.run s = (.error x, s')) : (mapExit g m).run s = (.error (g x), s') := by
  show ((m.run s).1.mapError g, (m.run s).2) = _
  rw [h]
  rfl

/-- What returns under a change of exits has returned. -/
theorem of_mapExit_ok {Y : Type} {m : Prog S X α} {s s' : S} {a : α} {g : X → Y}
    (h : (mapExit g m).run s = (.ok a, s')) : m.run s = (.ok a, s') := by
  rcases hm : m.run s with ⟨x | b, s₁⟩
  · rw [mapExit_error g hm] at h
    cases h
  · rw [mapExit_ok g hm] at h
    cases h
    rfl

/-- A handler that returns leaves the end of the program as it was. -/
theorem onExit_run {handler : Prog S X Unit} {m : Prog S X α} {s s₁ s₂ : S} {r : Except X α}
    (h : m.run s = (r, s₁)) (h' : handler.run s₁ = (.ok (), s₂)) :
    (onExit handler m).run s = (r, s₂) := by
  simp only [onExit, h, h']

theorem onExit_final (handler : Prog S X Unit) (m : Prog S X α) (s : S) :
    ((onExit handler m).run s).2 = (handler.run (m.run s).2).2 := by
  simp only [onExit]
  rcases handler.run (m.run s).2 with ⟨x | _, s'⟩ <;> rfl

theorem ext {m m' : Prog S X α} (h : ∀ s, m.run s = m'.run s) : m = m' := by
  cases m
  cases m'
  congr 1
  exact funext h

theorem id_map' (m : Prog S X α) : (id <$> m) = m := by
  refine ext fun s => ?_
  show (bind m (fun a => pure (id a))).run s = m.run s
  simp only [bind]
  split <;> simp_all

theorem bind_assoc' {γ : Type} (m : Prog S X α) (f : α → Prog S X β) (g : β → Prog S X γ) :
    (m >>= f) >>= g = m >>= fun a => f a >>= g := by
  refine ext fun s => ?_
  simp only [run_bind]
  rcases m.run s with ⟨_ | a, s'⟩ <;> rfl

instance : LawfulMonad (Prog S X) :=
  LawfulMonad.mk' (Prog S X) id_map' (fun _ _ => rfl) bind_assoc'

end Prog

/-- What holds when `m`, started in `s`, returns (`Q`) and when it exits (`E`). -/
def Triple {S X α : Type} (m : Prog S X α) (s : S) (Q : α → S → Prop) (E : X → S → Prop) : Prop :=
  match m.run s with
  | (.ok a, s') => Q a s'
  | (.error x, s') => E x s'

namespace Triple

variable {S X α β : Type} {m : Prog S X α} {f : α → Prog S X β} {s s' : S}
  {Q : α → S → Prop} {R : β → S → Prop} {E : X → S → Prop}

theorem ok {a : α} (h : m.run s = (.ok a, s')) (hQ : Q a s') : Triple m s Q E := by
  rw [Triple, h]
  exact hQ

theorem error {x : X} (h : m.run s = (.error x, s')) (hE : E x s') : Triple m s Q E := by
  rw [Triple, h]
  exact hE

theorem pure {a : α} (h : Q a s) : Triple (Pure.pure a : Prog S X α) s Q E := h

theorem exit {x : X} (h : E x s) : Triple (Prog.exit x : Prog S X α) s Q E := h

theorem get {Q : S → S → Prop} (h : Q s s) : Triple (Prog.get : Prog S X S) s Q E := h

theorem modify {g : S → S} {Q : Unit → S → Prop} (h : Q () (g s)) :
    Triple (Prog.modify g : Prog S X Unit) s Q E := h

/-- What `m` establishes is what `f` starts from. -/
theorem bind (hm : Triple m s Q E) (hf : ∀ a s', Q a s' → Triple (f a) s' R E) :
    Triple (m >>= f) s R E := by
  rw [Triple] at hm ⊢
  rw [Prog.run_bind]
  rcases h : m.run s with ⟨x | a, s₁⟩
  · rw [h] at hm
    exact hm
  · rw [h] at hm
    exact hf a s₁ hm

/-- Past a first step whose result is known. -/
theorem step {a : α} (h : m.run s = (.ok a, s')) (hf : Triple (f a) s' R E) :
    Triple (m >>= f) s R E := by
  rw [Triple, Prog.bind_ok h]
  exact hf

/-- A first step that exits ends the program. -/
theorem stopped {x : X} (h : m.run s = (.error x, s')) (hE : E x s') :
    Triple (m >>= f) s R E := by
  rw [Triple, Prog.bind_error h]
  exact hE

/-- A triple is about what a program does. -/
theorem congr {m' : Prog S X α} (h : m.run s = m'.run s) (t : Triple m' s Q E) :
    Triple m s Q E := by
  rw [Triple, h]
  exact t

/-- Weaker conclusions at both ends. -/
theorem mono {Q' : α → S → Prop} {E' : X → S → Prop} (h : Triple m s Q E)
    (hQ : ∀ a s', Q a s' → Q' a s') (hE : ∀ x s', E x s' → E' x s') : Triple m s Q' E' := by
  rw [Triple] at h ⊢
  rcases hm : m.run s with ⟨x | a, s₁⟩
  · rw [hm] at h
    exact hE x s₁ h
  · rw [hm] at h
    exact hQ a s₁ h

/-- Two triples of one program at once. -/
theorem and {Q' : α → S → Prop} {E' : X → S → Prop} (h : Triple m s Q E) (h' : Triple m s Q' E') :
    Triple m s (fun a s' => Q a s' ∧ Q' a s') (fun x s' => E x s' ∧ E' x s') := by
  rw [Triple] at h h' ⊢
  rcases hm : m.run s with ⟨x | a, s₁⟩
  · rw [hm] at h h'
    exact ⟨h, h'⟩
  · rw [hm] at h h'
    exact ⟨h, h'⟩

/-- An attempt returns however `m` ended. -/
theorem attempt {Q : Except X α → S → Prop} (h : Triple m s (fun a => Q (.ok a))
    (fun x => Q (.error x))) : Triple (Prog.attempt m) s Q E := by
  rw [Triple] at h ⊢
  rw [Prog.run_attempt]
  rcases hm : m.run s with ⟨x | a, s₁⟩
  · rw [hm] at h
    exact h
  · rw [hm] at h
    exact h

/-- A map changes the value that is returned. -/
theorem map {g : α → β} (h : Triple m s (fun a => R (g a)) E) : Triple (g <$> m) s R E := by
  rw [Triple] at h
  rcases hm : m.run s with ⟨x | a, s₁⟩
  · rw [hm] at h
    exact error (Prog.map_run g hm) h
  · rw [hm] at h
    exact ok (Prog.map_run g hm) h

/-- Every run ends somehow. -/
theorem anyway : Triple m s (fun _ _ => True) (fun _ _ => True) := by
  rw [Triple]
  split <;> trivial

/-- The two ends as one statement about the final state. -/
theorem final {P : S → Prop} (h : Triple m s (fun _ => P) (fun _ => P)) : P (m.run s).2 := by
  rw [Triple] at h
  rcases hm : m.run s with ⟨x | a, s₁⟩ <;> (rw [hm] at h; exact h)

theorem of_final {P : S → Prop} (h : P (m.run s).2) : Triple m s (fun _ => P) (fun _ => P) := by
  rw [Triple]
  rcases hm : m.run s with ⟨x | a, s₁⟩ <;> (rw [hm] at h; exact h)

theorem mapExit {Y : Type} {g : X → Y} {E : Y → S → Prop}
    (h : Triple m s Q fun x => E (g x)) : Triple (Prog.mapExit g m) s Q E := by
  rw [Triple] at h
  rcases hm : m.run s with ⟨x | a, s₁⟩
  · rw [hm] at h
    exact error (Prog.mapExit_error g hm) h
  · rw [hm] at h
    exact ok (Prog.mapExit_ok g hm) h

end Triple

/-- From every state with `I` and `P`, `m` returns in a state with both, and exits in a state with
`I` by an exit that `E` admits there. -/
def Keeps {S X α : Type} (I : S → Prop) (E : X → S → Prop) (P : S → Prop) (m : Prog S X α) : Prop :=
  ∀ s, I s → P s → Triple m s (fun _ s' => I s' ∧ P s') (fun x s' => I s' ∧ E x s')

namespace Keeps

variable {S X α β : Type} {I : S → Prop} {E : X → S → Prop} {P : S → Prop} {m : Prog S X α}
  {f : α → Prog S X β}

theorem pure (a : α) : Keeps I E P (Pure.pure a : Prog S X α) := fun _ hI hP => ⟨hI, hP⟩

theorem exit {x : X} (hx : ∀ s, E x s) : Keeps I E P (Prog.exit x : Prog S X α) :=
  fun s hI _ => ⟨hI, hx s⟩

theorem bind (hm : Keeps I E P m) (hf : ∀ a, Keeps I E P (f a)) : Keeps I E P (m >>= f) := by
  intro s hI hP
  refine Triple.bind (hm s hI hP) ?_
  rintro a s₁ ⟨hI₁, hP₁⟩
  exact hf a s₁ hI₁ hP₁

theorem map {g : α → β} (hm : Keeps I E P m) : Keeps I E P (g <$> m) := by
  rw [← bind_pure_comp]
  exact hm.bind fun a => pure (g a)

/-- A choice keeps what both of its branches keep. -/
theorem ite {c : Prop} [Decidable c] {m' : Prog S X α} (hm : c → Keeps I E P m)
    (hm' : ¬ c → Keeps I E P m') : Keeps I E P (if c then m else m') := by
  split
  · exact hm ‹_›
  · exact hm' ‹_›

end Keeps

end Mdbx.ProofKit
