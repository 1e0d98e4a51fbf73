import Mdbx.ProofKit.Program

/-! Two runs side by side.  `Paired` says that two programs, each from its own state, end alike, and
what holds of the two states they end in; `Mirrors` that they do so from every two related states.
The rules follow the way the programs are written. -/

namespace Mdbx.ProofKit

/-- Both programs return one value, with `Q` of it and the two states, or both leave by one exit,
with `E` of it and the two states. -/
def Paired {S X α : Type} (m m' : Prog S X α) (s s' : S) (Q : α → S → S → Prop)
    (E : X → S → S → Prop) : Prop :=
  (∃ a u u', m.run s = (.ok a, u) ∧ m'.run s' = (.ok a, u') ∧ Q a u u') ∨
    ∃ x u u', m.run s = (.error x, u) ∧ m'.run s' = (.error x, u') ∧ E x u u'

namespace Paired

variable {S X α β : Type} {m m' : Prog S X α} {f f' : α → Prog S X β} {s s' : S}
  {Q : α → S → S → Prop} {T : β → S → S → Prop} {E : X → S → S → Prop}

theorem ok {a : α} {u u' : S} (h : m.run s = (.ok a, u)) (h' : m'.run s' = (.ok a, u'))
    (hQ : Q a u u') : Paired m m' s s' Q E := .inl ⟨a, u, u', h, h', hQ⟩

theorem error {x : X} {u u' : S} (h : m.run s = (.error x, u)) (h' : m'.run s' = (.error x, u'))
    (hE : E x u u') : Paired m m' s s' Q E := .inr ⟨x, u, u', h, h', hE⟩

theorem bind (hm : Paired m m' s s' Q E)
    (hf : ∀ a u u', Q a u u' → Paired (f a) (f' a) u u' T E) :
    Paired (m >>= f) (m' >>= f') s s' T E := by
  rcases hm with ⟨a, u, u', h, h', hQ⟩ | ⟨x, u, u', h, h', hE⟩
  · have hrest := hf a u u' hQ
    rw [Paired, Prog.bind_ok h, Prog.bind_ok h']
    exact hrest
  · exact error (Prog.bind_error h) (Prog.bind_error h') hE

theorem mono {Q' : α → S → S → Prop} {E' : X → S → S → Prop} (h : Paired m m' s s' Q E)
    (hQ : ∀ a u u', Q a u u' → Q' a u u') (hE : ∀ x u u', E x u u' → E' x u u') :
    Paired m m' s s' Q' E' := by
  rcases h with ⟨a, u, u', h, h', hab⟩ | ⟨x, u, u', h, h', hx⟩
  · exact ok h h' (hQ a u u' hab)
  · exact error h h' (hE x u u' hx)

theorem map {g : α → β} (h : Paired m m' s s' (fun a => T (g a)) E) :
    Paired (g <$> m) (g <$> m') s s' T E := by
  rcases h with ⟨a, u, u', h, h', hT⟩ | ⟨x, u, u', h, h', hE⟩
  · exact ok (Prog.map_run g h) (Prog.map_run g h') hT
  · exact error (Prog.map_run g h) (Prog.map_run g h') hE

/-- What is known of each run by itself. -/
theorem along {P P' : α → S → Prop} (h : Paired m m' s s' Q E)
    (t : Triple m s P fun _ _ => True) (t' : Triple m' s' P' fun _ _ => True) :
    Paired m m' s s' (fun a u u' => Q a u u' ∧ P a u ∧ P' a u') E := by
  rcases h with ⟨a, u, u', h, h', hQ⟩ | ⟨x, u, u', h, h', hE⟩
  · rw [Triple, h] at t
    rw [Triple, h'] at t'
    exact ok h h' ⟨hQ, t, t'⟩
  · exact error h h' hE

/-- Runs that do the same as two paired runs. -/
theorem congr {n n' : Prog S X α} (h : n.run s = m.run s) (h' : n'.run s' = m'.run s')
    (hm : Paired m m' s s' Q E) : Paired n n' s s' Q E := by
  rw [Paired, h, h']
  exact hm

/-- The answers are equal and the final states related. -/
theorem ends {R : S → S → Prop} (h : Paired m m' s s' (fun _ => R) (fun _ => R)) :
    (m'.run s').1 = (m.run s).1 ∧ R (m.run s).2 (m'.run s').2 := by
  rcases h with ⟨a, u, u', h, h', hR⟩ | ⟨x, u, u', h, h', hR⟩ <;> rw [h, h'] <;> exact ⟨rfl, hR⟩

end Paired

/-- From every two states that `R` relates the programs end alike, in states that `R` relates. -/
def Mirrors {S X α : Type} (R : S → S → Prop) (m m' : Prog S X α) : Prop :=
  ∀ s s', R s s' → Paired m m' s s' (fun _ => R) (fun _ => R)

namespace Mirrors

variable {S X α β : Type} {R : S → S → Prop} {m m' : Prog S X α} {f f' : α → Prog S X β}

theorem pure (a : α) : Mirrors R (Pure.pure a : Prog S X α) (Pure.pure a) :=
  fun _ _ h => .ok rfl rfl h

theorem exit (x : X) : Mirrors R (Prog.exit x : Prog S X α) (Prog.exit x) :=
  fun _ _ h => .error rfl rfl h

theorem bind (hm : Mirrors R m m') (hf : ∀ a, Mirrors R (f a) (f' a)) :
    Mirrors R (m >>= f) (m' >>= f') :=
  fun s s' h => (hm s s' h).bind fun a u u' hu => hf a u u' hu

theorem map {g : α → β} (hm : Mirrors R m m') : Mirrors R (g <$> m) (g <$> m') := by
  rw [← bind_pure_comp, ← bind_pure_comp]
  exact hm.bind fun _ => pure _

/-- A look at a part of the state on which related states agree. -/
theorem read {f : S → Prog S X α} (hf : ∀ s s', R s s' → f s' = f s)
    (hrest : ∀ s, Mirrors R (f s) (f s)) : Mirrors R (Prog.get >>= f) (Prog.get >>= f) := by
  intro s s' h
  refine .congr (Prog.run_get_bind f s) ?_ (hrest s s s' h)
  rw [Prog.run_get_bind, hf s s' h]

theorem modify {g g' : S → S} (h : ∀ s s', R s s' → R (g s) (g' s')) :
    Mirrors R (Prog.modify g : Prog S X Unit) (Prog.modify g') :=
  fun s s' hs => .ok rfl rfl (h s s' hs)

theorem attempt (hm : Mirrors R m m') : Mirrors R (Prog.attempt m) (Prog.attempt m') := by
  intro s s' hs
  rcases hm s s' hs with ⟨a, u, u', h, h', hR⟩ | ⟨x, u, u', h, h', hR⟩
  · exact .ok (by rw [Prog.run_attempt, h]) (by rw [Prog.run_attempt, h']) hR
  · exact .ok (by rw [Prog.run_attempt, h]) (by rw [Prog.run_attempt, h']) hR

/-- A choice that both make alike. -/
theorem ite {c : Prop} [Decidable c] {n n' : Prog S X α} (hm : c → Mirrors R m m')
    (hn : ¬ c → Mirrors R n n') :
    Mirrors R (if c then m else n) (if c then m' else n') := by
  split
  · exact hm ‹_›
  · exact hn ‹_›

end Mirrors

end Mdbx.ProofKit
