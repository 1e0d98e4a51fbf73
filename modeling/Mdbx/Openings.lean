import Mdbx.Recovery

/-! The opens of a run: which of them the registry of open environments still holds, which keys an
open is refused for, and what that leaves of the promise that libmdbx never has one environment
open twice in a process. -/

namespace Mdbx

open ProofKit

variable {σ : Type} {lossy : Bool} {w w' : World σ} {L : Platform σ}

/-- A call of `mdbx_env_open_` that made a handle: by which process, under which key, the number
that the handle and the environment bear, and whether the call returned. -/
structure Opening where
  pid : Pid
  key : String
  env : EnvRef
  completed : Bool
  deriving DecidableEq

/-- The handle that an event makes for an environment. -/
def Event.opening (L : Platform σ) (w : World σ) : Event → Option Opening
  | entry (.envOpen path key readonly subdir maxDbs mapSize maxReaders mode extraFlags) =>
    let result := (mdbxEnvOpen_ L path key readonly subdir maxDbs mapSize maxReaders mode
      extraFlags).run w
    if result.2.next = w.next then none
    else some ⟨w.pid, key, w.next, result.1.toOption.isSome⟩
  | _ => none

/-- The openings of a run, the earliest first. -/
def World.openings (L : Platform σ) : World σ → List Event → List Opening
  | _, [] => []
  | w, event :: rest => (event.opening L w).toList ++ (event.next L w).openings L rest

/-! ### Where the entries of the registry come from -/

/-- What the openings of a run say of the registry that it leaves. -/
structure Recounted (done : List Opening) (w : World σ) : Prop where
  drawn : ∀ o ∈ done, o.env < w.next
  unique : ∀ o ∈ done, ∀ o' ∈ done, o.env = o'.env → o = o'
  entry : ∀ e ∈ w.openEnvs, ∃ o ∈ done, o.env = e ∧ o.completed = true ∧
    ∃ h, w.envs e = some h ∧ h.pid = o.pid ∧ h.key = o.key

/-- An entry of the registry is an old one or bears a number that the step has drawn. -/
theorem Later.entry {may : NativeCall → Prop} {v v' : Waived} (H : Later may w w') (I : Inv v w)
    (I' : Inv v' w') {e : EnvRef} (hmem : e ∈ w'.openEnvs) :
    (e ∈ w.openEnvs ∧ ∀ h, w.envs e = some h → ∃ h', w'.envs e = some h' ∧ h'.pid = h.pid ∧
      h'.key = h.key) ∨ w.next ≤ e ∧ may (.envCreate e) := by
  obtain ⟨h', he', henv'⟩ := I'.graph.openHandle hmem
  by_cases hlt : e < w.next
  · refine .inl ⟨H.openEnvs hmem hlt, fun h he => ⟨h', he', ?_⟩⟩
    obtain ⟨h₀, he₀, hpid, -, -, hkey⟩ := H.env he' hlt
    obtain rfl : h = h₀ := Option.some.inj (he ▸ he₀)
    exact ⟨hpid, hkey hmem⟩
  · refine .inr ⟨not_lt.mp hlt, ?_⟩
    obtain ⟨c, hc, -, hcall, -⟩ := I'.traced.created he' henv'
    rcases H.made hc (by rw [hcall]; rfl) with hold | hmay
    · exact absurd ((I.fresh.log hold).1 e hcall) hlt
    · exact hcall ▸ hmay

/-- What one event adds to the registry. -/
theorem Event.entry_or (hL : lossy = false → L.Allocates) (I : Inv { lossy } w) (event : Event)
    (hallowed : event.Allowed w) {e : EnvRef} (hmem : e ∈ (event.next L w).openEnvs) :
    (e ∈ w.openEnvs ∧ ∀ h, w.envs e = some h → ∃ h', (event.next L w).envs e = some h' ∧
      h'.pid = h.pid ∧ h'.key = h.key) ∨
    ∃ o, event.opening L w = some o ∧ o.env = e ∧ o.completed = true ∧
      ∃ h, (event.next L w).envs e = some h ∧ h.pid = o.pid ∧ h.key = o.key := by
  have I' : Inv { lossy } (event.next L w) := Step.inv L hL I ⟨event, hallowed, rfl⟩
  cases event with
  | fork child => exact .inl ⟨hmem, fun h he => ⟨h, he, rfl, rfl⟩⟩
  | finalize object =>
    rcases (finalize_sound L I object).later.entry I I' hmem with h | h
    · exact .inl h
    · exact h.2.elim
  | entry command =>
    cases command with
    | envOpen path key readonly subdir maxDbs mapSize maxReaders mode extraFlags =>
      -- The only environment that an open creates bears the next number.
      have S : Sound (fun c => c = .envCreate w.next) w { lossy } w := I.sound
      have hopen := mdbxEnvOpen_spec L hL S rfl path key readonly subdir maxDbs mapSize maxReaders
        mode extraFlags
      rw [Triple] at hopen
      rcases hr : (mdbxEnvOpen_ L path key readonly subdir maxDbs mapSize maxReaders mode
        extraFlags).run w with ⟨r, w'⟩
      have hrun : ((Command.envOpen path key readonly subdir maxDbs mapSize maxReaders mode
          extraFlags).run L).run w = (r.map Answer.object, w') := Prog.map_run _ hr
      rw [Event.next, hrun] at I' hmem ⊢
      rw [hr] at hopen
      cases r with
      | error x =>
        obtain ⟨S', -, hunlisted, -⟩ := hopen
        rcases S'.later.entry I I' hmem with h | ⟨-, h⟩
        · exact .inl h
        · cases h
          exact absurd hmem hunlisted
      | ok a =>
        obtain ⟨-, S', ⟨hlisted, h', he', hkey⟩, -⟩ := hopen
        rcases S'.later.entry I I' hmem with h | ⟨-, h⟩
        · exact .inl h
        · cases h
          refine .inr ⟨⟨w.pid, key, w.next, true⟩, ?_, rfl, rfl, h', he'.at_, ?_, hkey⟩
          · have hdrawn : w'.next ≠ w.next := (I'.fresh.env he'.at_).ne'
            rw [Event.opening, hr]
            simp [hdrawn, Except.toOption]
          · exact he'.pid.trans S'.later.pid
    | txnCommit x =>
      rcases ((Command.txnCommit x).spec L hL I).1.later.entry I I' hmem with h | h
      · exact .inl h
      · cases x <;> exact h.2.elim
    | _ =>
      rcases (Command.spec L hL I _).1.later.entry I I' hmem with h | h
      · exact .inl h
      · exact h.2.elim

/-- The handle of an opening bears a number that the event has drawn. -/
theorem Event.opening_some {event : Event} {o : Opening} (h : event.opening L w = some o) :
    o.env = w.next ∧ (event.next L w).next ≠ w.next := by
  cases event with
  | fork | finalize => cases h
  | entry command =>
    cases command with
    | envOpen path key readonly subdir maxDbs mapSize maxReaders mode extraFlags =>
      rcases hr : (mdbxEnvOpen_ L path key readonly subdir maxDbs mapSize maxReaders mode
        extraFlags).run w with ⟨r, w'⟩
      have hrun : ((Command.envOpen path key readonly subdir maxDbs mapSize maxReaders mode
          extraFlags).run L).run w = (r.map Answer.object, w') := Prog.map_run _ hr
      rw [Event.opening, hr] at h
      rw [Event.next, hrun]
      by_cases hnext : w'.next = w.next
      · simp [hnext] at h
      · simp only [hnext, if_false, Option.some.injEq] at h
        exact ⟨by rw [← h], hnext⟩
    | _ => cases h

theorem Event.next_le (hL : lossy = false → L.Allocates) (I : Inv { lossy } w) (event : Event) :
    w.next ≤ (event.next L w).next := by
  cases event with
  | fork child => exact le_rfl
  | finalize object => exact (finalize_sound L I object).later.next
  | entry command => exact (command.spec L hL I).1.later.next

theorem Recounted.start (lib : σ) (pid : Pid) : Recounted [] (World.start lib pid) := by
  constructor <;> simp [World.start]

/-- One event keeps the account. -/
theorem Recounted.step {done : List Opening} (hL : lossy = false → L.Allocates)
    (I : Inv { lossy } w) (R : Recounted done w) (event : Event) (hallowed : event.Allowed w) :
    Recounted (done ++ (event.opening L w).toList) (event.next L w) := by
  have hle := event.next_le hL I
  have hnew : ∀ {o}, event.opening L w = some o →
      o.env = w.next ∧ w.next < (event.next L w).next := fun h =>
    ⟨(Event.opening_some h).1, lt_of_le_of_ne hle (Event.opening_some h).2.symm⟩
  have hmem : ∀ {o}, o ∈ done ++ (event.opening L w).toList ↔
      o ∈ done ∨ event.opening L w = some o := by
    intro o
    simp
  constructor
  · intro o ho
    rcases hmem.mp ho with h | h
    · exact (R.drawn o h).trans_le hle
    · rw [(hnew h).1]
      exact (hnew h).2
  · intro o ho o' ho' heq
    rcases hmem.mp ho with h | h <;> rcases hmem.mp ho' with h' | h'
    · exact R.unique o h o' h' heq
    · have := R.drawn o h
      rw [heq, (hnew h').1] at this
      exact absurd this (lt_irrefl _)
    · have := R.drawn o' h'
      rw [← heq, (hnew h).1] at this
      exact absurd this (lt_irrefl _)
    · exact Option.some.inj (h.symm.trans h')
  · intro e he
    rcases event.entry_or hL I hallowed he with ⟨hold, hsame⟩ | ⟨o, ho, henv, hdone, hh⟩
    · obtain ⟨o, ho, henv, hdone, h, hh, hpid, hkey⟩ := R.entry e hold
      obtain ⟨h', hh', hpid', hkey'⟩ := hsame h hh
      exact ⟨o, hmem.mpr (.inl ho), henv, hdone, h', hh', hpid'.trans hpid, hkey'.trans hkey⟩
    · exact ⟨o, hmem.mpr (.inr ho), henv, hdone, hh⟩

theorem Recounted.run {done : List Opening} (hL : lossy = false → L.Allocates)
    (I : Inv { lossy } w) (R : Recounted done w) {events : List Event} (h : w.admits L events) :
    Recounted (done ++ w.openings L events) (w.after L events) := by
  induction events generalizing w done with
  | nil => simpa [World.openings, World.after] using R
  | cons event rest ih =>
    have I' : Inv { lossy } (event.next L w) := Step.inv L hL I ⟨event, h.1, rfl⟩
    have := ih I' (R.step hL I event h.1) h.2
    rwa [List.append_assoc] at this

theorem World.after_reachable {lib : σ} {pid : Pid} {events : List Event}
    (h : (World.start lib pid).admits L events) :
    Reachable L ((World.start lib pid).after L events) :=
  ⟨lib, pid, World.after_steps h⟩

theorem World.after_recounted {lib : σ} {pid : Pid} {events : List Event}
    (h : (World.start lib pid).admits L events) :
    Recounted ((World.start lib pid).openings L events) ((World.start lib pid).after L events) := by
  have I : Inv { lossy := true } (World.start lib pid) := Inv.start lib pid
  exact Recounted.run (by simp) I (.start lib pid) h

/-! ### The registry is exact -/

/-- The registry of open environments, after a run with the openings `done`. -/
structure OpenEnvsExact (L : Platform σ) (done : List Opening) (w : World σ) : Prop where
  entries : ∀ e, e ∈ w.openEnvs ↔ ∃ o ∈ done, o.env = e ∧ o.completed = true ∧ w.HoldsEnv e e
  once : w.openEnvs.Nodup
  ownKeys : ∀ o ∈ done, ∀ o' ∈ done, o.env ∈ w.openEnvs → o'.env ∈ w.openEnvs →
    o.pid = w.pid → o'.pid = w.pid → o.key = o'.key → o = o'
  refused : ∀ path key readonly subdir maxDbs mapSize maxReaders mode extraFlags,
    (∃ other, ((mdbxEnvOpen_ L path key readonly subdir maxDbs mapSize maxReaders mode
        extraFlags).run w).1 = .error (.stop (.alreadyOpen path other))) ↔
      OpenArgs L maxDbs mapSize maxReaders extraFlags ∧
        ∃ o ∈ done, o.pid = w.pid ∧ o.key = key ∧ o.completed = true ∧ w.HoldsEnv o.env o.env
  proceeds : ∀ path key readonly subdir maxDbs mapSize maxReaders mode extraFlags,
    OpenArgs L maxDbs mapSize maxReaders extraFlags →
      (∀ o ∈ done, o.completed = true → w.HoldsEnv o.env o.env → o.key = key → o.pid ≠ w.pid) →
      ∃ flags dbs readers map,
        (mdbxEnvOpen_ L path key readonly subdir maxDbs mapSize maxReaders mode extraFlags).run w
          = (openHandle L path key readonly flags dbs readers map mode).run w

section Exact

variable {done : List Opening} (R : Recounted done w)
include R

/-- Whether this process has an opened environment under `key` is what the registry says. -/
theorem Recounted.keyed {key : String} :
    (∃ e ∈ w.openEnvs, w.keyed key e = true) ↔
      ∃ o ∈ done, o.pid = w.pid ∧ o.key = key ∧ o.env ∈ w.openEnvs := by
  constructor
  · rintro ⟨e, hmem, hkeyed⟩
    obtain ⟨o, ho, henv, -, h, hh, hpid, hkey⟩ := R.entry e hmem
    rw [World.keyed, hh] at hkeyed
    obtain ⟨hkey', hpid'⟩ := of_decide_eq_true hkeyed
    exact ⟨o, ho, hpid.symm.trans hpid', hkey.symm.trans hkey', henv ▸ hmem⟩
  · rintro ⟨o, ho, hpid, hkey, hmem⟩
    obtain ⟨o', ho', henv, -, h, hh, hpid', hkey'⟩ := R.entry o.env hmem
    obtain rfl := R.unique o ho o' ho' henv.symm
    refine ⟨o.env, hmem, ?_⟩
    rw [World.keyed, hh]
    exact decide_eq_true ⟨hkey'.trans hkey, hpid'.trans hpid⟩

theorem Recounted.entries (G : Graph w) (hlists : ∀ e, w.Lists e) (e : EnvRef) :
    e ∈ w.openEnvs ↔ ∃ o ∈ done, o.env = e ∧ o.completed = true ∧ w.HoldsEnv e e := by
  constructor
  · intro hmem
    obtain ⟨o, ho, henv, hdone, -⟩ := R.entry e hmem
    exact ⟨o, ho, henv, hdone, G.openHandle hmem⟩
  · rintro ⟨o, -, -, -, h, hh, henv⟩
    exact hlists e h hh (by simp [henv])

theorem Recounted.openEnvsExact (I : Inv {} w) (hL : L.Allocates) (hlists : ∀ e, w.Lists e) :
    OpenEnvsExact L done w := by
  have G := I.graph
  have hheld : ∀ {key}, (∃ e ∈ w.openEnvs, w.keyed key e = true) ↔
      ∃ o ∈ done, o.pid = w.pid ∧ o.key = key ∧ o.completed = true ∧ w.HoldsEnv o.env o.env := by
    intro key
    rw [R.keyed]
    constructor
    · rintro ⟨o, ho, hpid, hkey, hmem⟩
      obtain ⟨o', ho', henv, hdone, hh⟩ := (R.entries G hlists o.env).mp hmem
      obtain rfl := R.unique o ho o' ho' henv.symm
      exact ⟨o, ho, hpid, hkey, hdone, hh⟩
    · rintro ⟨o, ho, hpid, hkey, hdone, hh⟩
      exact ⟨o, ho, hpid, hkey, (R.entries G hlists o.env).mpr ⟨o, ho, rfl, hdone, hh⟩⟩
  have hfree : ∀ {key}, w.openEnvs.find? (w.keyed key) = none →
      ¬ ∃ e ∈ w.openEnvs, w.keyed key e = true := by
    rintro key hnone ⟨e, hmem, hkeyed⟩
    exact List.find?_eq_none.mp hnone e hmem hkeyed
  constructor
  · exact R.entries G hlists
  · exact G.openNodup
  · intro o ho o' ho' hmem hmem' hpid hpid' hkey
    obtain ⟨o₁, ho₁, henv₁, -, h, hh, hhpid, hhkey⟩ := R.entry _ hmem
    obtain ⟨o₂, ho₂, henv₂, -, h', hh', hhpid', hhkey'⟩ := R.entry _ hmem'
    obtain rfl := R.unique o ho o₁ ho₁ henv₁.symm
    obtain rfl := R.unique o' ho' o₂ ho₂ henv₂.symm
    refine R.unique o ho o' ho' (G.ownKeys hmem hmem' hh hh' (hhpid.trans hpid)
      (hhpid'.trans hpid') ?_)
    rw [hhkey, hhkey', hkey]
  · intro path key readonly subdir maxDbs mapSize maxReaders mode extraFlags
    rcases mdbxEnvOpen_cases L G path key readonly subdir maxDbs mapSize maxReaders mode
      extraFlags with
      ⟨hargs, c, hc, hr⟩ | ⟨hargs, ⟨e, hmem, hkeyed, other, hr⟩ | ⟨hnone, flags, dbs, rds, map, hr⟩⟩
    · rw [hr]
      refine iff_of_false ?_ fun h => hargs h.1
      rintro ⟨other, heq⟩
      cases heq
      exact hc path other rfl
    · rw [hr]
      exact iff_of_true ⟨other, rfl⟩ ⟨hargs, hheld.mp ⟨e, hmem, hkeyed⟩⟩
    · rw [hr]
      refine iff_of_false ?_ fun h => hfree hnone (hheld.mpr h.2)
      rintro ⟨other, heq⟩
      have S : Sound (fun _ => True) w {} w := I.sound
      have := openHandle_spec L (fun _ => hL) S trivial hnone path readonly flags dbs rds map mode
      rw [Triple] at this
      rcases hrun : (openHandle L path key readonly flags dbs rds map mode).run w with ⟨x | a, w'⟩
      · rw [hrun] at this heq
        cases heq
        exact this.2.2.2.2 path other rfl
      · rw [hrun] at heq
        cases heq
  · intro path key readonly subdir maxDbs mapSize maxReaders mode extraFlags hargs hnone
    rcases mdbxEnvOpen_cases L G path key readonly subdir maxDbs mapSize maxReaders mode
      extraFlags with ⟨hno, -⟩ | ⟨-, ⟨e, hmem, hkeyed, -⟩ | ⟨-, hr⟩⟩
    · exact absurd hargs hno
    · obtain ⟨o, ho, hpid, hkey, hdone, hh⟩ := hheld.mp ⟨e, hmem, hkeyed⟩
      exact absurd hpid (hnone o ho hdone hh hkey)
    · exact hr

end Exact

/-- After every run of opens, closes, forks, finalizers and other calls the registry holds the
environments of the completed opens that are not closed, and decides which keys are refused. -/
theorem openEnvs_exact (hL : L.Allocates) (lib : σ) (pid : Pid) (events : List Event)
    (h : (World.start lib pid).admits L events) :
    OpenEnvsExact L ((World.start lib pid).openings L events)
      ((World.start lib pid).after L events) := by
  have hr := World.after_reachable h
  exact (World.after_recounted h).openEnvsExact (hr.inv hL) hL (hr.lists hL)

/-- Open an environment and go on in a child. -/
def openThenFork (child : Pid) : List Event :=
  [.entry (.envOpen "db" "key" false true (.ofNat 0) (.ofNat 0) (.ofNat 0) 0 []), .fork child]

/-- A child may open what it inherited: under the same key it gets to libmdbx. -/
theorem openEnvs_exact_forked : ∃ flags dbs readers map,
    (mdbxEnvOpen_ obliging "db" "key" false true (.ofNat 0) (.ofNat 0) (.ofNat 0) 0 []).run
        ((World.start () 1).after obliging (openThenFork 2))
      = (openHandle obliging "db" "key" false flags dbs readers map 0).run
        ((World.start () 1).after obliging (openThenFork 2)) := by
  have hadmits : (World.start () 1).admits obliging (openThenFork 2) := by decide +kernel
  have hdone : (World.start () 1).openings obliging (openThenFork 2) = [⟨1, "key", 0, true⟩] := by
    decide +kernel
  have hpid : ((World.start () 1).after obliging (openThenFork 2)).pid = 2 := by decide +kernel
  refine (openEnvs_exact (Platform.scripted_allocates _) () 1 _ hadmits).proceeds "db" "key" false
    true (.ofNat 0) (.ofNat 0) (.ofNat 0) 0 [] ⟨⟨0, rfl⟩, ?_, ?_, ?_⟩ ?_
  · decide +kernel
  · decide +kernel
  · decide +kernel
  · intro o ho _ _ _
    rw [hdone, List.mem_singleton] at ho
    simp [ho, hpid]

/-! ### One environment opened twice -/

/-- Whether libmdbx has opened the environment. -/
def NativelyOpened (log : List Call) (e : EnvPtr) : Prop :=
  ∃ c ∈ log, (∃ path flags mode, c.call = .envOpen e path flags mode) ∧
    c.outcome = .returned Status.success

namespace World

/-- The environment `e` is open, as far as libmdbx is concerned. -/
def StillOpen (w : World σ) (e : EnvPtr) : Prop := NativelyOpened w.log e ∧ ¬ Closed w.log e

/-- The environment `e`, which libmdbx still has open, has been kept aside for good, went with a
close that panicked, or never came into the registry. -/
def GivenUp (w : World σ) (e : EnvPtr) : Prop :=
  w.StillOpen e ∧ (.env e ∈ w.abandoned ∨ ClosePanicked w.log e ∨
    w.HoldsEnv e e ∧ e ∉ w.openEnvs)

/-- Between the two worlds a native `mdbx_env_open` is made. -/
def OpensNatively (w w' : World σ) : Prop :=
  ∃ new c, w'.log = new ++ w.log ∧ c ∈ new ∧
    ∃ e path flags mode, c.call = .envOpen e path flags mode

end World

/-- What libmdbx has opened is held, kept aside, or went with its close. -/
theorem Inv.stillOpen (I : Inv { lossy } w) {e : EnvPtr} (h : w.StillOpen e) :
    e ∈ w.openEnvs ∨ w.GivenUp e := by
  obtain ⟨⟨c, hc, ⟨path, flags, mode, hcall⟩, ho⟩, hopen⟩ := h
  obtain ⟨past, hsuffix⟩ : ∃ past, c :: past <:+ w.log := by
    obtain ⟨new, past, hlog⟩ := List.append_of_mem hc
    exact ⟨past, new, hlog.symm⟩
  have hcreated : Created w.log c.pid e := by
    obtain ⟨c', hc', hcreates⟩ := ((I.safe.suffix hsuffix).1.1 e (by rw [hcall]; rfl)).1
    exact ⟨c', hsuffix.subset (List.mem_cons_of_mem c hc'), hcreates⟩
  have hstill : w.StillOpen e := ⟨⟨c, hc, ⟨path, flags, mode, hcall⟩, ho⟩, hopen⟩
  by_cases hlisted : e ∈ w.openEnvs
  · exact .inl hlisted
  by_cases hpanicked : ClosePanicked w.log e
  · exact .inr ⟨hstill, .inr (.inl hpanicked)⟩
  rcases I.conserved.envKept hcreated hopen hpanicked with hheld | habandoned
  · exact .inr ⟨hstill, .inr (.inr ⟨hheld, hlisted⟩)⟩
  · exact .inr ⟨hstill, .inl habandoned⟩

/-- In every run, an open under a key that this process has opened an environment under, which
libmdbx still has open and which is not given up, is refused before any call.  So an open that
reaches `mdbx_env_open` finds no environment of its key open if and only if none of them has been
given up. -/
theorem no_double_open (lib : σ) (pid : Pid) (events : List Event)
    (h : (World.start lib pid).admits L events) (path key : String) (readonly subdir : Bool)
    (maxDbs mapSize maxReaders : Double) (mode : ℤ) (extraFlags : List String) {w w' : World σ}
    {done : List Opening} {r : Except Exit Sexp} (hw : w = (World.start lib pid).after L events)
    (hdone : done = (World.start lib pid).openings L events)
    (hrun : (mdbxEnvOpen_ L path key readonly subdir maxDbs mapSize maxReaders mode
      extraFlags).run w = (r, w')) :
    (∀ o ∈ done, o.pid = w.pid → o.key = key → w.StillOpen o.env → ¬ w.GivenUp o.env →
      w' = w ∧ ∃ c, r = .error (.stop c)) ∧
    (w.OpensNatively w' → ((∀ o ∈ done, o.pid = w.pid → o.key = key → ¬ w.StillOpen o.env) ↔
      ∀ o ∈ done, o.pid = w.pid → o.key = key → ¬ w.GivenUp o.env)) := by
  subst hw hdone
  have R := World.after_recounted h
  have I : Inv { lossy := true } ((World.start lib pid).after L events) :=
    (World.after_reachable h).invariant (by simp)
  set w := (World.start lib pid).after L events
  have hrefused : ∀ o ∈ (World.start lib pid).openings L events, o.pid = w.pid → o.key = key →
      w.StillOpen o.env → ¬ w.GivenUp o.env → w' = w ∧ ∃ c, r = .error (.stop c) := by
    intro o ho hpid hkey hopen hkept
    have hlisted := (I.stillOpen hopen).resolve_right hkept
    obtain ⟨e, hmem, hkeyed⟩ := R.keyed.mpr ⟨o, ho, hpid, hkey, hlisted⟩
    rcases mdbxEnvOpen_cases L I.graph path key readonly subdir maxDbs mapSize maxReaders mode
      extraFlags with ⟨-, c, -, hr⟩ | ⟨-, ⟨-, -, -, other, hr⟩ | ⟨hnone, -⟩⟩
    · have heq := hrun.symm.trans hr
      exact ⟨congrArg Prod.snd heq, c, congrArg Prod.fst heq⟩
    · have heq := hrun.symm.trans hr
      exact ⟨congrArg Prod.snd heq, _, congrArg Prod.fst heq⟩
    · exact absurd hkeyed (List.find?_eq_none.mp hnone e hmem)
  refine ⟨hrefused, fun hreached => ⟨fun hnone o ho hpid hkey hgiven => ?_,
    fun hkept o ho hpid hkey hopen => ?_⟩⟩
  · exact hnone o ho hpid hkey hgiven.1
  · obtain ⟨rfl, -⟩ := hrefused o ho hpid hkey hopen (hkept o ho hpid hkey)
    obtain ⟨new, c, hlog, hc, -⟩ := hreached
    obtain rfl : new = [] := by simpa using congrArg List.length hlog
    simp at hc

/-- An open after a close finds the first environment closed. -/
theorem no_double_open_openThenClose :
    ¬ ((World.start () 1).after obliging openThenClose).StillOpen 0 := by
  have hadmits : (World.start () 1).admits obliging openThenClose := by decide +kernel
  have hdone : (World.start () 1).openings obliging openThenClose = [⟨1, "key", 0, true⟩] := by
    decide +kernel
  have hpid : ((World.start () 1).after obliging openThenClose).pid = 1 := by decide +kernel
  have hlog : ((World.start () 1).after obliging openThenClose).log =
      [⟨1, .envClose 0, .returned 0⟩, ⟨1, .envHeapRoots 0, .returned 0⟩,
        ⟨1, .envGetFlags 0, .returned 0⟩, ⟨1, .envOpen 0 "db" 0 0, .returned 0⟩,
        ⟨1, .envCreate 0, .returned 0⟩] := by
    decide +kernel
  have hlog' : ((mdbxEnvOpen_ obliging "db" "key" false true (.ofNat 0) (.ofNat 0) (.ofNat 0) 0
      []).run ((World.start () 1).after obliging openThenClose)).2.log =
      [⟨1, .envHeapRoots 1, .returned 0⟩, ⟨1, .envGetFlags 1, .returned 0⟩,
        ⟨1, .envOpen 1 "db" 0 0, .returned 0⟩, ⟨1, .envCreate 1, .returned 0⟩] ++
        ((World.start () 1).after obliging openThenClose).log := by
    decide +kernel
  have hclosed : ∀ o ∈ (World.start () 1).openings obliging openThenClose,
      ¬ ((World.start () 1).after obliging openThenClose).GivenUp o.env := by
    rintro o ho ⟨⟨-, hopen⟩, -⟩
    rw [hdone, List.mem_singleton] at ho
    subst ho
    refine hopen ?_
    rw [hlog]
    simp [Closed, Call.Closes]
  refine ((no_double_open () 1 openThenClose hadmits "db" "key" false true (.ofNat 0) (.ofNat 0)
    (.ofNat 0) 0 [] rfl rfl rfl).2 ⟨_, ⟨1, .envOpen 1 "db" 0 0, .returned 0⟩, hlog',
    ?_, 1, "db", 0, 0, rfl⟩).mpr
    (fun o ho _ _ => hclosed o ho) ⟨1, "key", 0, true⟩ (by simp [hdone]) hpid.symm rfl
  simp

/-- A library whose `mdbx_env_stat_ex` panics. -/
abbrev statPanics : Platform Unit := .scripted fun
  | .envStatEx _ _ => none
  | _ => some Status.success

/-- Open an environment, ask for its statistics, and close it. -/
def openStatClose : List Event :=
  [.entry (.envOpen "db" "key" false true (.ofNat 0) (.ofNat 0) (.ofNat 0) 0 []),
    .entry (.envStat (.env 0)), .entry (.envClose (.env 0))]

/-- After a panic and a close the environment is open still, and its key is free. -/
theorem poisoned_key_opens_again :
    (World.start () 1).admits statPanics openStatClose ∧
      ⟨1, "key", 0, true⟩ ∈ (World.start () 1).openings statPanics openStatClose ∧
      ((World.start () 1).after statPanics openStatClose).pid = 1 ∧
      ((World.start () 1).after statPanics openStatClose).StillOpen 0 ∧
      ((World.start () 1).after statPanics openStatClose).OpensNatively
        ((mdbxEnvOpen_ statPanics "db" "key" false true (.ofNat 0) (.ofNat 0) (.ofNat 0) 0 []).run
          ((World.start () 1).after statPanics openStatClose)).2 := by
  have hlog : ((World.start () 1).after statPanics openStatClose).log =
      [⟨1, .envStatEx 0 none, .panicked⟩, ⟨1, .envHeapRoots 0, .returned 0⟩,
        ⟨1, .envGetFlags 0, .returned 0⟩, ⟨1, .envOpen 0 "db" 0 0, .returned 0⟩,
        ⟨1, .envCreate 0, .returned 0⟩] := by
    decide +kernel
  have hlog' : ((mdbxEnvOpen_ statPanics "db" "key" false true (.ofNat 0) (.ofNat 0) (.ofNat 0) 0
      []).run ((World.start () 1).after statPanics openStatClose)).2.log =
      [⟨1, .envHeapRoots 1, .returned 0⟩, ⟨1, .envGetFlags 1, .returned 0⟩,
        ⟨1, .envOpen 1 "db" 0 0, .returned 0⟩, ⟨1, .envCreate 1, .returned 0⟩] ++
        ((World.start () 1).after statPanics openStatClose).log := by
    decide +kernel
  refine ⟨by decide +kernel, by decide +kernel, by decide +kernel, ⟨?_, ?_⟩, _,
    ⟨1, .envOpen 1 "db" 0 0, .returned 0⟩, hlog', ?_, 1, "db", 0, 0, rfl⟩
  · rw [hlog]
    exact ⟨⟨1, .envOpen 0 "db" 0 0, .returned 0⟩, by simp, ⟨"db", 0, 0, rfl⟩, rfl⟩
  · rw [hlog]
    simp [Closed, Call.Closes]
  · simp

end Mdbx
