import Mdbx.Opening

/-! Every run of a process keeps the invariant, whatever entry points it calls and whenever
finalizers and forks fall between and inside them. -/

namespace Mdbx

open ProofKit

variable {σ : Type} {lossy : Bool} {w w₀ : World σ}

/-- The calls that create an environment or commit, as far as a command may make them. -/
def Command.may : Command → NativeCall → Prop
  | txnCommit (.txn x), .txnCommit p => p.id = x
  | envOpen .., .envCreate _ => True
  | _, _ => False

section Steps

variable (L : Platform σ)

/-- Every entry point keeps the invariant and leaves by a raised condition if it does not return,
or where R fails to allocate. -/
theorem Command.entry (hL : lossy = false → L.Allocates) (command : Command) :
    Entry lossy command.may w₀ (command.run L) := by
  cases command with
  | envOpen => exact (mdbxEnvOpen_entry L hL (fun _ => trivial) _ _ _ _ _ _ _ _ _).map
  | envClose => exact (mdbxEnvClose_entry L _).map
  | envIsOpen => exact (mdbxEnvIsOpen_entry _).map
  | envReaderCheck => exact (mdbxEnvReaderCheck_entry L _).map
  | envPath => exact (mdbxEnvPath_entry L _).map
  | envGetFlags => exact (mdbxEnvGetFlags_entry L _).map
  | envSetFlags => exact (mdbxEnvSetFlags_entry L _ _ _).map
  | envSync => exact (mdbxEnvSync_entry L _ _ _).map
  | envStat => exact (mdbxEnvStat_entry L _).map
  | envInfo => exact (mdbxEnvInfo_entry L _).map
  | txnBegin => exact (mdbxTxnBegin_entry L hL _ _ _).map
  | txnCommit x =>
    refine (finishTxn_entry L x true fun _ p hx => ?_).map
    subst hx
    rfl
  | txnAbort => exact (mdbxTxnAbort_entry L _).map
  | txnState => exact (mdbxTxnState_entry L _).map
  | txnId => exact (mdbxTxnId_entry L _).map
  | txnStat => exact (mdbxTxnStat_entry L _ _).map
  | txnInfo => exact (mdbxTxnInfo_entry L _).map
  | get => exact (mdbxGet_entry L _ _ _).map
  | put => exact (mdbxPut_entry L _ _ _ _ _).map
  | del => exact (mdbxDel_entry L _ _ _).map
  | scan => exact (mdbxScan_entry L _ _ _ _ _ _).map
  | dbiOpen => exact (mdbxDbiOpen_entry L _ _ _).map
  | dbiDrop => exact (mdbxDbiDrop_entry L _ _ _).map
  | dbiList => exact (mdbxDbiList_entry L _).map
  | dbiSequence => exact (mdbxDbiSequence_entry L _ _ _).map
  | limits => exact (mdbxLimits_entry L _).map

/-- What one call of an entry point does to a sound world. -/
theorem Command.spec (hL : lossy = false → L.Allocates) (I : Inv { lossy } w) (command : Command) :
    Sound command.may w { lossy } ((command.run L).run w).2 ∧
      ∀ x, ((command.run L).run w).1 = .error x → Leaves lossy x := by
  have h := command.entry L hL w I.sound trivial
  rw [Triple] at h
  rcases hr : (command.run L).run w with ⟨x | a, w'⟩
  · rw [hr] at h
    exact ⟨h.1, fun y hy => by cases hy; exact h.2⟩
  · rw [hr] at h
    exact ⟨h.1, fun y hy => by cases hy⟩

/-- The same for an event. -/
def Event.may : Event → NativeCall → Prop
  | entry command, c => command.may c
  | _, _ => False

theorem finalize_sound (I : Inv { lossy } w) (object : Object) :
    Sound (fun _ => False) w { lossy } ((finalize L object).run w).2 := by
  obtain ⟨w', hrun, S, -⟩ : ∃ w', _ ∧ Sound (fun _ => False) w { lossy } w' ∧ _ :=
    finalize_spec L I rfl rfl rfl object (by simp)
  rw [hrun]
  exact S

/-- A fork leaves everything but the process as it is. -/
theorem Inv.forked (I : Inv { lossy } w) {child : Pid} (hchild : child ∉ w.pid :: w.forebears) :
    Inv { lossy } (w.forked child) := by
  have hpid : ∀ e h, w.envs e = some h → h.pid ≠ child := by
    rintro e h he rfl
    exact hchild (I.fresh.envPid he)
  exact
    { fresh := I.fresh.forked child
      graph := I.graph.forked hpid
      traced := { I.traced with }
      conserved := I.conserved.forked hpid
      safe := I.safe }

/-- One step of a process keeps the invariant. -/
theorem Step.inv (hL : lossy = false → L.Allocates) {w' : World σ} (I : Inv { lossy } w)
    (h : Step L w w') : Inv { lossy } w' := by
  obtain ⟨event, hallowed, rfl⟩ := h
  cases event with
  | entry command => exact (command.spec L hL I).1.inv
  | finalize object => exact (finalize_sound L I object).inv
  | fork child => exact I.forked hallowed

end Steps

/-- Nothing has happened yet. -/
theorem Inv.start (lib : σ) (pid : Pid) : Inv { lossy } (World.start lib pid) where
  fresh := by constructor <;> simp [World.start]
  graph := by constructor <;> simp [World.start]
  traced := by constructor <;> simp [World.start]
  conserved := by constructor <;> simp [World.start, Created, Begun]
  safe := trivial

theorem Steps.inv {L : Platform σ} (hL : lossy = false → L.Allocates) {w' : World σ}
    (I : Inv { lossy } w) (h : Steps L w w') : Inv { lossy } w' := by
  induction h with
  | refl => exact I
  | tail _ hstep ih => exact hstep.inv L hL ih

theorem Reachable.invariant {L : Platform σ} (hL : lossy = false → L.Allocates)
    (h : Reachable L w) : Inv { lossy } w := by
  obtain ⟨lib, pid, hsteps⟩ := h
  exact hsteps.inv hL (Inv.start lib pid)

theorem Reachable.inv {L : Platform σ} (hL : L.Allocates) (h : Reachable L w) : Inv {} w :=
  h.invariant fun _ => hL

/-- A run goes on. -/
theorem Reachable.steps {L : Platform σ} {w' : World σ} (h : Reachable L w) (h' : Steps L w w') :
    Reachable L w' := by
  obtain ⟨lib, pid, hsteps⟩ := h
  exact ⟨lib, pid, hsteps.trans h'⟩

/-- A run goes on by an entry point. -/
theorem Reachable.entry {L : Platform σ} (h : Reachable L w) (command : Command) :
    Reachable L ((command.run L).run w).2 := by
  obtain ⟨lib, pid, hsteps⟩ := h
  exact ⟨lib, pid, hsteps.tail ⟨.entry command, trivial, rfl⟩⟩

/-- No entry point reads a dangling pointer, converts a double out of range, or lets a panic or a
jump past the guard out. -/
theorem Reachable.raises {L : Platform σ} (hL : L.Allocates) (h : Reachable L w)
    (command : Command) {x : Exit} (hx : ((command.run L).run w).1 = .error x) :
    ∃ c, x = .stop c :=
  ((command.spec L (fun _ => hL) (h.inv hL)).2 x hx).resolve_right (by simp)

/-- Finalizers raise nothing. -/
theorem Reachable.finalizes {L : Platform σ} (h : Reachable L w) (object : Object) :
    ((finalize L object).run w).1 = .ok () := by
  have I : Inv { lossy := true } w := h.invariant (by simp)
  obtain ⟨w', hrun, -⟩ : ∃ w', _ ∧ Sound (fun _ => False) w { lossy := true } w' ∧ _ :=
    finalize_spec L I rfl rfl rfl object (by simp)
  rw [hrun]

/-! ### Runs that can be computed -/

/-- The world after the events of a list. -/
def World.after (L : Platform σ) : World σ → List Event → World σ
  | w, [] => w
  | w, event :: rest => (event.next L w).after L rest

/-- Whether each event is allowed where it happens. -/
def World.admits (L : Platform σ) : World σ → List Event → Prop
  | _, [] => True
  | w, event :: rest => event.Allowed w ∧ (event.next L w).admits L rest

instance (L : Platform σ) : (w : World σ) → (events : List Event) → Decidable (w.admits L events)
  | _, [] => .isTrue trivial
  | w, event :: rest =>
    have := instDecidableAdmits L (event.next L w) rest
    inferInstanceAs (Decidable (_ ∧ _))

theorem World.after_append (L : Platform σ) (w : World σ) (before rest : List Event) :
    w.after L (before ++ rest) = (w.after L before).after L rest := by
  induction before generalizing w with
  | nil => rfl
  | cons event before ih => exact ih (event.next L w)

theorem World.after_steps {L : Platform σ} {w : World σ} {events : List Event}
    (h : w.admits L events) : Steps L w (w.after L events) := by
  induction events generalizing w with
  | nil => exact .refl
  | cons event rest ih => exact .head ⟨event, h.1, rfl⟩ (ih h.2)

theorem exists_liveTxn {w : World σ} {e : EnvRef} {t : TxnRef}
    (h : (w.txns t).bind TxnHandle.owner = some e) : ∃ k, LiveTxn w e t k := by
  obtain ⟨k, hk, howner⟩ := Option.bind_eq_some_iff.mp h
  exact ⟨k, hk, howner⟩

/-- A payload that says nothing. -/
def NativeCall.blank : (c : NativeCall) → c.Payload
  | envGetFlags _ | txnFlags _ | txnId _ | dbiOpen _ _ _ | cursorOpen _ _
  | dbiSequence _ _ _ => (0 : ℕ)
  | envHeapRoots _ => (none, none)
  | envGetPath _ => none
  | readerCheck _ | cmp _ _ _ _ => (0 : ℤ)
  | envStatEx _ _ | dbiStat _ _ => ⟨0, 0, 0, 0, 0, 0, 0⟩
  | envInfoEx _ _ => ⟨0, 0, 0, 0, 0, 0, 0, 0, 0, 0, 0, 0, 0, 0⟩
  | get _ _ _ => []
  | cursorGet _ _ => ([], [])
  | enumerateTables _ _ => []
  | limits _ => ⟨0, 0, 0, 0, 0, 0, 0, 0⟩
  | envCreate _ | envSetOption _ _ _ | envSetGeometry _ _ | envOpen _ _ _ _ | envSetFlags _ _ _
  | envSyncEx _ _ _ | envClose _ | txnBegin _ _ | txnCommit _ | txnAbort _ _ | put _ _ _ _ _
  | del _ _ _ | cursorClose _ | drop _ _ _ => ()

/-- A library that answers each call by its status, or panics in it, and a collector that never
runs. -/
def Platform.scripted (answer : NativeCall → Option Status) : Platform Unit where
  call c _ := (if c.unguarded then .ok ⟨Status.success, c.blank⟩ else
    match answer c with
    | some rc => .ok ⟨rc, c.blank⟩
    | none => .error ⟨"", "", 0⟩, ())
  quiet c s h := by simp [h]
  badAlloc _ := (false, ())
  allocate _ := (⟨[], false⟩, ())
  strerror _ := ""
  wide := true

theorem Platform.scripted_allocates (answer : NativeCall → Option Status) :
    (Platform.scripted answer).Allocates := fun _ => rfl

end Mdbx
