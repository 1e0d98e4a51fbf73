import Mdbx.Handles

/-! The panic guards of `r_mdbx_hooks.cpp`: a chain of frames, a jump to the innermost one, and the
record of the last panic.  Nested guards behave as nested exception handlers do, and `runGuarded`,
which the rest of the development uses, is one of these. -/

namespace Mdbx

open ProofKit

/-! ### Texts in fixed buffers -/

/-- The C string at the start of some bytes. -/
def cString (source : Bytes) : Bytes := source.takeWhile (· ≠ nul)

/-- The longest start of a C string that a buffer has room for. -/
def fitted (size : ℕ) (source : Bytes) : Bytes := (cString source).take (size - 1)

/-- The loop of `mdbx_r_copy_text`, from `index` on. -/
def copyLoop (index : ℕ) : Bytes → Bytes → Bytes
  | [], destination => destination.set index nul
  | byte :: source, destination =>
    if index + 1 < destination.length ∧ byte ≠ nul then
      copyLoop (index + 1) source (destination.set index byte)
    else destination.set index nul

/-- `mdbx_r_copy_text` into a buffer. -/
def mdbxRCopyText (destination : Bytes) (source : Option Bytes) : Bytes :=
  if destination.length = 0 then destination else copyLoop 0 (source.getD []) destination

theorem copyLoop_length (source : Bytes) (index : ℕ) (destination : Bytes) :
    (copyLoop index source destination).length = destination.length := by
  induction source generalizing index destination with
  | nil => exact List.length_set
  | cons byte source ih =>
    rw [copyLoop]
    split
    · rw [ih, List.length_set]
    · exact List.length_set

theorem mdbxRCopyText_length (destination : Bytes) (source : Option Bytes) :
    (mdbxRCopyText destination source).length = destination.length := by
  rw [mdbxRCopyText]
  split
  · rfl
  · exact copyLoop_length _ _ _

/-- A C string ends where the buffer is set to zero. -/
theorem cString_set_zero {destination : Bytes} {index : ℕ} (h : index < destination.length)
    (hfront : ∀ b ∈ destination.take index, b ≠ nul) :
    cString (destination.set index nul) = destination.take index := by
  have hsplit : destination.set index nul =
      destination.take index ++ nul :: destination.drop (index + 1) :=
    List.set_eq_take_append_cons_drop.trans (if_pos h)
  rw [hsplit, cString, List.takeWhile_append_of_pos (by simpa using hfront)]
  simp

/-- What the loop leaves: what was copied before, and what fits of the rest. -/
theorem cString_copyLoop (source : Bytes) {index : ℕ} {destination : Bytes}
    (h : index < destination.length) (hfront : ∀ b ∈ destination.take index, b ≠ nul) :
    cString (copyLoop index source destination) =
      destination.take index ++ (cString source).take (destination.length - 1 - index) := by
  induction source generalizing index destination with
  | nil => simpa [copyLoop, cString] using cString_set_zero h hfront
  | cons byte source ih =>
    rw [copyLoop]
    split
    · obtain ⟨hroom, hbyte⟩ := ‹index + 1 < destination.length ∧ byte ≠ nul›
      have htake : (destination.set index byte).take (index + 1) =
          destination.take index ++ [byte] := by
        rw [List.take_add_one, List.take_set_of_le le_rfl, List.getElem?_set_self h]
        rfl
      rw [ih (by simpa using hroom) ?_, htake, List.length_set, List.append_assoc]
      · have hlen : destination.length - 1 - index = destination.length - 1 - (index + 1) + 1 := by
          omega
        rw [hlen, cString, cString, List.takeWhile_cons_of_pos (by simpa using hbyte),
          List.take_succ_cons]
        rfl
      · rw [htake]
        intro b hb
        rcases List.mem_append.mp hb with hb | hb
        · exact hfront b hb
        · exact (List.mem_singleton.mp hb).symm ▸ hbyte
    · have hstop : ¬ (index + 1 < destination.length ∧ byte ≠ nul) := ‹_›
      rw [cString_set_zero h hfront]
      rcases not_and_or.mp hstop with hfull | hzero
      · have hnone : destination.length - 1 - index = 0 := by omega
        rw [hnone, List.take_zero, List.append_nil]
      · have hnil : cString (byte :: source) = [] := by
          rw [cString, List.takeWhile_cons_of_neg (by simpa using hzero)]
        rw [hnil, List.take_nil, List.append_nil]

/-- A buffer reads as the longest start of the text that it has room for. -/
theorem cString_copyText {destination : Bytes} (h : 0 < destination.length) (source : Bytes) :
    cString (mdbxRCopyText destination (some source)) = fitted destination.length source := by
  rw [mdbxRCopyText, if_neg h.ne', Option.getD_some, cString_copyLoop source h (by simp)]
  rfl

/-! ### The machine -/

/-- What a guarded call hands back: that it returned, or that libmdbx panicked in it and, unless the
caller passed no place for it, the record of the panic. -/
inductive GuardResult where
  | ok
  | panic (info : Option PanicInfo)
  deriving DecidableEq

/-- The address of the data that a guarded function and its poison callback work on. -/
abbrev Pointer := ℕ

/-- Code below or around guards, over data of type `S`: it may read and write its data, panic, and
make a guarded call on a pointer, with or without a poison callback and a place for the record, and
go on by what that hands back. -/
inductive Code (S : Type) : Type where
  | done
  | act (f : S → S) (next : Code S)
  | look (next : S → Code S)
  | panic (message function : Option Bytes) (line : ℕ)
  | guarded (call : Code S) (data : Pointer) (poison : Option (Pointer → S → S)) (wants : Bool)
      (next : GuardResult → Code S)

/-- `mdbx_r_panic_info`, two character arrays and a line. -/
structure PanicRecord where
  message : Bytes
  function : Bytes
  line : ℕ

/-- The record as its texts read. -/
def PanicRecord.info (r : PanicRecord) : PanicInfo :=
  ⟨(cString r.message).text, (cString r.function).text, r.line⟩

/-- What one thread has: the innermost frame, the last panic, the number of the next frame, the
data, and on which pointers poison callbacks have run, the latest last.  No two calls share the
number of a frame, so that a jump to one that has returned shows. -/
structure Machine (S : Type) where
  active : Option ℕ
  lastPanic : PanicRecord
  next : ℕ
  data : S
  poisoned : List Pointer

/-- How code ends: it returns, it jumps to a frame, or R raises an error. -/
inductive Ending where
  | returned
  | jumped (frame : ℕ)
  | raised (message function : Bytes) (line : ℕ)
  deriving DecidableEq

/-- The bytes of a text of ASCII characters. -/
def asciiBytes (text : String) : Bytes :=
  text.toList.map fun c => ⟨c.toNat % 256, Nat.mod_lt _ (by decide)⟩

def unknownAssertion : Bytes := asciiBytes "(unknown assertion)"

def unknownFunction : Bytes := asciiBytes "(unknown function)"

section Machine

variable {S : Type}

/-- `mdbx_r_panic`. -/
def mdbxRPanic (message function : Option Bytes) (line : ℕ) (m : Machine S) : Ending × Machine S :=
  match m.active with
  | some frame =>
    (.jumped frame, { m with lastPanic :=
      ⟨mdbxRCopyText m.lastPanic.message (some (message.getD unknownAssertion)),
        mdbxRCopyText m.lastPanic.function (some (function.getD unknownFunction)), line⟩ })
  | none => (.raised (cString (message.getD unknownAssertion))
      (cString (function.getD unknownFunction)) line, m)

/-- Run a poison callback that is not null. -/
def runPoison (data : Pointer) (poison : Option (Pointer → S → S)) (m : Machine S) : Machine S :=
  match poison with
  | none => m
  | some f => { m with data := f data m.data, poisoned := m.poisoned ++ [data] }

/-- `mdbx_r_run_guarded`; control leaves it by another ending where that is not a jump to its own
frame. -/
def mdbxRRunGuarded (function : Machine S → Ending × Machine S) (data : Pointer)
    (poison : Option (Pointer → S → S)) (wants : Bool) (m : Machine S) :
    Except Ending GuardResult × Machine S :=
  let frame := m.next
  let previous := m.active
  match function { m with active := some frame, next := frame + 1 } with
  | (.returned, m) => (.ok .ok, { m with active := previous })
  | (.jumped target, m) =>
    if target = frame then
      let m := runPoison data poison { m with active := previous }
      (.ok (.panic (if wants then some m.lastPanic.info else none)), m)
    else (.error (.jumped target), m)
  | (ending, m) => (.error ending, m)

/-- What code does. -/
def Code.run : Code S → Machine S → Ending × Machine S
  | done, m => (.returned, m)
  | act f next, m => next.run { m with data := f m.data }
  | look next, m => (next m.data).run m
  | panic message function line, m => mdbxRPanic message function line m
  | guarded call data poison wants next, m =>
    match mdbxRRunGuarded call.run data poison wants m with
    | (.ok result, m) => (next result).run m
    | (.error ending, m) => (ending, m)

/-! ### What guards are for -/

/-- A panic, with the texts that libmdbx gave. -/
structure Panic where
  message : Option Bytes
  function : Option Bytes
  line : ℕ

/-- The record that a guard hands out. -/
def Panic.info (p : Panic) : PanicInfo :=
  ⟨(fitted 256 (p.message.getD unknownAssertion)).text,
    (fitted 128 (p.function.getD unknownFunction)).text, p.line⟩

/-- The record is that of the panic: each text is what fits of the one given. -/
structure PanicRecord.Reads (r : PanicRecord) (p : Panic) : Prop where
  message : cString r.message = fitted 256 (p.message.getD unknownAssertion)
  function : cString r.function = fitted 128 (p.function.getD unknownFunction)
  line : r.line = p.line

/-- The error that R raises. -/
def Panic.raised (p : Panic) : Ending :=
  .raised (cString (p.message.getD unknownAssertion)) (cString (p.function.getD unknownFunction))
    p.line

/-- The data, and the pointers that were poisoned. -/
abbrev Client (S : Type) := S × List Pointer

/-- How a guarded call ends, by how its function ended. -/
def handed (wants : Bool) : Option Panic → GuardResult
  | none => .ok
  | some p => .panic (if wants then some p.info else none)

/-- A guard poisons its own data, and only where its function panicked. -/
def settled (data : Pointer) (poison : Option (Pointer → S → S)) :
    Option Panic → Client S → Client S
  | some _, c =>
    match poison with
    | none => c
    | some f => (f data c.1, c.2 ++ [data])
  | none, c => c

/-- Guards as handlers: a panic ends the function of the innermost guard. -/
def Code.eval : Code S → Client S → Option Panic × Client S
  | done, c => (none, c)
  | act f next, c => next.eval (f c.1, c.2)
  | look next, c => (next c.1).eval c
  | panic message function line, c => (some ⟨message, function, line⟩, c)
  | guarded call data poison wants next, c =>
    let (ended, c) := call.eval c
    (next (handed wants ended)).eval (settled data poison ended c)

/-! ### The machine does what guards are for -/

def Machine.client (m : Machine S) : Client S := (m.data, m.poisoned)

/-- The buffers have their sizes, and the active frame has been numbered. -/
structure Machine.Sound (m : Machine S) : Prop where
  message : m.lastPanic.message.length = 256
  function : m.lastPanic.function.length = 128
  active : ∀ frame, m.active = some frame → frame < m.next

/-- How code ends by how guards mean it to: it returns, or a panic jumps to the active frame, or
becomes an error where there is none. -/
def Machine.ending (active : Option ℕ) : Option Panic → Ending
  | none => .returned
  | some p =>
    match active with
    | some frame => .jumped frame
    | none => p.raised

/-- What code leaves, started in `m`. -/
structure Machine.Ends (m : Machine S) (ended : Option Panic × Client S)
    (r : Ending × Machine S) : Prop where
  ending : r.1 = Machine.ending m.active ended.1
  active : r.2.active = m.active
  client : r.2.client = ended.2
  sound : r.2.Sound
  next : m.next ≤ r.2.next
  record : ∀ p, ended.1 = some p → m.active ≠ none → r.2.lastPanic.Reads p

/-- What a guarded call leaves. -/
structure Machine.Guards (m : Machine S) (wants : Bool) (data : Pointer)
    (poison : Option (Pointer → S → S)) (ended : Option Panic × Client S)
    (r : Except Ending GuardResult × Machine S) : Prop where
  result : r.1 = .ok (handed wants ended.1)
  active : r.2.active = m.active
  client : r.2.client = settled data poison ended.1 ended.2
  record : ∀ p, ended.1 = some p → r.2.lastPanic.Reads p
  sound : r.2.Sound
  next : m.next ≤ r.2.next

theorem PanicRecord.Reads.info_eq {r : PanicRecord} {p : Panic} (h : r.Reads p) :
    r.info = p.info := by
  rw [PanicRecord.info, Panic.info, h.message, h.function, h.line]

theorem mdbxRPanic_ends (message function : Option Bytes) (line : ℕ) {m : Machine S} (h : m.Sound) :
    m.Ends (some ⟨message, function, line⟩, m.client) (mdbxRPanic message function line m) := by
  have hmessage : 0 < m.lastPanic.message.length := by rw [h.message]; decide
  have hfunction : 0 < m.lastPanic.function.length := by rw [h.function]; decide
  rcases m with ⟨_ | frame, record, next, data, poisoned⟩
  · exact ⟨rfl, rfl, rfl, h, le_rfl, fun p _ hne => absurd rfl hne⟩
  · refine ⟨rfl, rfl, rfl, ⟨?_, ?_, h.active⟩, le_rfl, fun p hp _ => ?_⟩
    · exact (mdbxRCopyText_length _ _).trans h.message
    · exact (mdbxRCopyText_length _ _).trans h.function
    · obtain rfl := Option.some.inj hp
      refine ⟨?_, ?_, rfl⟩
      · rw [← h.message]
        exact cString_copyText hmessage _
      · rw [← h.function]
        exact cString_copyText hfunction _

/-- A guarded call catches what its function does, whatever that is. -/
theorem mdbxRRunGuarded_guards {call : Code S} (data : Pointer)
    (poison : Option (Pointer → S → S)) (wants : Bool) {m : Machine S} (h : m.Sound)
    (hcall : ∀ m : Machine S, m.Sound → m.Ends (call.eval m.client) (call.run m)) :
    m.Guards wants data poison (call.eval m.client)
      (mdbxRRunGuarded call.run data poison wants m) := by
  have hentered : Machine.Sound { m with active := some m.next, next := m.next + 1 } :=
    ⟨h.message, h.function, fun frame hframe => by cases hframe; exact Nat.lt_succ_self _⟩
  have E := hcall _ hentered
  rw [mdbxRRunGuarded]
  simp only
  have hclient :
      Machine.client { m with active := some m.next, next := m.next + 1 } = m.client := rfl
  rw [hclient] at E
  rcases hrun : call.run { m with active := some m.next, next := m.next + 1 } with ⟨ending, m'⟩
  rcases hended : call.eval m.client with ⟨ended, client⟩
  rw [hrun, hended] at E
  have hnext : m.next ≤ m'.next := (Nat.le_succ _).trans E.next
  have hsound : Machine.Sound { m' with active := m.active } :=
    ⟨E.sound.message, E.sound.function, fun frame hframe => (h.active frame hframe).trans_le hnext⟩
  cases ended with
  | none =>
    obtain rfl : ending = .returned := E.ending
    exact ⟨rfl, rfl, E.client, fun p hp => absurd hp (by simp), hsound, hnext⟩
  | some p =>
    obtain rfl : ending = .jumped m.next := E.ending
    have hrecord : ∀ q, some p = some q → m'.lastPanic.Reads q := fun q hq =>
      E.record q hq (by simp)
    have hinfo : m'.lastPanic.info = p.info := (hrecord p rfl).info_eq
    have hdata : m'.client = client := E.client
    simp only [if_true]
    cases poison with
    | none => exact ⟨by simp only [runPoison, hinfo, handed], rfl, hdata, hrecord, hsound, hnext⟩
    | some f =>
      refine ⟨by simp only [runPoison, hinfo, handed], rfl, ?_, hrecord,
        ⟨hsound.message, hsound.function, hsound.active⟩, hnext⟩
      rw [← hdata]
      rfl

/-- Code does on the machine what guards mean it to do. -/
theorem Code.run_ends (code : Code S) {m : Machine S} (h : m.Sound) :
    m.Ends (code.eval m.client) (code.run m) := by
  induction code generalizing m with
  | done => exact ⟨rfl, rfl, rfl, h, le_rfl, fun p hp => by cases hp⟩
  | act f next ih =>
    have E := ih (m := { m with data := f m.data }) ⟨h.message, h.function, h.active⟩
    exact ⟨E.ending, E.active, E.client, E.sound, E.next, E.record⟩
  | look next ih => exact ih m.data h
  | panic message function line => exact mdbxRPanic_ends message function line h
  | guarded call data poison wants next ihcall ihnext =>
    have G := mdbxRRunGuarded_guards data poison wants h fun m hm => ihcall hm
    rw [Code.run, Code.eval]
    rcases hrun : mdbxRRunGuarded call.run data poison wants m with ⟨result, m'⟩
    rcases hended : call.eval m.client with ⟨ended, client⟩
    rw [hrun, hended] at G
    obtain rfl : result = .ok (handed wants ended) := G.result
    have E := ihnext (handed wants ended) G.sound
    have hclient : m'.client = settled data poison ended client := G.client
    have hactive : m'.active = m.active := G.active
    rw [hclient] at E
    simp only
    refine ⟨?_, ?_, E.client, E.sound, G.next.trans E.next, ?_⟩
    · rw [← hactive]
      exact E.ending
    · exact E.active.trans hactive
    · rw [← hactive]
      exact E.record

/-! ### Every run of a thread -/

/-- A thread that has made no call yet. -/
def Machine.start (data : S) : Machine S :=
  ⟨none, ⟨List.replicate 256 nul, List.replicate 128 nul, 0⟩, 0, data, []⟩

/-- The machine after code has run outside any guard, one after the other. -/
def Machine.after : Machine S → List (Code S) → Machine S
  | m, [] => m
  | m, code :: rest => (code.run m).2.after rest

theorem Machine.start_sound (data : S) : (Machine.start data).Sound where
  message := List.length_replicate
  function := List.length_replicate
  active frame hframe := by cases hframe

/-- Outside, no guard is active, whatever has run. -/
theorem Machine.after_idle (codes : List (Code S)) {m : Machine S} (h : m.Sound)
    (hidle : m.active = none) : (m.after codes).Sound ∧ (m.after codes).active = none := by
  induction codes generalizing m with
  | nil => exact ⟨h, hidle⟩
  | cons code rest ih =>
    have E := code.run_ends h
    exact ih E.sound (E.active.trans hidle)

/-- Outside any guard no code jumps. -/
theorem Code.run_idle (code : Code S) {m : Machine S} (h : m.Sound) (hidle : m.active = none)
    (frame : ℕ) : (code.run m).1 ≠ .jumped frame := by
  have E := code.run_ends h
  rw [E.ending, hidle]
  cases (code.eval m.client).1 <;> simp [Machine.ending, Panic.raised]

/-- What fits is the longest start of a C string that leaves room for the zero behind it. -/
theorem fitted_longest {size : ℕ} (h : 0 < size) (source : Bytes) :
    fitted size source <+: cString source ∧ (fitted size source).length < size ∧
      ∀ start, start <+: cString source → start.length < size → start <+: fitted size source := by
  refine ⟨List.take_prefix _ _, ?_, fun start hstart hlen => ?_⟩
  · have := List.length_take_le (size - 1) (cString source)
    unfold fitted
    omega
  · exact List.prefix_take_iff.mpr ⟨hstart, by omega⟩

/-- A guarded call around one that ends its function: the inner one takes the panic, and the outer
one returns and poisons nothing. -/
theorem mdbxRRunGuarded_nested (call : Code S) (data data' : Pointer)
    (poison poison' : Option (Pointer → S → S)) (wants wants' : Bool) {m : Machine S}
    (h : m.Sound) :
    m.Guards wants' data' poison'
      (none, settled data poison (call.eval m.client).1 (call.eval m.client).2)
      (mdbxRRunGuarded (Code.guarded call data poison wants fun _ => .done).run data' poison' wants'
        m) :=
  mdbxRRunGuarded_guards data' poison' wants' h fun _ hm =>
    (Code.guarded call data poison wants fun _ => .done).run_ends hm

/-- Guards keep the discipline of a stack, from every machine that a thread can have.  A guarded
call restores the active guard, hands out its own function's panic and no other, and has run its
poison callback once then and not at all otherwise; a call around it does not see the panic.  Code
ends by a jump only where a guard is active, and then to that one; outside, a panic becomes an error
of R. -/
theorem guards_nest (m : Machine S) (h : m.Sound) :
    (∀ (call : Code S) data poison wants, m.Guards wants data poison (call.eval m.client)
        (mdbxRRunGuarded call.run data poison wants m)) ∧
      (∀ (call : Code S) data data' poison poison' wants wants', m.Guards wants' data' poison'
        (none, settled data poison (call.eval m.client).1 (call.eval m.client).2)
        (mdbxRRunGuarded (Code.guarded call data poison wants fun _ => .done).run data' poison'
          wants' m)) ∧
      (∀ code : Code S, m.Ends (code.eval m.client) (code.run m)) ∧
      (m.active = none → ∀ (codes : List (Code S)) (code : Code S) frame,
        ((m.after codes).active = none) ∧ (code.run (m.after codes)).1 ≠ .jumped frame) := by
  refine ⟨fun call data poison wants => ?_, fun call data data' poison poison' wants wants' => ?_,
    fun code => code.run_ends h, fun hidle codes code frame => ?_⟩
  · exact mdbxRRunGuarded_guards data poison wants h fun _ hm => call.run_ends hm
  · exact mdbxRRunGuarded_nested call data data' poison poison' wants wants' h
  · obtain ⟨hsound, hidle⟩ := Machine.after_idle codes h hidle
    exact ⟨hidle, code.run_idle hsound hidle frame⟩

end Machine

/-- A panic in a guarded call that clears a flag, below another guarded call. -/
def flagged : Code ℕ :=
  .guarded (.panic none (some (asciiBytes "f")) 7) 3 (some fun _ _ => 0) true fun _ => .done

theorem guards_nest_flagged : (Machine.start 5).Guards true 4 (some fun _ _ => 9) (none, (0, [3]))
    (mdbxRRunGuarded flagged.run 4 (some fun _ _ => 9) true (Machine.start 5)) :=
  (guards_nest (Machine.start 5) (Machine.start_sound 5)).2.1
    (.panic none (some (asciiBytes "f")) 7) 3 4
    (some fun _ _ => 0) (some fun _ _ => 9) true true

/-! ### The guard of the package -/

section Package

variable {σ : Type}

/-- Code as a program of the package. -/
def Code.prog : Code (World σ) → Pkg σ Unit
  | done => pure ()
  | act f next => do
    Prog.modify f
    next.prog
  | look next => do
    let w ← Prog.get
    (next w).prog
  | panic message function line => Prog.exit (.panic (Panic.info ⟨message, function, line⟩))
  | guarded call data poison wants next => do
    let result ← runGuarded call.prog (ifSome poison fun f => Prog.modify (f data))
    match result with
    | .ok _ => (next .ok).prog
    | .error info => (next (.panic (if wants then some info else none))).prog

/-- `runGuarded` is what guards are for. -/
theorem Code.prog_run (code : Code (World σ)) (w : World σ) (poisoned : List Pointer) :
    code.prog.run w = (match (code.eval (w, poisoned)).1 with
      | none => .ok ()
      | some p => .error (.panic p.info), (code.eval (w, poisoned)).2.1) := by
  induction code generalizing w poisoned with
  | done => rfl
  | act f next ih => exact ih (f w) poisoned
  | look next ih => exact ih w w poisoned
  | panic message function line => rfl
  | guarded call data poison wants next ihcall ihnext =>
    have hcall := ihcall w poisoned
    rw [Code.prog, Code.eval]
    rcases hended : call.eval (w, poisoned) with ⟨ended, w', poisoned'⟩
    rw [hended] at hcall
    cases ended with
    | none =>
      have hguarded : (runGuarded call.prog (ifSome poison fun f => Prog.modify (f data))).run w =
          (.ok (.ok ()), w') := by
        rw [runGuarded, Prog.bind_ok (Prog.run_attempt _ _), hcall]
        rfl
      rw [Prog.bind_ok hguarded]
      exact ihnext .ok w' poisoned'
    | some p =>
      have hguarded : (runGuarded call.prog (ifSome poison fun f => Prog.modify (f data))).run w =
          (.ok (.error p.info), (settled data poison (some p) (w', poisoned')).1) := by
        rw [runGuarded, Prog.bind_ok (Prog.run_attempt _ _), hcall]
        cases poison <;> rfl
      rw [Prog.bind_ok hguarded]
      have hnext := ihnext (.panic (if wants then some p.info else none))
        (settled data poison (some p) (w', poisoned')).1
        (settled data poison (some p) (w', poisoned')).2
      exact hnext

end Package

end Mdbx
