import Mdbx.Command

/-! What a trace of libmdbx calls says about native objects, and which calls are permitted after
it. -/

namespace Mdbx

/-- The environment whose state a call can panic in. -/
def NativeCall.group (c : NativeCall) : Option EnvPtr :=
  match c.env?, c.txn? with
  | some env, _ => some env
  | none, some txn => some txn.env
  | none, none => none

/-- The transaction that a call asks libmdbx to end. -/
def NativeCall.finishes : NativeCall → Option TxnPtr
  | txnCommit txn | txnAbort txn _ => some txn
  | _ => none

/-- The calls that neither create nor end a native object. -/
def NativeCall.plain : NativeCall → Bool
  | envCreate _ | envClose _ | txnBegin _ _ | txnCommit _ | txnAbort _ _ => false
  | _ => true

/-- The calls that few entry points make. -/
def NativeCall.reserved : NativeCall → Bool
  | envCreate _ | txnCommit _ => true
  | _ => false

/-- A call that works in no environment is one that the guard is not needed for. -/
theorem NativeCall.unguarded_of_ungrouped (c : NativeCall) (hc : c.plain = true)
    (hgroup : c.group = none) : c.unguarded = true := by
  cases c <;> simp_all [group, env?, txn?, plain, unguarded]

/-- The environment that a call must find without live transactions: a close, and a question about
the environment that names no transaction. -/
def NativeCall.alone? : NativeCall → Option EnvPtr
  | envClose env | envStatEx env none | envInfoEx env none => some env
  | _ => none

namespace Call

/-- Hands the environment `e` to the process `pid`. -/
def Creates (c : Call) (pid : Pid) (e : EnvPtr) : Prop :=
  c.pid = pid ∧ c.call = .envCreate e ∧ c.outcome = .returned Status.success

/-- Hands the transaction `t` to the process `pid`. -/
def Begins (c : Call) (pid : Pid) (t : TxnPtr) : Prop :=
  c.pid = pid ∧ (∃ flags, c.call = .txnBegin t flags) ∧ c.outcome = .returned Status.success

/-- A close frees the environment however it returns. -/
def Closes (c : Call) (e : EnvPtr) : Prop := c.call = .envClose e ∧ c.outcome ≠ .panicked

def ClosePanics (c : Call) (e : EnvPtr) : Prop := c.call = .envClose e ∧ c.outcome = .panicked

/-- A commit or an abort ends its transaction unless it reports a thread mismatch. -/
def Ends (c : Call) (t : TxnPtr) : Prop :=
  c.call.finishes = some t ∧ c.outcome ≠ .panicked ∧
    c.outcome ≠ .returned Status.threadMismatch

def Commits (c : Call) (t : TxnPtr) : Prop :=
  c.call = .txnCommit t ∧ c.outcome = .returned Status.success

/-- An abort made where nothing looks at its status. -/
def TearsDown (c : Call) (t : TxnPtr) : Prop :=
  c.call = .txnAbort t .teardown ∧ c.outcome ≠ .panicked

def Panics (c : Call) (e : EnvPtr) : Prop := c.call.group = some e ∧ c.outcome = .panicked

end Call

section Traces

variable (log : List Call)

def Created (pid : Pid) (e : EnvPtr) : Prop := ∃ c ∈ log, c.Creates pid e
def Begun (pid : Pid) (t : TxnPtr) : Prop := ∃ c ∈ log, c.Begins pid t
def Closed (e : EnvPtr) : Prop := ∃ c ∈ log, c.Closes e
def ClosePanicked (e : EnvPtr) : Prop := ∃ c ∈ log, c.ClosePanics e
def Ended (t : TxnPtr) : Prop := ∃ c ∈ log, c.Ends t
def Committed (t : TxnPtr) : Prop := ∃ c ∈ log, c.Commits t
def TornDown (t : TxnPtr) : Prop := ∃ c ∈ log, c.TearsDown t
def Panicked (e : EnvPtr) : Prop := ∃ c ∈ log, c.Panics e

/-- How often the call `c` has been made. -/
def callsOf (c : NativeCall) (log : List Call) : ℕ := log.countP fun c' => c'.call == c

/-- Ended, as far as the package looks. -/
def Released (t : TxnPtr) : Prop := Ended log t ∨ TornDown log t

/-- The process `pid` may hand `e` to libmdbx: it was created there, it is not closed, and no call
on it or on its transactions has panicked. -/
def EnvUsable (pid : Pid) (e : EnvPtr) : Prop :=
  Created log pid e ∧ ¬ Closed log e ∧ ¬ Panicked log e

/-- The process `pid` may hand `t` to libmdbx. -/
def TxnUsable (pid : Pid) (t : TxnPtr) : Prop :=
  EnvUsable log pid t.env ∧ Begun log pid t ∧ ¬ Ended log t

/-- Whether the call `c` may follow the trace. -/
def Permitted (c : Call) : Prop :=
  (∀ e, c.call.env? = some e → EnvUsable log c.pid e) ∧
    ∀ t, c.call.txn? = some t → TxnUsable log c.pid t

/-- Whether each transaction begun on an environment is released before a call that must find it
without any. -/
def AlonePermitted (c : Call) : Prop :=
  ∀ e, c.call.alone? = some e → ∀ pid t, Begun log pid ⟨e, t⟩ → Released log ⟨e, t⟩

/-- Whether the number that a call hands out is one that no earlier call asked for. -/
def NumberUnused (c : Call) : Prop :=
  (∀ e, c.call = .envCreate e → ∀ c' ∈ log, c'.call ≠ .envCreate e) ∧
    ∀ t flags, c.call = .txnBegin t flags →
      ∀ c' ∈ log, ∀ t' flags', c'.call = .txnBegin t' flags' → t'.id ≠ t.id

end Traces

/-- Whatever works in an environment needs it usable. -/
theorem Permitted.group {log : List Call} {c : Call} (h : Permitted log c) {e : EnvPtr}
    (hgroup : c.call.group = some e) : EnvUsable log c.pid e := by
  unfold NativeCall.group at hgroup
  split at hgroup
  · cases hgroup
    exact h.1 _ ‹_›
  · cases hgroup
    exact (h.2 _ ‹_›).1
  · cases hgroup

/-- Every call was permitted when it was made; where transactions may be lost, a close may find
one. -/
def Safe (lossy : Bool) : List Call → Prop
  | [] => True
  | c :: past => Permitted past c ∧ (lossy = false → AlonePermitted past c) ∧ NumberUnused past c ∧
    Safe lossy past

theorem alonePermitted_of {c : Call} (h : c.call.alone? = none) (log : List Call) {lossy : Bool} :
    lossy = false → AlonePermitted log c := by
  intro _ e he
  rw [h] at he
  cases he

section Cons

variable (c : Call) (log : List Call) (pid : Pid) (e : EnvPtr) (t : TxnPtr)

@[simp] theorem created_cons : Created (c :: log) pid e ↔ c.Creates pid e ∨ Created log pid e := by
  simp [Created]

@[simp] theorem begun_cons : Begun (c :: log) pid t ↔ c.Begins pid t ∨ Begun log pid t := by
  simp [Begun]

@[simp] theorem closed_cons : Closed (c :: log) e ↔ c.Closes e ∨ Closed log e := by
  simp [Closed]

@[simp] theorem closePanicked_cons :
    ClosePanicked (c :: log) e ↔ c.ClosePanics e ∨ ClosePanicked log e := by
  simp [ClosePanicked]

@[simp] theorem ended_cons : Ended (c :: log) t ↔ c.Ends t ∨ Ended log t := by
  simp [Ended]

@[simp] theorem committed_cons : Committed (c :: log) t ↔ c.Commits t ∨ Committed log t := by
  simp [Committed]

@[simp] theorem tornDown_cons : TornDown (c :: log) t ↔ c.TearsDown t ∨ TornDown log t := by
  simp [TornDown]

theorem released_cons :
    Released (c :: log) t ↔ (c.Ends t ∨ c.TearsDown t) ∨ Released log t := by
  rw [Released, Released, ended_cons, tornDown_cons]
  exact or_or_or_comm

@[simp] theorem panicked_cons : Panicked (c :: log) e ↔ c.Panics e ∨ Panicked log e := by
  simp [Panicked]

end Cons

section Plain

variable {c : Call} (h : c.call.plain = true) (pid : Pid) (e : EnvPtr) (t : TxnPtr)
include h

theorem Call.not_creates_of_plain : ¬ c.Creates pid e := by
  rintro ⟨-, hc, -⟩
  simp [hc, NativeCall.plain] at h

theorem Call.not_begins_of_plain : ¬ c.Begins pid t := by
  rintro ⟨-, ⟨flags, hc⟩, -⟩
  simp [hc, NativeCall.plain] at h

theorem Call.not_commits_of_plain : ¬ c.Commits t := by
  rintro ⟨hc, -⟩
  simp [hc, NativeCall.plain] at h

theorem Call.not_tearsDown_of_plain : ¬ c.TearsDown t := by
  rintro ⟨hc, -⟩
  simp [hc, NativeCall.plain] at h

theorem numberUnused_of_plain (log : List Call) : NumberUnused log c := by
  refine ⟨fun e hc => ?_, fun t flags hc => ?_⟩ <;> simp [hc, NativeCall.plain] at h

theorem Call.not_ends_of_plain : ¬ c.Ends t := by
  rintro ⟨hc, -⟩
  rcases c with ⟨pid, call, outcome⟩
  cases call <;> simp_all [NativeCall.plain, NativeCall.finishes]

end Plain

/-! ### Safe traces -/

namespace Safe

variable {lossy : Bool} {log past : List Call}

theorem suffix (h : Safe lossy log) (hs : past <:+ log) : Safe lossy past := by
  induction log with
  | nil =>
    obtain rfl := List.suffix_nil.mp hs
    exact h
  | cons c rest ih =>
    rcases List.suffix_cons_iff.mp hs with rfl | hs
    · exact h
    · exact ih h.2.2.2 hs

/-- One process creates an environment. -/
theorem created_unique (h : Safe lossy log) {pid pid' : Pid} {e : EnvPtr}
    (hc : Created log pid e) (hc' : Created log pid' e) : pid = pid' := by
  induction log with
  | nil => simp [Created] at hc
  | cons c rest ih =>
    obtain ⟨-, -, hnew, hrest⟩ := h
    have hno : c.call = .envCreate e → ∀ pid, ¬ Created rest pid e := by
      rintro hcall pid ⟨c', hmem, -, hcall', -⟩
      exact hnew.1 e hcall c' hmem hcall'
    rw [created_cons] at hc hc'
    rcases hc with hc | hc <;> rcases hc' with hc' | hc'
    · exact hc.1.symm.trans hc'.1
    · exact absurd hc' (hno hc.2.1 pid')
    · exact absurd hc (hno hc'.2.1 pid)
    · exact ih hrest hc hc'

/-- A number is that of one transaction, which one process begins. -/
theorem begun_unique (h : Safe lossy log) {pid pid' : Pid} {t t' : TxnPtr}
    (hb : Begun log pid t) (hb' : Begun log pid' t') (hid : t.id = t'.id) :
    pid = pid' ∧ t = t' := by
  induction log with
  | nil => simp [Begun] at hb
  | cons c rest ih =>
    obtain ⟨-, -, hnew, hrest⟩ := h
    have hno : ∀ {p q : TxnPtr}, (∃ flags, c.call = .txnBegin p flags) → p.id = q.id →
        ∀ pid, ¬ Begun rest pid q := by
      rintro p q ⟨flags, hcall⟩ hpq pid ⟨c', hmem, -, ⟨flags', hcall'⟩, -⟩
      exact hnew.2 p flags hcall c' hmem q flags' hcall' hpq.symm
    rw [begun_cons] at hb hb'
    rcases hb with hb | hb <;> rcases hb' with hb' | hb'
    · obtain ⟨hpid, ⟨flags, hcall⟩, -⟩ := hb
      obtain ⟨hpid', ⟨flags', hcall'⟩, -⟩ := hb'
      rw [hcall] at hcall'
      cases hcall'
      exact ⟨hpid.symm.trans hpid', rfl⟩
    · exact absurd hb' (hno hb.2.1 hid pid')
    · exact absurd hb (hno hb'.2.1 hid.symm pid)
    · exact ih hrest hb hb'

end Safe

end Mdbx
