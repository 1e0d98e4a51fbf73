import Mdbx.Runs

/-! No run of the package misuses a native object: what each libmdbx call of a run finds in the
trace before it, and when an environment is closed. -/

namespace Mdbx

open ProofKit

variable {σ : Type} {w : World σ} {log past : List Call} {c : Call}

/-! ### Closes and aborts of a trace -/

/-- A close that was made has freed its environment or panicked in it. -/
theorem closed_or_panicked {e : EnvPtr} (hc : c ∈ log) (hcall : c.call = .envClose e) :
    Closed log e ∨ Panicked log e := by
  by_cases ho : c.outcome = .panicked
  · exact .inr ⟨c, hc, by simp [hcall, NativeCall.group, NativeCall.env?], ho⟩
  · exact .inl ⟨c, hc, hcall, ho⟩

/-- The aborts that nothing looks at, as libmdbx makes them: none of them reports a thread
mismatch. -/
def TeardownsEnd (log : List Call) : Prop :=
  ∀ c ∈ log, ∀ t, c.call = .txnAbort t .teardown → c.outcome ≠ .returned Status.threadMismatch

theorem Released.ended {t : TxnPtr} (h : Released log t) (hend : TeardownsEnd log) :
    Ended log t := by
  rcases h with h | ⟨c, hc, hcall, ho⟩
  · exact h
  · exact ⟨c, hc, by simp [hcall, NativeCall.finishes], ho, hend c hc t hcall⟩

/-! ### Every call of a run -/

section Calls

variable {L : Platform σ}

/-- In any run, a call on an environment or a transaction finds it created and begun by the calling
process alone, not closed, not ended and never panicked in, and an environment is handed to
`mdbx_env_close` once at most, when each transaction begun on it has ended. -/
theorem Reachable.calls_safe (hL : L.Allocates) (hr : Reachable L w) (hend : TeardownsEnd w.log)
    (hc : c :: past <:+ w.log) :
    (∀ e, c.call.env? = some e → Created past c.pid e ∧ (∀ pid, Created past pid e → pid = c.pid) ∧
      ¬ Closed past e ∧ ¬ Panicked past e) ∧
    (∀ t, c.call.txn? = some t → Begun past c.pid t ∧ (∀ pid, Begun past pid t → pid = c.pid) ∧
      ¬ Ended past t ∧ Created past c.pid t.env ∧ ¬ Closed past t.env ∧ ¬ Panicked past t.env) ∧
    ∀ e, c.call = .envClose e → (∀ c' ∈ past, c'.call ≠ .envClose e) ∧
      ∀ pid t, Begun past pid ⟨e, t⟩ → Ended past ⟨e, t⟩ := by
  obtain ⟨hperm, hclose, -, hpast⟩ := (hr.inv hL).safe.suffix hc
  refine ⟨fun e he => ?_, fun t ht => ?_, fun e hcall => ⟨fun c' hmem hcall' => ?_, ?_⟩⟩
  · obtain ⟨hcreated, hopen, hhealthy⟩ := hperm.1 e he
    exact ⟨hcreated, fun pid h => hpast.created_unique h hcreated, hopen, hhealthy⟩
  · obtain ⟨⟨hcreated, hopen, hhealthy⟩, hbegun, hlive⟩ := hperm.2 t ht
    exact ⟨hbegun, fun pid h => (hpast.begun_unique h hbegun rfl).1, hlive, hcreated, hopen,
      hhealthy⟩
  · obtain ⟨-, hopen, hhealthy⟩ := hperm.1 e (by simp [hcall, NativeCall.env?])
    exact (closed_or_panicked hmem hcall').elim hopen hhealthy
  · intro pid t hb
    refine (hclose rfl e (by simp [hcall, NativeCall.alone?]) pid t hb).ended fun c' hmem => ?_
    exact hend c' (hc.subset (List.mem_cons_of_mem _ hmem))

end Calls

/-- A library in which every call succeeds. -/
abbrev obliging : Platform Unit := .scripted fun _ => some Status.success

/-- A run that opens an environment, writes to it, and closes it. -/
def openAndClose : List Event :=
  [.entry (.envOpen "db" "key" false true (.ofNat 0) (.ofNat 0) (.ofNat 0) 0 []),
    .entry (.txnBegin (.env 0) true []), .entry (.txnCommit (.txn 1)), .entry (.envClose (.env 0))]

theorem openAndClose_log : ((World.start () 1).after obliging openAndClose).log =
    [⟨1, .envClose 0, .returned 0⟩, ⟨1, .envHeapRoots 0, .returned 0⟩,
      ⟨1, .txnCommit ⟨0, 1⟩, .returned 0⟩, ⟨1, .txnBegin ⟨0, 1⟩ 0, .returned 0⟩,
      ⟨1, .envHeapRoots 0, .returned 0⟩, ⟨1, .envGetFlags 0, .returned 0⟩,
      ⟨1, .envOpen 0 "db" 0 0, .returned 0⟩, ⟨1, .envCreate 0, .returned 0⟩] := by
  decide +kernel

/-- Its close finds the transaction ended and no close before it. -/
theorem Reachable.calls_safe_openAndClose :
    (∀ c ∈ ((World.start () 1).after obliging openAndClose).log.tail, c.call ≠ .envClose 0) ∧
      Ended ((World.start () 1).after obliging openAndClose).log.tail ⟨0, 1⟩ := by
  have hr : Reachable obliging ((World.start () 1).after obliging openAndClose) :=
    ⟨(), 1, World.after_steps (by decide +kernel)⟩
  have hend : TeardownsEnd ((World.start () 1).after obliging openAndClose).log := by
    rw [openAndClose_log]
    simp [TeardownsEnd]
  have hsafe := (Reachable.calls_safe (Platform.scripted_allocates _) hr hend
    (c := ⟨1, .envClose 0, .returned 0⟩) (by rw [openAndClose_log])).2.2 0 rfl
  rw [openAndClose_log]
  exact ⟨hsafe.1, hsafe.2 1 1 ⟨⟨1, .txnBegin ⟨0, 1⟩ 0, .returned 0⟩, by simp, rfl, ⟨0, rfl⟩, rfl⟩⟩

end Mdbx
