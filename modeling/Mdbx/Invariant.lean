import Mdbx.Trace

/-! The invariant of the package: how handles, registries and R objects refer to one another, and
what the trace of libmdbx calls says about each handle. -/

namespace Mdbx

open ProofKit

variable {σ : Type}

/-- What is suspended while a function of the package is at work: the environment whose panic is on
its way to the guard, a transaction that libmdbx has begun and no handle holds yet, a handle whose
transaction is being ended, and one whose object has let go of it.  In a `lossy` run R may fail to
allocate, which can lose a begun transaction that has no object yet. -/
structure Waived where
  lossy : Bool := false
  poison : Option EnvRef := none
  begun : Option TxnPtr := none
  ending : Option TxnRef := none
  reclaimed : Option TxnRef := none

namespace NativeCall

/-- Whether the call names only environments and transactions with numbers below `n`. -/
def Below (c : NativeCall) (n : ℕ) : Prop :=
  (∀ e, c = envCreate e → e < n) ∧ (∀ e, c.env? = some e → e < n) ∧
    (∀ t, c.txn? = some t → t.env < n ∧ t.id < n) ∧ ∀ t flags, c = txnBegin t flags → t.id < n

end NativeCall

def Abandoned.Below : Abandoned → ℕ → Prop
  | env e, n => e < n
  | txn t, n => t.env < n ∧ t.id < n
  | root _, _ => True

/-- Every number in use is below the next one, and every handle is from this process or from one
that it descends from. -/
structure Fresh (w : World σ) : Prop where
  env : ∀ {e h}, w.envs e = some h → e < w.next
  txn : ∀ {t k}, w.txns t = some k → t < w.next
  envSexp : ∀ {x s}, w.envSexps x = some s → x < w.next
  txnSexp : ∀ {x s}, w.txnSexps x = some s → x < w.next
  abandoned : ∀ {a}, a ∈ w.abandoned → a.Below w.next
  log : ∀ {c}, c ∈ w.log → c.call.Below w.next
  envPid : ∀ {e h}, w.envs e = some h → h.pid ∈ w.pid :: w.forebears
  txnPid : ∀ {t k}, w.txns t = some k → k.pid ∈ w.pid :: w.forebears

/-- How handles, registries and objects refer to one another. -/
structure Graph (w : World σ) : Prop where
  env : ∀ {e h p}, w.envs e = some h → h.env = some p → p = e
  live : ∀ {e h}, w.envs e = some h → ∀ t,
    t ∈ h.liveTxns ↔ ∃ k, w.txns t = some k ∧ k.owner = some e
  few : ∀ {e h}, w.envs e = some h → h.liveTxns.length ≤ 1
  owner : ∀ {t k e}, w.txns t = some k → k.owner = some e → ∃ h, w.envs e = some h ∧
    h.env = some e ∧ h.pid = k.pid ∧ (k.poisoned = true → h.poisoned = true)
  txn : ∀ {t k}, w.txns t = some k → k.txn = k.owner.map (⟨·, t⟩)
  state : ∀ {t k}, w.txns t = some k → (k.state = .active ↔ k.owner.isSome = true)
  openNodup : w.openEnvs.Nodup
  openHandle : ∀ {e}, e ∈ w.openEnvs → ∃ h, w.envs e = some h ∧ h.env = some e
  ownKeys : ∀ {e e' h h'}, e ∈ w.openEnvs → e' ∈ w.openEnvs → w.envs e = some h →
    w.envs e' = some h' → h.pid = w.pid → h'.pid = w.pid → h.key = h'.key → e = e'
  envSexp : ∀ {x s e}, w.envSexps x = some s → s.addr = some e → e = x ∧ (w.envs x).isSome
  txnSexp : ∀ {x s t}, w.txnSexps x = some s → s.addr = some t → t = x ∧ (w.txns x).isSome

/-- What the trace says about the handles. -/
structure Traced (v : Waived) (w : World σ) : Prop where
  created : ∀ {e h}, w.envs e = some h → h.env = some e → Created w.log h.pid e
  notClosed : ∀ {e h}, w.envs e = some h → h.env = some e → ¬ Closed w.log e
  healthy : ∀ {e h}, w.envs e = some h → h.env = some e → h.poisoned = false →
    v.poison ≠ some e → ¬ Panicked w.log e
  poisoned : ∀ {e h}, w.envs e = some h → h.env = some e → h.poisoned = true → Panicked w.log e
  came : ∀ {t k}, w.txns t = some k → ∃ e, Begun w.log k.pid ⟨e, t⟩
  begun : ∀ {t k e}, w.txns t = some k → k.owner = some e → Begun w.log k.pid ⟨e, t⟩
  notEnded : ∀ {t k e}, w.txns t = some k → k.owner = some e → v.ending ≠ some t →
    ¬ Ended w.log ⟨e, t⟩
  notTornDown : ∀ {t k e}, w.txns t = some k → k.owner = some e → v.ending ≠ some t →
    ¬ TornDown w.log ⟨e, t⟩
  committed : ∀ {t k}, w.txns t = some k → v.ending ≠ some t →
    (k.state = .committed ↔ ∃ e, Committed w.log ⟨e, t⟩)

/-- Where the native objects are kept that libmdbx still has. -/
structure Conserved (v : Waived) (w : World σ) : Prop where
  envOnce : ∀ e, w.abandoned.count (.env e) ≤ 1
  envHeld : ∀ {e h}, w.envs e = some h → h.env = some e → .env e ∉ w.abandoned
  envKept : ∀ {pid e}, Created w.log pid e → ¬ Closed w.log e → ¬ ClosePanicked w.log e →
    (∃ h, w.envs e = some h ∧ h.env = some e) ∨ .env e ∈ w.abandoned
  txnOnce : ∀ t, w.abandoned.count (.txn t) ≤ 1
  txnHeld : ∀ {t k e}, w.txns t = some k → k.owner = some e → v.ending ≠ some t →
    .txn ⟨e, t⟩ ∉ w.abandoned
  txnKept : ∀ {pid e t}, Begun w.log pid ⟨e, t⟩ → ¬ Released w.log ⟨e, t⟩ →
    v.begun ≠ some ⟨e, t⟩ → (v.lossy = true → w.txnSexps t ≠ none) →
    (∃ k, w.txns t = some k ∧ k.owner = some e) ∨ .txn ⟨e, t⟩ ∈ w.abandoned
  txnObject : ∀ {t k e}, w.txns t = some k → k.owner = some e → v.reclaimed ≠ some t →
    ∃ s, w.txnSexps t = some s ∧ s.addr = some t
  givenUp : ∀ {e t h}, .txn ⟨e, t⟩ ∈ w.abandoned → w.envs e = some h → h.env = some e →
    h.poisoned = true ∨ h.pid ≠ w.pid

structure Inv (v : Waived) (w : World σ) : Prop where
  fresh : Fresh w
  graph : Graph w
  traced : Traced v w
  conserved : Conserved v w
  safe : Safe v.lossy w.log

/-- What outlives the steps of a function from `w` on: numbers in use, the trace, poison, closed
environments, ended transactions and the attribute `path` of the objects.  Only transactions that a
handle holds are ended, and of the calls that create an environment or commit only those are made
that `may` admits. -/
structure Later (may : NativeCall → Prop) (w w' : World σ) : Prop where
  pid : w'.pid = w.pid
  forebears : w'.forebears = w.forebears
  next : w.next ≤ w'.next
  log : w.log <:+ w'.log
  reserved : ∀ {c}, c.reserved = true → ¬ may c → callsOf c w'.log = callsOf c w.log
  released : ∀ {t}, Released w'.log t → t.id < w.next →
    Released w.log t ∨ ∃ k, w.txns t.id = some k
  env : ∀ {e h'}, w'.envs e = some h' → e < w.next → ∃ h, w.envs e = some h ∧ h'.pid = h.pid ∧
    (h.env = none → h'.env = none) ∧ (h.poisoned = true → h'.poisoned = true) ∧
    (e ∈ w'.openEnvs → h'.key = h.key)
  txn : ∀ {t k'}, w'.txns t = some k' → t < w.next → ∃ k, w.txns t = some k ∧ k'.pid = k.pid ∧
    k'.write = k.write ∧ (k.state ≠ .active → k'.state = k.state)
  envPath : ∀ {x}, x < w.next →
    (w'.envSexps x).map EnvSexp.path = (w.envSexps x).map EnvSexp.path
  txnPath : ∀ {x}, x < w.next →
    (w'.txnSexps x).map TxnSexp.path = (w.txnSexps x).map TxnSexp.path
  openEnvs : ∀ {e}, e ∈ w'.openEnvs → e < w.next → e ∈ w.openEnvs
  listed : ∀ {e h'}, e ∈ w.openEnvs → e < w.next → w'.envs e = some h' → h'.env ≠ none →
    e ∈ w'.openEnvs

/-- The invariant, in a world later than `w₀`. -/
structure Sound (may : NativeCall → Prop) (w₀ : World σ) (v : Waived) (w : World σ) : Prop where
  inv : Inv v w
  later : Later may w₀ w

end Mdbx
