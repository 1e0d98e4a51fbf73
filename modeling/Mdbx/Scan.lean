import Mdbx.Resolving
import Mdbx.ProofKit.Table

/-! Scans.  What libmdbx promises of a cursor, and what `scan_call` collects by it: the records of
the table from the start on, in the direction asked for and up to the limit, or a condition. -/

namespace Mdbx

open ProofKit

variable {σ K : Type} [LinearOrder K]

/-- A record of a database. -/
abbrev Record := Bytes × Bytes

/-- How the states of libmdbx read as tables with cursors on them.  `rank` places keys in the order
that the library compares them by, and `refused` counts the growths that the allocator refused. -/
structure Tables (σ K : Type) [LinearOrder K] where
  rank : Bytes → K
  table : σ → TxnPtr → Dbi → Table fun r : Record => rank r.1
  cursor : σ → CursorPtr → Option (Dbi × Option ℕ)
  refused : σ → ℕ

section Contract

variable (L : Platform σ) (T : Tables σ K)

/-- Where an operation takes a cursor that stands at a position of a table. -/
inductive CursorOp.Reaches (m : Table fun r : Record => T.rank r.1) :
    Option ℕ → CursorOp → Option ℕ → Prop where
  | first (pos : Option ℕ) : Reaches m pos .first m.first
  | last (pos : Option ℕ) : Reaches m pos .last m.last
  | next (i : ℕ) : Reaches m (some i) .next (m.step false i)
  | prev (i : ℕ) : Reaches m (some i) .prev (m.step true i)
  | setRange (pos : Option ℕ) (key : Bytes) : Reaches m pos (.setRange key) (m.seek (T.rank key))

/-- A status of `mdbx_cursor_get` that says where the cursor is. -/
def Status.places (rc : Status) : Prop := rc = Status.success ∨ rc = Status.notFound

/-- The promises of libmdbx about cursors.  Nothing is promised of a call that fails. -/
structure Platform.Cursors : Prop where
  opens : ∀ {s p dbi r}, (L.call (.cursorOpen p dbi) s).1 = .ok r → r.rc = Status.success →
    T.table (L.call (.cursorOpen p dbi) s).2 = T.table s ∧
      T.cursor (L.call (.cursorOpen p dbi) s).2 ⟨p, r.out⟩ = some (dbi, none)
  hits : ∀ {s c op dbi pos i r}, T.cursor s c = some (dbi, pos) →
    op.Reaches T (T.table s c.txn dbi) pos (some i) → (L.call (.cursorGet c op) s).1 = .ok r →
    r.rc.places → r.rc = Status.success ∧ (T.table s c.txn dbi).records[i]? = some r.out ∧
      T.table (L.call (.cursorGet c op) s).2 = T.table s ∧
      T.cursor (L.call (.cursorGet c op) s).2 c = some (dbi, some i)
  misses : ∀ {s c op dbi pos r}, T.cursor s c = some (dbi, pos) →
    op.Reaches T (T.table s c.txn dbi) pos none → (L.call (.cursorGet c op) s).1 = .ok r →
    r.rc.places → r.rc = Status.notFound ∧
      T.table (L.call (.cursorGet c op) s).2 = T.table s ∧
      ∃ pos', T.cursor (L.call (.cursorGet c op) s).2 c = some (dbi, pos')
  compares : ∀ {s p dbi a b r}, (L.call (.cmp p dbi a b) s).1 = .ok r →
    (0 < r.out ↔ T.rank b < T.rank a) ∧ T.table (L.call (.cmp p dbi a b) s).2 = T.table s ∧
      T.cursor (L.call (.cmp p dbi a b) s).2 = T.cursor s
  grows : ∀ s, T.table (L.badAlloc s).2 = T.table s ∧ T.cursor (L.badAlloc s).2 = T.cursor s ∧
    T.refused (L.badAlloc s).2 = T.refused s + if (L.badAlloc s).1 then 1 else 0
  closes : ∀ {s c r}, (L.call (.cursorClose c) s).1 = .ok r →
    T.table (L.call (.cursorClose c) s).2 = T.table s
  calls : ∀ c s, T.refused (L.call c s).2 = T.refused s
  fits : ∀ s p dbi, (T.table s p dbi).records.length + 1 < sizeBound L

end Contract

/-! ### What goes wrong -/

/-- The world after more calls, the latest first, have left libmdbx at `lib`. -/
def World.advanced (w : World σ) (lib : σ) (new : List Call) : World σ :=
  { w with lib := lib, log := new ++ w.log }

@[simp] theorem World.advanced_advanced (w : World σ) (lib lib' : σ) (new new' : List Call) :
    (w.advanced lib new).advanced lib' new' = w.advanced lib' (new' ++ new) := by
  simp [World.advanced]

namespace Call

def isGet (c : Call) : Bool :=
  match c.call with
  | .cursorGet _ _ => true
  | _ => false

@[simp] theorem isGet_cmp (pid : Pid) (p : TxnPtr) (dbi : Dbi) (a b : Bytes) (o : Outcome) :
    isGet ⟨pid, .cmp p dbi a b, o⟩ = false := rfl

/-- A call that panics, or a call on a cursor that fails otherwise than by finding no record. -/
def Fails (c : Call) : Prop :=
  c.outcome = .panicked ∨ ∃ rc, c.outcome = .returned rc ∧
    ((c.isGet = true ∧ ¬ rc.places) ∨
      (∃ p dbi, c.call = .cursorOpen p dbi) ∧ rc ≠ Status.success)

end Call

/-- Nothing goes wrong on the way from `s` to `lib`, and nothing is written. -/
structure Quiet (T : Tables σ K) (s lib : σ) (new : List Call) : Prop where
  calls : ∀ c ∈ new, ¬ c.Fails
  room : T.refused lib = T.refused s
  tables : T.table lib = T.table s

/-- Something goes wrong: a call fails or the allocator refuses a growth. -/
def Faulted (T : Tables σ K) (s lib : σ) (new : List Call) : Prop :=
  (∃ c ∈ new, c.Fails) ∨ T.refused s < T.refused lib

section Faults

variable {T : Tables σ K} {s s₁ s₂ : σ} {new new' : List Call}

theorem Quiet.trans (h : Quiet T s s₁ new) (h' : Quiet T s₁ s₂ new') :
    Quiet T s s₂ (new' ++ new) where
  calls c hc := by
    rcases List.mem_append.mp hc with hc | hc
    · exact h'.calls c hc
    · exact h.calls c hc
  room := h'.room.trans h.room
  tables := h'.tables.trans h.tables

theorem Quiet.faulted (h : Quiet T s s₁ new) (h' : Faulted T s₁ s₂ new') :
    Faulted T s s₂ (new' ++ new) := by
  rcases h' with ⟨c, hc, hfails⟩ | hlt
  · exact .inl ⟨c, List.mem_append_left _ hc, hfails⟩
  · exact .inr (h.room ▸ hlt)

/-- What has gone wrong stays so. -/
theorem Faulted.append (h : Faulted T s s₁ new) (hle : T.refused s₁ ≤ T.refused s₂) :
    Faulted T s s₂ (new' ++ new) := by
  rcases h with ⟨c, hc, hfails⟩ | hlt
  · exact .inl ⟨c, List.mem_append_right _ hc, hfails⟩
  · exact .inr (hlt.trans_le hle)

end Faults

/-! ### One move -/

section Moves

variable {L : Platform σ} {T : Tables σ K} (C : L.Cursors T) {c : CursorPtr} {dbi : Dbi}
  {m : Table fun r : Record => T.rank r.1} {reverse : Bool} {w : World σ}

/-- The cursor `c` is open on the table `m` of `dbi` and stands at `pos`. -/
structure Standing (T : Tables σ K) (c : CursorPtr) (dbi : Dbi)
    (m : Table fun r : Record => T.rank r.1) (s : σ) (pos : Option ℕ) : Prop where
  table : T.table s c.txn dbi = m
  cursor : T.cursor s c = some (dbi, pos)

/-- What a first or a further move of a walk does that has `rest` before it: it reaches the next
record, or finds none where there is none, or fails. -/
inductive Moved (T : Tables σ K) (c : CursorPtr) (dbi : Dbi)
    (m : Table fun r : Record => T.rank r.1) (reverse : Bool) (rest : List Record) (gets : ℕ)
    (w : World σ) : Reached → World σ → Prop where
  | hit (lib : σ) (new : List Call) (i : ℕ) (hi : i < m.records.length)
      (stands : Standing T c dbi m lib (some i)) (hrest : rest = m.ahead reverse (some i))
      (quiet : Quiet T w.lib lib new) (hgets : new.countP Call.isGet = gets) :
    Moved T c dbi m reverse rest gets w (Status.success, m.records[i]) (w.advanced lib new)
  | ended (lib : σ) (new : List Call) (record : Record) (hrest : rest = [])
      (quiet : Quiet T w.lib lib new) (hgets : new.countP Call.isGet = gets) :
    Moved T c dbi m reverse rest gets w (Status.notFound, record) (w.advanced lib new)
  | failed (lib : σ) (new : List Call) (rc : Status) (record : Record) (hrc : ¬ rc.places)
      (faulted : Faulted T w.lib lib new) :
    Moved T c dbi m reverse rest gets w (rc, record) (w.advanced lib new)

/-- A panic on the way. -/
def Broke (T : Tables σ K) (w : World σ) (x : Exit) (w' : World σ) : Prop :=
  IsPanic x ∧ ∃ lib new, w' = w.advanced lib new ∧ Faulted T w.lib lib new

/-- What one call of `mdbx_cursor_get` answers that takes the cursor to `target`. -/
inductive Got (T : Tables σ K) (c : CursorPtr) (dbi : Dbi)
    (m : Table fun r : Record => T.rank r.1) (w : World σ) :
    Option ℕ → Except Exit Reached → World σ → Prop where
  | hit (lib : σ) (call : Call) (i : ℕ) (hi : i < m.records.length)
      (stands : Standing T c dbi m lib (some i)) (quiet : Quiet T w.lib lib [call])
      (hget : call.isGet = true) :
    Got T c dbi m w (some i) (.ok (Status.success, m.records[i])) (w.advanced lib [call])
  | miss (lib : σ) (call : Call) (record : Record) (pos : Option ℕ)
      (stands : Standing T c dbi m lib pos) (quiet : Quiet T w.lib lib [call])
      (hget : call.isGet = true) :
    Got T c dbi m w none (.ok (Status.notFound, record)) (w.advanced lib [call])
  | failed {target : Option ℕ} (lib : σ) (call : Call) (rc : Status) (record : Record)
      (hrc : ¬ rc.places) (hfails : call.Fails) :
    Got T c dbi m w target (.ok (rc, record)) (w.advanced lib [call])
  | panicked {target : Option ℕ} (lib : σ) (call : Call) (info : PanicInfo)
      (hfails : call.Fails) :
    Got T c dbi m w target (.error (.panic info)) (w.advanced lib [call])

theorem Faulted.call {s lib : σ} {call : Call} (h : call.Fails) : Faulted T s lib [call] :=
  .inl ⟨call, List.mem_singleton_self _, h⟩

/-- A call of `mdbx_cursor_get` that tells where the cursor is has not failed. -/
theorem Call.places_quiet {s lib : σ} {call : Call} {rc : Status}
    (ho : call.outcome = .returned rc) (hget : call.isGet = true) (hrc : rc.places)
    (hroom : T.refused lib = T.refused s) (htables : T.table lib = T.table s) :
    Quiet T s lib [call] where
  room := hroom
  tables := htables
  calls call' hmem := by
    obtain rfl := List.mem_singleton.mp hmem
    rintro (hpanic | ⟨rc', ho', ⟨-, hrc'⟩ | ⟨⟨p, d, hopen⟩, -⟩⟩)
    · simp [ho] at hpanic
    · obtain rfl : rc = rc' := by simpa [ho] using ho'
      exact hrc' hrc
    · simp [Call.isGet, hopen] at hget

include C

theorem cursorGet_got {op : CursorOp} {pos target : Option ℕ} (S : Standing T c dbi m w.lib pos)
    (hop : op.Reaches T m pos target) :
    ∃ r w', (cursorGet L c op).run w = (r, w') ∧ Got T c dbi m w target r w' := by
  obtain ⟨rfl, hcursor⟩ := S
  rcases hreply : (L.call (.cursorGet c op) w.lib).1 with info | r
  · have hr : (native L (.cursorGet c op)).run w = (.error (.panic info),
        w.called (.cursorGet c op) (L.call (.cursorGet c op) w.lib).2 .panicked) := by
      rw [native, Prog.run_get_bind]
      revert hreply
      rcases L.call (.cursorGet c op) w.lib with ⟨info' | r, lib⟩ <;> intro hreply <;> cases hreply
      rfl
    exact ⟨_, _, Prog.bind_error hr, .panicked _ ⟨w.pid, .cursorGet c op, .panicked⟩ info
      (.inl rfl)⟩
  have hr : (cursorGet L c op).run w = (.ok (r.rc, r.out),
      w.advanced (L.call (.cursorGet c op) w.lib).2 [⟨w.pid, .cursorGet c op, .returned r.rc⟩]) :=
    Prog.bind_ok (native_ok L hreply)
  by_cases hrc : r.rc.places
  swap
  · exact ⟨_, _, hr, .failed _ _ r.rc r.out hrc (.inr ⟨r.rc, rfl, .inl ⟨rfl, hrc⟩⟩)⟩
  have hquiet : T.table (L.call (.cursorGet c op) w.lib).2 = T.table w.lib →
      Quiet T w.lib _ [⟨w.pid, .cursorGet c op, .returned r.rc⟩] :=
    Call.places_quiet rfl rfl hrc (C.calls _ _)
  cases target with
  | none =>
    obtain ⟨hmiss, htable, pos', hpos'⟩ := C.misses hcursor hop hreply hrc
    rw [hmiss] at hr hquiet
    exact ⟨_, _, hr, .miss _ _ r.out pos' ⟨by rw [htable], hpos'⟩ (hquiet htable) rfl⟩
  | some i =>
    obtain ⟨hhit, hout, htable, hpos⟩ := C.hits hcursor hop hreply hrc
    obtain ⟨hi, hout⟩ := List.getElem?_eq_some_iff.mp hout
    rw [hhit, ← hout] at hr
    rw [hhit] at hquiet
    exact ⟨_, _, hr, .hit _ _ i hi ⟨by rw [htable], hpos⟩ (hquiet htable) rfl⟩

/-- A single call as a move of the walk. -/
theorem cursorGet_moved (reverse : Bool) {op : CursorOp} {pos target : Option ℕ}
    (S : Standing T c dbi m w.lib pos) (hop : op.Reaches T m pos target) :
    Triple (cursorGet L c op) w (Moved T c dbi m reverse (m.ahead reverse target) 1 w)
      (Broke T w) := by
  obtain ⟨r, w', hrun, hgot⟩ := cursorGet_got C S hop
  cases hgot with
  | hit lib call i hi stands quiet hget =>
    exact Triple.ok hrun (.hit lib [call] i hi stands rfl quiet (by simp [hget]))
  | miss lib call record pos stands quiet hget =>
    exact Triple.ok hrun (.ended lib [call] record rfl quiet (by simp [hget]))
  | failed lib call rc record hrc hfails =>
    exact Triple.ok hrun (.failed lib [call] rc record hrc (.call hfails))
  | panicked lib call info hfails =>
    exact Triple.error hrun ⟨⟨info, rfl⟩, lib, [call], rfl, .call hfails⟩

omit C

/-- A move after others that went well. -/
theorem Moved.after {rest : List Record} {gets : ℕ} {lib : σ} {new : List Call} {r : Reached}
    {w' : World σ} (hquiet : Quiet T w.lib lib new)
    (M : Moved T c dbi m reverse rest gets (w.advanced lib new) r w') :
    Moved T c dbi m reverse rest (gets + new.countP Call.isGet) w r w' := by
  cases M with
  | hit lib' new' i hi stands hrest quiet hgets =>
    rw [World.advanced_advanced]
    exact .hit lib' (new' ++ new) i hi stands hrest (hquiet.trans quiet)
      (by rw [List.countP_append, hgets])
  | ended lib' new' record hrest quiet hgets =>
    rw [World.advanced_advanced]
    exact .ended lib' (new' ++ new) record hrest (hquiet.trans quiet)
      (by rw [List.countP_append, hgets])
  | failed lib' new' rc record hrc faulted =>
    rw [World.advanced_advanced]
    exact .failed lib' (new' ++ new) rc record hrc (hquiet.faulted faulted)

theorem Broke.after {lib : σ} {new : List Call} {x : Exit} {w' : World σ}
    (hquiet : Quiet T w.lib lib new) (B : Broke T (w.advanced lib new) x w') : Broke T w x w' := by
  obtain ⟨hx, lib', new', rfl, hfault⟩ := B
  exact ⟨hx, lib', new' ++ new, World.advanced_advanced .., hquiet.faulted hfault⟩

/-- How many calls of `mdbx_cursor_get` bring a walk to its first record: a backward walk takes
a second one unless it starts from a key of the table. -/
def approach (m : Table fun r : Record => T.rank r.1) (reverse : Bool) : Option K → ℕ
  | none => 1
  | some k => if reverse = true ∧ k ∉ m.records.map fun r => T.rank r.1 then 2 else 1

/-- A comparison, which moves nothing. -/
theorem cmp_run (C : L.Cursors T) {pos : Option ℕ} (S : Standing T c dbi m w.lib pos)
    (a b : Bytes) :
    (∃ r lib, (native L (.cmp c.txn dbi a b)).run w
        = (.ok r, w.advanced lib [⟨w.pid, .cmp c.txn dbi a b, .returned r.rc⟩]) ∧
      (0 < r.out ↔ T.rank b < T.rank a) ∧ Standing T c dbi m lib pos ∧
      Quiet T w.lib lib [⟨w.pid, .cmp c.txn dbi a b, .returned r.rc⟩]) ∨
    ∃ info lib, (native L (.cmp c.txn dbi a b)).run w
      = (.error (.panic info), w.advanced lib [⟨w.pid, .cmp c.txn dbi a b, .panicked⟩]) := by
  rcases native_answered L (.cmp c.txn dbi a b) w with ⟨r, -, -, hreply⟩ | ⟨info, lib, hr, -⟩
  · have hr := native_ok L hreply
    obtain ⟨hcmp, htable, hcursor⟩ := C.compares hreply
    refine .inl ⟨r, _, hr, hcmp, ⟨by rw [htable, S.table], by rw [hcursor, S.cursor]⟩,
      ⟨fun call hmem => ?_, C.calls _ _, htable⟩⟩
    obtain rfl := List.mem_singleton.mp hmem
    simp [Call.Fails, Call.isGet]
  · exact .inr ⟨info, lib, hr⟩

/-- The first move of a walk. -/
theorem position_moved (C : L.Cursors T) (S : Standing T c dbi m w.lib none)
    (start : Option Bytes) :
    Triple (position L c dbi reverse start) w
      (Moved T c dbi m reverse (m.listing reverse (start.map T.rank))
        (approach m reverse (start.map T.rank)) w) (Broke T w) := by
  cases start with
  | none =>
    cases reverse with
    | false =>
      have := cursorGet_moved C false S (.first none)
      rwa [m.ahead_first] at this
    | true =>
      have := cursorGet_moved C true S (.last none)
      rwa [m.ahead_last] at this
  | some from_ =>
    obtain ⟨r, w₁, hrun, hgot⟩ := cursorGet_got C S (.setRange none from_)
    rw [position]
    generalize htarget : m.seek (T.rank from_) = target at hgot
    cases hgot with
    | panicked lib call info hfails =>
      exact Triple.stopped hrun ⟨⟨info, rfl⟩, lib, [call], rfl, .call hfails⟩
    | failed lib call rc record hrc hfails =>
      obtain ⟨hsuccess, hnotFound⟩ := not_or.mp hrc
      refine Triple.step hrun ?_
      simp only [hsuccess, hnotFound, and_false, if_false]
      exact Triple.pure (.failed lib [call] rc record hrc (.call hfails))
    | miss lib call record pos stands quiet hget =>
      refine Triple.step hrun ?_
      cases reverse with
      | false =>
        refine Triple.pure (.ended lib [call] record ?_ quiet ?_)
        · rw [Option.map_some, ← m.ahead_seek, htarget]
          rfl
        · simp [approach, hget]
      | true =>
        -- Every key is below `from_`: the walk starts from the last one.
        have hnew : T.rank from_ ∉ m.records.map fun r => T.rank r.1 := by
          intro hmem
          obtain ⟨record, hrecord, heq⟩ := List.mem_map.mp hmem
          exact (m.seek_none htarget record hrecord).ne heq
        have hlast := (cursorGet_moved (w := w.advanced lib [call]) C true stands
          (.last pos)).mono (fun _ _ M => M.after quiet) fun _ _ B => B.after quiet
        rw [m.ahead_past htarget] at hlast
        simpa [approach, hnew, hget] using hlast
    | hit lib call i hi stands quiet hget =>
      refine Triple.step hrun ?_
      cases reverse with
      | false =>
        refine Triple.pure (.hit lib [call] i hi stands ?_ quiet ?_)
        · rw [Option.map_some, ← m.ahead_seek, htarget]
        · simp [approach, hget]
      | true =>
        have hsuccess : Status.success ≠ Status.notFound := by decide
        simp only [hsuccess, and_false, if_false, and_true, if_true]
        rcases cmp_run (w := w.advanced lib [call]) C stands m.records[i].1 from_ with
          ⟨r, lib', hcmp, horder, stands', quiet'⟩ | ⟨info, lib', hcmp⟩
        swap
        · refine Triple.stopped hcmp ⟨⟨info, rfl⟩, lib', _, World.advanced_advanced .., ?_⟩
          exact .inl ⟨_, List.mem_cons_self, .inl rfl⟩
        refine Triple.step hcmp ?_
        have quiet₂ := quiet.trans quiet'
        by_cases hover : 0 < r.out
        · -- The record found is above `from_`, so `from_` is no key of the table.
          have habove := horder.mp hover
          have hnew : T.rank from_ ∉ m.records.map fun r => T.rank r.1 := by
            intro hmem
            obtain ⟨j, hj, heq⟩ := List.mem_iff_getElem.mp hmem
            rw [List.getElem_map] at heq
            rw [List.length_map] at hj
            obtain ⟨_, -, hbelow⟩ := m.seek_some htarget
            rcases lt_or_ge j i with hlt | hge
            · exact (hbelow j hlt).ne heq
            · rcases hge.lt_or_eq with hlt | rfl
              · exact (habove.trans (m.key_lt hi hj hlt)).ne' heq
              · exact habove.ne' heq
          rw [if_pos hover, World.advanced_advanced]
          have hprev := (cursorGet_moved (w := w.advanced lib' _) C true stands'
            (.prev i)).mono (fun _ _ M => M.after quiet₂) fun _ _ B => B.after quiet₂
          rw [m.ahead_overshot htarget fun _ => habove] at hprev
          simpa [approach, hnew, hget] using hprev
        · have hle : T.rank m.records[i].1 ≤ T.rank from_ := not_lt.mp fun h => hover (horder.mpr h)
          obtain ⟨_, hge, -⟩ := m.seek_some htarget
          have hkey : T.rank from_ ∈ m.records.map fun r => T.rank r.1 :=
            List.mem_map.mpr ⟨_, List.getElem_mem hi, le_antisymm hle hge⟩
          rw [if_neg hover, World.advanced_advanced]
          refine Triple.pure (.hit lib' _ i hi stands' ?_ quiet₂ ?_)
          · rw [Option.map_some, ← m.ahead_hit htarget fun _ => hle]
          · simp [approach, hkey, hget]

/-! ### The loop -/

/-- What has been collected, and more records of it. -/
def Scanned.add (found : Scanned) (values : Bool) (rows : List Record) : Scanned :=
  { found with keys := found.keys ++ rows.map Prod.fst
               values := found.values ++ if values then rows.map Prod.snd else [] }

theorem Scanned.add_nil (found : Scanned) (values : Bool) : found.add values [] = found := by
  simp [Scanned.add]

theorem Scanned.add_add (found : Scanned) (values : Bool) (row : Record) (rows : List Record) :
    (found.add values [row]).add values rows = found.add values (row :: rows) := by
  cases values <;> simp [Scanned.add]

/-- The growth of a vector, which moves nothing. -/
theorem grow_run (C : L.Cursors T) {pos : Option ℕ} (S : Standing T c dbi m w.lib pos) :
    ∃ lib, Standing T c dbi m lib pos ∧
      (((grow L).run w = (.ok true, w.advanced lib []) ∧ Quiet T w.lib lib []) ∨
        (grow L).run w = (.ok false, w.advanced lib []) ∧ T.refused w.lib < T.refused lib) := by
  obtain ⟨htable, hcursor, hrefused⟩ := C.grows w.lib
  refine ⟨(L.badAlloc w.lib).2, ⟨by rw [htable, S.table], by rw [hcursor, S.cursor]⟩, ?_⟩
  have hrun :
      (grow L).run w = (.ok !(L.badAlloc w.lib).1, w.advanced (L.badAlloc w.lib).2 []) := rfl
  cases hbad : (L.badAlloc w.lib).1 with
  | false =>
    rw [hbad] at hrun
    exact .inl ⟨hrun, by simp, by simp [hrefused, hbad], htable⟩
  | true =>
    rw [hbad] at hrun
    exact .inr ⟨hrun, by simp [hrefused, hbad]⟩

theorem collect_run (C : L.Cursors T) {pos : Option ℕ} (S : Standing T c dbi m w.lib pos)
    (values : Bool) (row : Record) (found : Scanned) :
    ∃ lib, Standing T c dbi m lib pos ∧
      (((collect L values row.1 row.2 found).run w
          = (.ok (true, found.add values [row]), w.advanced lib []) ∧ Quiet T w.lib lib []) ∨
      ∃ found', (collect L values row.1 row.2 found).run w
          = (.ok (false, found'), w.advanced lib []) ∧ T.refused w.lib < T.refused lib) := by
  obtain ⟨lib, S₁, ⟨hr, hroom⟩ | ⟨hr, hroom⟩⟩ := grow_run C S
  swap
  · exact ⟨lib, S₁, .inr ⟨found, by rw [collect, Prog.bind_ok hr]; rfl, hroom⟩⟩
  cases values with
  | false =>
    refine ⟨lib, S₁, .inl ⟨?_, hroom⟩⟩
    rw [collect, Prog.bind_ok hr]
    simp [Scanned.add]
  | true =>
    obtain ⟨lib', S₂, ⟨hr', hroom'⟩ | ⟨hr', hroom'⟩⟩ := grow_run (w := w.advanced lib []) C S₁
    · refine ⟨lib', S₂, .inl ⟨?_, hroom.trans hroom'⟩⟩
      rw [collect, Prog.bind_ok hr]
      simp only [Bool.true_eq_false, if_false]
      rw [Prog.bind_ok hr', World.advanced_advanced]
      simp [Scanned.add]
    · refine ⟨lib', S₂, .inr ⟨{ found with keys := found.keys ++ [row.1] }, ?_,
        hroom.room ▸ hroom'⟩⟩
      rw [collect, Prog.bind_ok hr]
      simp only [Bool.true_eq_false, if_false]
      rw [Prog.bind_ok hr', World.advanced_advanced]
      rfl

/-- What a scan makes of the records `rest` that are before it: up to `limit` of them, by one move
a record, or a record of what went wrong. -/
inductive Gathered (T : Tables σ K) (values : Bool) (rest : List Record) (gets limit : ℕ)
    (found : Scanned) (w : World σ) : Scanned → World σ → Prop where
  | complete (lib : σ) (new : List Call) (quiet : Quiet T w.lib lib new)
      (none : limit = 0 → new.countP Call.isGet = 0)
      (some : 0 < limit → new.countP Call.isGet + 1 = gets + min limit (rest.length + 1)) :
    Gathered T values rest gets limit found w (found.add values (rest.take limit))
      (w.advanced lib new)
  | broken (lib : σ) (new : List Call) (found' : Scanned) (faulted : Faulted T w.lib lib new)
      (told : found'.outOfMemory = true ∨ found'.rc ≠ Status.success) :
    Gathered T values rest gets limit found w found' (w.advanced lib new)

/-- One record has been collected before the rest. -/
theorem Gathered.after {values : Bool} {row : Record} {rest : List Record} {gets limit : ℕ}
    {found out : Scanned} {lib : σ} {new : List Call} {w' : World σ}
    (quiet : Quiet T w.lib lib new) (hgets : new.countP Call.isGet = gets)
    (H : Gathered T values rest 1 limit (found.add values [row]) (w.advanced lib new) out w') :
    Gathered T values (row :: rest) gets (limit + 1) found w out w' := by
  cases H with
  | complete lib' new' quiet' none some =>
    rw [World.advanced_advanced, Scanned.add_add, ← List.take_succ_cons]
    refine .complete lib' (new' ++ new) (quiet.trans quiet') (by simp) fun _ => ?_
    rw [List.countP_append, hgets, List.length_cons]
    rcases Nat.eq_zero_or_pos limit with rfl | hpos
    · have := none rfl
      omega
    · have := some hpos
      omega
  | broken lib' new' found' faulted told =>
    rw [World.advanced_advanced]
    exact .broken lib' (new' ++ new) out (quiet.faulted faulted) told

theorem scanLoop_gathers (C : L.Cursors T) (values : Bool) (limit : ℕ) :
    ∀ {move : Pkg σ Reached} {rest : List Record} {gets : ℕ} {w : World σ} (found : Scanned),
      Triple move w (Moved T c dbi m reverse rest gets w) (Broke T w) →
      Triple (scanLoop L c values reverse limit move found) w
        (Gathered T values rest gets limit found w) (Broke T w) := by
  induction limit with
  | zero =>
    intro move rest gets w found _
    have : Gathered T values rest gets 0 found w _ (w.advanced w.lib []) :=
      .complete w.lib [] ⟨by simp, rfl, rfl⟩ (by simp) (by simp)
    rw [List.take_zero, Scanned.add_nil] at this
    exact Triple.pure this
  | succ limit ih =>
    intro move rest gets w found hmove
    rw [scanLoop]
    refine Triple.bind hmove ?_
    rintro reached w₁ M
    cases M with
    | ended lib new record hrest quiet hgets =>
      subst hrest
      simp only [if_true]
      have : Gathered T values [] gets (limit + 1) found w _ (w.advanced lib new) :=
        .complete lib new quiet (by simp) (by simp [hgets])
      rw [List.take_nil, Scanned.add_nil] at this
      exact Triple.pure this
    | failed lib new rc record hrc faulted =>
      obtain ⟨hsuccess, hnotFound⟩ := not_or.mp hrc
      simp only [hnotFound, hsuccess, if_false, ne_eq, not_false_eq_true, if_true]
      exact Triple.pure (.broken lib new _ faulted (.inr hsuccess))
    | hit lib new i hi stands hrest quiet hgets =>
      subst hrest
      have hsuccess : Status.success ≠ Status.notFound := by decide
      simp only [hsuccess, if_false, ne_eq, not_true_eq_false]
      obtain ⟨lib', stands', ⟨hr, hroom⟩ | ⟨found', hr, hroom⟩⟩ :=
        collect_run (w := w.advanced lib new) C stands values m.records[i] found
      swap
      · refine Triple.step hr ?_
        rw [World.advanced_advanced]
        exact Triple.pure (.broken lib' new _ (.inr (quiet.room ▸ hroom)) (.inl rfl))
      refine Triple.step hr ?_
      rw [World.advanced_advanced, m.ahead_cons reverse hi]
      have quiet' : Quiet T w.lib lib' new := quiet.trans hroom
      have hop : (if reverse then CursorOp.prev else CursorOp.next).Reaches T m (some i)
          (m.step reverse i) := by
        cases reverse with
        | false => exact .next i
        | true => exact .prev i
      have hnext := ih (found.add values [m.records[i]])
        (cursorGet_moved (w := w.advanced lib' new) C reverse stands' hop)
      exact hnext.mono (fun _ _ H => H.after quiet' hgets) fun _ _ B => B.after quiet'

theorem Gathered.world {values : Bool} {rest : List Record} {gets limit : ℕ}
    {found out : Scanned} {w' : World σ} (H : Gathered T values rest gets limit found w out w') :
    ∃ lib new, w' = w.advanced lib new := by
  cases H with
  | complete lib new => exact ⟨lib, new, rfl⟩
  | broken lib new => exact ⟨lib, new, rfl⟩

/-- Calls before the scan that are no moves. -/
theorem Gathered.from_ {values : Bool} {rest : List Record} {gets limit : ℕ}
    {found out : Scanned} {lib : σ} {new : List Call} {w' : World σ}
    (quiet : Quiet T w.lib lib new) (hgets : new.countP Call.isGet = 0)
    (H : Gathered T values rest gets limit found (w.advanced lib new) out w') :
    Gathered T values rest gets limit found w out w' := by
  cases H with
  | complete lib' new' quiet' none some =>
    rw [World.advanced_advanced]
    refine .complete lib' (new' ++ new) (quiet.trans quiet') ?_ ?_
    · simpa [hgets] using none
    · simpa [hgets] using some
  | broken lib' new' found' faulted told =>
    rw [World.advanced_advanced]
    exact .broken lib' (new' ++ new) out (quiet.faulted faulted) told

/-- A call after the scan that is no move and does not fail. -/
theorem Gathered.then_ {values : Bool} {rest : List Record} {gets limit : ℕ}
    {found out : Scanned} {w' : World σ} {lib : σ} {call : Call}
    (H : Gathered T values rest gets limit found w out w')
    (hcall : Quiet T w'.lib lib [call]) (hget : call.isGet = false) :
    Gathered T values rest gets limit found w out (w'.advanced lib [call]) := by
  cases H with
  | complete lib' new' quiet' none some =>
    rw [World.advanced_advanced]
    refine .complete lib ([call] ++ new') (quiet'.trans hcall) ?_ ?_
    · simpa [hget] using none
    · simpa [hget] using some
  | broken lib' new' found' faulted told =>
    rw [World.advanced_advanced]
    exact .broken lib _ out (faulted.append hcall.room.ge) told

/-- What `scan_call` leaves in its context. -/
theorem scanCall_gathers (C : L.Cursors T) {e : EnvRef} {t : TxnRef} {k : TxnHandle}
    (hk : w.txns t = some k) (htxn : k.txn = some ⟨e, t⟩) (limit : ℕ) (values reverse : Bool)
    (start : Option Bytes) :
    Triple (scanCall L t limit values reverse start) w
      (Gathered T values
        ((T.table w.lib ⟨e, t⟩ k.dbi).listing reverse (start.map T.rank))
        (approach (T.table w.lib ⟨e, t⟩ k.dbi) reverse (start.map T.rank)) limit
        ⟨[], [], false, Status.success⟩ w) (Broke T w) := by
  have hcurrent : (current t).run w = (.ok (⟨e, t⟩, k.dbi), w) := by
    rw [current, Prog.bind_ok (derefTxn_run hk), htxn]
    rfl
  refine Triple.step hcurrent ?_
  rcases native_answered L (.cursorOpen ⟨e, t⟩ k.dbi) w with
    ⟨r, -, -, hreply⟩ | ⟨info, lib, hr, -⟩
  swap
  · exact Triple.stopped hr ⟨⟨info, rfl⟩, lib, [⟨w.pid, .cursorOpen ⟨e, t⟩ k.dbi, .panicked⟩], rfl,
      .call (.inl rfl)⟩
  refine Triple.step (native_ok L hreply) ?_
  by_cases hrc : r.rc = Status.success
  swap
  · rw [if_pos hrc]
    exact Triple.pure (.broken _ [⟨w.pid, .cursorOpen ⟨e, t⟩ k.dbi, .returned r.rc⟩] _
      (.call (.inr ⟨r.rc, rfl, .inr ⟨⟨_, _, rfl⟩, hrc⟩⟩)) (.inr hrc))
  rw [if_neg (not_not.mpr hrc)]
  obtain ⟨htable, hcursor⟩ := C.opens hreply hrc
  have stands : Standing T ⟨⟨e, t⟩, r.out⟩ k.dbi (T.table w.lib ⟨e, t⟩ k.dbi) _ none :=
    ⟨by rw [htable], hcursor⟩
  have hquiet : Quiet T w.lib (L.call (.cursorOpen ⟨e, t⟩ k.dbi) w.lib).2
      [⟨w.pid, .cursorOpen ⟨e, t⟩ k.dbi, .returned r.rc⟩] := by
    refine ⟨fun call hmem => ?_, C.calls _ _, htable⟩
    obtain rfl := List.mem_singleton.mp hmem
    simp [Call.Fails, Call.isGet, hrc]
  rw [hrc] at hquiet ⊢
  refine Triple.bind ((scanLoop_gathers C values limit
    ⟨[], [], false, Status.success⟩ (position_moved C stands start)).mono
    (fun _ _ H => H.from_ hquiet rfl) fun _ _ B => B.after hquiet) ?_
  intro found w₁ H
  rcases native_answered L (.cursorClose ⟨⟨e, t⟩, r.out⟩) w₁ with
    ⟨r', -, -, hreply'⟩ | ⟨info, lib, hr, -⟩
  · refine Triple.step (native_ok L hreply') (Triple.pure ?_)
    refine H.then_ ⟨fun call hmem => ?_, C.calls _ _, C.closes hreply'⟩ rfl
    obtain rfl := List.mem_singleton.mp hmem
    simp [Call.Fails, Call.isGet]
  · obtain ⟨lib', new', rfl⟩ := H.world
    exact Triple.stopped hr ⟨⟨info, rfl⟩, lib,
      ⟨w.pid, .cursorClose ⟨⟨e, t⟩, r.out⟩, .panicked⟩ :: new', rfl,
      .inl ⟨_, List.mem_cons_self, .inl rfl⟩⟩

end Moves

/-! ### The entry point -/

section Entry

variable {L : Platform σ} {T : Tables σ K} {lossy : Bool} {w w₁ : World σ} {t : TxnRef}

/-- `ensure_dbi` leaves its answer in the handle. -/
theorem ensureDbi_dbi {db : List Bytes} {dbi : Dbi}
    (h : (ensureDbi L t db).run w = (.ok dbi, w₁)) : ∃ k, w₁.txns t = some k ∧ k.dbi = dbi := by
  have hupdate : ∀ (f : TxnHandle → TxnHandle) (d : Dbi) (w : World σ), (∀ k, (f k).dbi = d) →
      Triple (do updateTxn t f; pure d : Pkg σ Dbi) w
        (fun d' w' => ∃ k, w'.txns t = some k ∧ k.dbi = d') (fun _ _ => True) := by
    intro f d w hf
    refine Triple.bind (Q := fun _ w' => ∃ k, w'.txns t = some k ∧ k.dbi = d) ?_
      fun _ _ h => Triple.pure h
    rw [updateTxn]
    refine Triple.bind Triple.anyway fun k w' _ => Triple.modify ?_
    exact ⟨f k, by simp, hf k⟩
  have hspec : Triple (ensureDbi L t db) w (fun d w' => ∃ k, w'.txns t = some k ∧ k.dbi = d)
      (fun _ _ => True) := by
    rw [ensureDbi, ensureDbiNamed]
    refine Triple.bind Triple.anyway fun k w' _ => ?_
    cases k.cached db.head? with
    | some d => exact hupdate _ d w' fun _ => rfl
    | none =>
      refine Triple.bind Triple.anyway fun answer w' _ => ?_
      refine Triple.bind Triple.anyway fun _ w' _ => ?_
      exact Triple.bind Triple.anyway fun _ w' _ => hupdate _ answer.2 w' fun _ => rfl
  rw [Triple, h] at hspec
  exact hspec

/-- The transaction of an accepted object, and its handle once a database of it is resolved. -/
theorem Inv.resolved (I : Inv { lossy } w) {txn : Sexp} {db : List Bytes} {dbi : Dbi}
    (hacc : (txnFromSexp txn).run w = (.ok t, w)) (hdb : (ensureDbi L t db).run w = (.ok dbi, w₁)) :
    ∃ e h k, OpenEnv w₁ e h ∧ LiveTxn w₁ e t k ∧ k.txn = some ⟨e, t⟩ ∧ k.dbi = dbi ∧
      Inv { lossy } w₁ := by
  rcases txnFromSexp_run I.graph txn with ⟨c, hr⟩ | ⟨e, h, t', k, s, -, -, -, hr, he, hk⟩
  · rw [hr] at hacc
    cases hacc
  rw [hr] at hacc
  cases hacc
  have husing : Using lossy (fun _ => False) w e (some t) (ensureDbi L t db) :=
    ensureDbi_using L db
  have hspec := husing w I.sound
    (⟨⟨h, he⟩, fun heq => ⟨k, by cases heq; exact hk⟩⟩ : Usable e (some t) w)
  rw [Triple, hdb] at hspec
  obtain ⟨S, U⟩ := hspec
  obtain ⟨h₁, he₁⟩ := U.env
  obtain ⟨k₁, hk₁⟩ := U.txn rfl
  obtain ⟨k', hk', hdbi⟩ := ensureDbi_dbi hdb
  obtain rfl : k₁ = k' := Option.some.inj (hk₁.at_ ▸ hk')
  exact ⟨e, h₁, k₁, he₁, hk₁, S.inv.graph.txnPtr hk₁, hdbi, S.inv⟩

/-- How a scan ends: with the first `limit` of the records `rest`, or by a condition once something
has gone wrong. -/
inductive Scans (T : Tables σ K) (values : Bool) (rest : List Record) (gets limit : ℕ)
    (w : World σ) : Except Exit (List Bytes × List Bytes) → World σ → Prop where
  | returned (lib : σ) (new : List Call) (quiet : Quiet T w.lib lib new)
      (none : limit = 0 → new.countP Call.isGet = 0)
      (some : 0 < limit → new.countP Call.isGet + 1 = gets + min limit (rest.length + 1)) :
    Scans T values rest gets limit w (.ok ((rest.take limit).map Prod.fst,
      if values then (rest.take limit).map Prod.snd else [])) (w.advanced lib new)
  | raised (c : Condition) (w' : World σ) (new : List Call) (hlog : w'.log = new ++ w.log)
      (faulted : Faulted T w.lib w'.lib new) :
    Scans T values rest gets limit w (.error (.stop c)) w'

/-- A scan of an accepted transaction, once its database is resolved. -/
theorem mdbxScan_scans (C : L.Cursors T) (I : Inv { lossy } w) {txn : Sexp} {db : List Bytes}
    {dbi : Dbi} (hacc : (txnFromSexp txn).run w = (.ok t, w))
    (hdb : (ensureDbi L t db).run w = (.ok dbi, w₁)) {limit : Double} {n : ℕ}
    (hle : limit.le (maxNativeInteger L) = true) (hn : (scanLimit L limit).run w₁ = (.ok n, w₁))
    (values reverse : Bool) (start : Option Bytes) {p : TxnPtr}
    (hp : (w₁.txns t).bind TxnHandle.txn = some p) :
    Scans T values ((T.table w₁.lib p dbi).listing reverse (start.map T.rank))
      (approach (T.table w₁.lib p dbi) reverse (start.map T.rank)) n w₁
      ((mdbxScan_ L txn limit values db start reverse).run w).1
      ((mdbxScan_ L txn limit values db start reverse).run w).2 := by
  obtain ⟨e, h, k, he, hk, htxn, rfl, I₁⟩ := I.resolved hacc hdb
  obtain rfl : p = ⟨e, t⟩ := by
    rw [hk.at_, Option.bind_some, htxn] at hp
    exact (Option.some.inj hp).symm
  have hrun : (mdbxScan_ L txn limit values db start reverse).run w = (do
      let found ← guard (scanCall L t n values reverse start) (poisonTxn t)
      refuse (found.outOfMemory = true) .scanOutOfMemory
      check found.rc
      pure (found.keys, if values then found.values else []) : Pkg σ _).run w₁ := by
    rw [mdbxScan_, Prog.bind_ok (refuse_pass (not_not.mpr hle)), Prog.bind_ok hacc,
      Prog.bind_ok hdb, Prog.bind_ok hn]
  rw [hrun]
  have hscan := scanCall_gathers C hk.at_ htxn n values reverse start
  rw [Triple] at hscan
  rcases hr : (scanCall L t n values reverse start).run w₁ with ⟨x | found, w₂⟩
  · rw [hr] at hscan
    obtain ⟨⟨info, rfl⟩, lib, new, rfl, faulted⟩ := hscan
    have hpoison := poisonTxn_run (w := w₁.advanced lib new) hk.at_ hk.owner he.at_
    rw [Prog.bind_error (guard_panic hr hpoison)]
    exact .raised _ _ new rfl faulted
  · rw [hr] at hscan
    rw [Prog.bind_ok (guard_ok hr)]
    cases hscan with
    | complete lib new quiet none some =>
      have : Scans T values _ _ n w₁ _ (w₁.advanced lib new) := .returned lib new quiet none some
      cases values <;> simpa [Scanned.add, refuse, check] using this
    | broken lib new found' faulted told =>
      by_cases hmemory : found.outOfMemory = true
      · rw [Prog.bind_error (refuse_run hmemory)]
        exact .raised _ _ new rfl faulted
      · rw [Prog.bind_ok (refuse_pass hmemory),
          Prog.bind_error (check_failure (told.resolve_left hmemory))]
        exact .raised _ _ new rfl faulted

end Entry

end Mdbx
