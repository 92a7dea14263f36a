import AIService.Sessions.Identity

/-!
# Bounded admission

`Store` is a `MemorySessionStorage` with all sessions that were ever made, and any caller may
use it: `perform` runs one operation, under the clock readings the operation carries.  A
session made with a lifetime that is not positive acts like one of lifetime zero, since the
clock never goes back.
-/

namespace AIService.Sessions

/-- One call, with what the clock showed when it looked at each entry. -/
inductive Operation
  /-- The constructor of a `Session`. -/
  | construct (id : Bytes) (maxAge now : Time)
  | refresh (ref : Ref) (now : Time)
  | admitSession (ref : Ref) (now : Time) (reading : Bytes → Time)
  | save (ref : Ref) (now : Time) (reading : Bytes → Time)
  | load (id : Bytes) (now : Time)
  | loadAndRefresh (id : Bytes) (now : Time)
  | updateExisting (ref : Ref) (now : Time)
  | remove (id : Bytes) (now : Time)
  | cleanExpired (reading : Bytes → Time)

namespace Operation

/-- The clock when the operation looks at the entry of `id`; `own` is the id of the session
it was called with. -/
def looks (own : Ref → Bytes) (id : Bytes) : Operation → Time
  | .admitSession ref now reading | .save ref now reading =>
      if id = own ref then now else reading id
  | .cleanExpired reading => reading id
  | .construct _ _ now | .refresh _ now | .load _ now | .loadAndRefresh _ now
  | .updateExisting _ now | .remove _ now => now

/-- The session the caller passes. -/
def argument : Operation → Option Ref
  | .refresh ref _ | .admitSession ref _ _ | .save ref _ _ | .updateExisting ref _ => some ref
  | _ => none

end Operation

/-- What a call returns; `threw` has the text of an exception. -/
inductive Result
  | nothing
  | admitted (result : Bool)
  | found (session : Option Ref)
  | updated (result : Bool)
  | threw (what : String)

structure Store where
  storage : MemorySessionStorage
  heap : Heap := fun _ => default
  /-- References below this one are taken. -/
  nextRef : Ref := 0
  clock : Time := 0

namespace Store

def perform (w : Store) : Operation → Result × Store
  | .construct id maxAge now =>
      (.nothing, { w with
        heap := Function.update w.heap w.nextRef (Session.new id maxAge now)
        nextRef := w.nextRef + 1 })
  | .refresh ref now =>
      (.nothing, { w with heap := Function.update w.heap ref ((w.heap ref).refresh now) })
  | .admitSession ref now reading =>
      let (result, storage) := w.storage.admitSession w.heap ref now reading
      (.admitted result, { w with storage := storage })
  | .save ref now reading =>
      match w.storage.save w.heap ref now reading with
      | (.ok (), storage) => (.nothing, { w with storage := storage })
      | (.error what, storage) => (.threw what, { w with storage := storage })
  | .load id now =>
      let (result, storage) := w.storage.load w.heap id now
      (.found result, { w with storage := storage })
  | .loadAndRefresh id now =>
      let (result, storage, heap) := w.storage.loadAndRefresh w.heap id now
      (.found result, { w with storage := storage, heap := heap })
  | .updateExisting ref now =>
      let (result, storage) := w.storage.updateExisting w.heap ref now
      (.updated result, { w with storage := storage })
  | .remove id _ => (.nothing, { w with storage := w.storage.remove id })
  | .cleanExpired reading =>
      (.nothing, { w with storage := w.storage.cleanExpiredLocked w.heap reading })

/-- The id of a session. -/
def own (w : Store) (ref : Ref) : Bytes := (w.heap ref).sessionId

/-- The entry of `id` is `ref`, unexpired when `op` looks at it. -/
def Live (w : Store) (op : Operation) (id : Bytes) (ref : Ref) : Prop :=
  w.storage.sessions.find? id = some ref ∧ op.looks w.own id < (w.heap ref).expiryTime

end Store

/-- One operation, by any caller; the clock never goes back. -/
inductive Performs : Store → List (Operation × Result) → Store → Prop
  | mk {w : Store} (op : Operation) {now : Time} :
    (∀ id, w.clock ≤ op.looks w.own id ∧ op.looks w.own id ≤ now) →
    (∀ ref, op.argument = some ref → ref < w.nextRef) →
    Performs w [(op, (w.perform op).1)] { (w.perform op).2 with clock := now }

/-! ## What an operation does to the entries -/

/-- `s'` is `s` without some entries that were expired when they were looked at. -/
structure Discards (heap : Heap) (looks : Bytes → Time) (s s' : MemorySessionStorage) : Prop where
  capacity : s'.capacity = s.capacity
  smaller : s'.sessions.size ≤ s.sessions.size
  fewer : ∀ id ref, s'.sessions.find? id = some ref → s.sessions.find? id = some ref
  spares : ∀ id ref, s.sessions.find? id = some ref → looks id < (heap ref).expiryTime →
    s'.sessions.find? id = some ref

section discards

variable {s s' s'' : MemorySessionStorage} {heap : Heap} {looks : Bytes → Time} {ref : Ref}

theorem Discards.refl : Discards heap looks s s where
  capacity := rfl
  smaller := le_rfl
  fewer _ _ found := found
  spares _ _ found _ := found

theorem Discards.trans (first : Discards heap looks s s') (second : Discards heap looks s' s'') :
    Discards heap looks s s'' where
  capacity := second.capacity.trans first.capacity
  smaller := second.smaller.trans first.smaller
  fewer id ref found := first.fewer id ref (second.fewer id ref found)
  spares id ref found live := second.spares id ref (first.spares id ref found live) live

theorem Discards.erase {id : Bytes}
    (old : ∀ ref, s.sessions.find? id = some ref → (heap ref).expiryTime ≤ looks id) :
    Discards heap looks s { s with sessions := s.sessions.erase id } where
  capacity := rfl
  smaller := s.sessions.size_filter_le _
  fewer c r still := by
    rw [SortedMap.find?_erase] at still
    split at still
    · cases still
    · exact still
  spares c r found live := by
    rw [SortedMap.find?_erase, if_neg]
    · exact found
    · rintro rfl
      exact absurd live (not_lt.mpr (old r found))

theorem Discards.sweep {reading : Bytes → Time}
    (same : ∀ id ref, s.sessions.find? id = some ref → looks id = reading id) :
    Discards heap looks s (s.cleanExpiredLocked heap reading) where
  capacity := rfl
  smaller := s.sessions.size_filter_le _
  fewer c r still := by
    rw [MemorySessionStorage.cleanExpiredLocked, SortedMap.find?_filter] at still
    exact Option.eq_some_of_filter_eq_some still
  spares c r found live := by
    rw [same c r found] at live
    rw [MemorySessionStorage.cleanExpiredLocked, SortedMap.find?_filter, found]
    simp [live]

theorem load_discards {id : Bytes} {now : Time} :
    Discards heap (fun _ => now) s (s.load heap id now).2 := by
  unfold MemorySessionStorage.load
  split
  · exact .refl
  · next ref found =>
      split
      · next old =>
          refine .erase fun r there => ?_
          rw [found] at there
          cases there
          exact old
      · exact .refl

theorem loadAndRefresh_discards {id : Bytes} {now : Time} :
    Discards heap (fun _ => now) s (s.loadAndRefresh heap id now).2.1 := by
  unfold MemorySessionStorage.loadAndRefresh
  split
  · exact .refl
  · next ref found =>
      split
      · next old =>
          refine .erase fun r there => ?_
          rw [found] at there
          cases there
          exact old
      · exact .refl

theorem updateExisting_discards {now : Time} :
    Discards heap (fun _ => now) s (s.updateExisting heap ref now).2 := by
  unfold MemorySessionStorage.updateExisting
  split
  · exact .refl
  · next current found =>
      split
      · exact .refl
      · next same =>
          rw [not_not.mp same] at found
          split
          · next old =>
              refine .erase fun r there => ?_
              rw [found] at there
              cases there
              exact old
          · exact .refl

/-- The number of entries that are unexpired when the sweep of an admission looks at them. -/
def unexpired (s : MemorySessionStorage) (heap : Heap) (ref : Ref) (reading : Bytes → Time) : Nat :=
  (s.sessions.filter fun id r => id ≠ (heap ref).sessionId && reading id < (heap r).expiryTime).size

theorem admitBounded_cases {reading : Bytes → Time} {result : Bool}
    (absent : s.sessions.find? (heap ref).sessionId = none)
    (same : ∀ id, id ≠ (heap ref).sessionId → looks id = reading id)
    (admitted : s.admitBounded heap ref reading = (result, s')) :
    ∃ swept, Discards heap looks s swept ∧
      (result = false ∧ s' = swept ∧ s.capacity ≤ unexpired s heap ref reading ∨
        result = true ∧ s' = { swept with sessions := swept.sessions.insert (heap ref).sessionId ref } ∧
          swept.sessions.size < s.capacity ∧ ¬ s.capacity ≤ unexpired s heap ref reading) := by
  have count : unexpired s heap ref reading = (s.cleanExpiredLocked heap reading).sessions.size := by
    rw [unexpired, MemorySessionStorage.cleanExpiredLocked]
    dsimp only
    refine congrArg SortedMap.size (SortedMap.filter_congr s.sessions fun id r found => ?_)
    have other : id ≠ (heap ref).sessionId := by
      rintro rfl
      rw [absent] at found
      cases found
    simp [other]
  have sweeps : Discards heap looks s (s.cleanExpiredLocked heap reading) := .sweep fun id r found => by
    refine same id ?_
    rintro rfl
    rw [absent] at found
    cases found
  rw [count]
  unfold MemorySessionStorage.admitBounded at admitted
  by_cases full : s.capacity ≤ s.sessions.size
  · simp only [if_pos full] at admitted
    refine ⟨_, sweeps, ?_⟩
    split at admitted
    · next still =>
        cases admitted
        exact .inl ⟨rfl, rfl, still⟩
    · next room =>
        cases admitted
        exact .inr ⟨rfl, rfl, not_le.mp room, room⟩
  · simp only [if_neg full] at admitted
    cases admitted
    refine ⟨s, .refl, .inr ⟨rfl, rfl, not_le.mp full, fun still => full ?_⟩⟩
    exact still.trans sweeps.smaller

/-- `admit` refuses a session: another one lives under its id, or the storage stays full. -/
def Refuses (s : MemorySessionStorage) (heap : Heap) (ref : Ref) (now : Time)
    (reading : Bytes → Time) : Prop :=
  (∃ previous, s.sessions.find? (heap ref).sessionId = some previous ∧ previous ≠ ref ∧
    now < (heap previous).expiryTime) ∨
  (∀ previous, s.sessions.find? (heap ref).sessionId = some previous →
    previous ≠ ref ∧ (heap previous).expiryTime ≤ now) ∧
    s.capacity ≤ unexpired s heap ref reading

/-- All that `admit` does. -/
theorem admitSession_cases {now : Time} {reading : Bytes → Time} {result : Bool}
    (own : looks (heap ref).sessionId = now)
    (same : ∀ id, id ≠ (heap ref).sessionId → looks id = reading id)
    (admitted : s.admitSession heap ref now reading = (result, s')) :
    (result = false ∧ Refuses s heap ref now reading ∧ Discards heap looks s s') ∨
    result = true ∧ ¬ Refuses s heap ref now reading ∧
      (s' = s ∧ s.sessions.find? (heap ref).sessionId = some ref ∨
        ∃ swept, Discards heap looks s swept ∧ swept.sessions.find? (heap ref).sessionId = none ∧
          swept.sessions.size < s.capacity ∧
          s' = { swept with sessions := swept.sessions.insert (heap ref).sessionId ref }) := by
  unfold MemorySessionStorage.admitSession at admitted
  split at admitted
  · next absent =>
      have free : ∀ previous, s.sessions.find? (heap ref).sessionId = some previous →
          previous ≠ ref ∧ (heap previous).expiryTime ≤ now := by
        intro previous found
        rw [absent] at found
        cases found
      obtain ⟨swept, discards, ⟨rfl, rfl, full⟩ | ⟨rfl, rfl, room, notFull⟩⟩ :=
        admitBounded_cases absent same admitted
      · exact .inl ⟨rfl, .inr ⟨free, full⟩, discards⟩
      · refine .inr ⟨rfl, ?_, .inr ⟨swept, discards, ?_, room, rfl⟩⟩
        · rintro (⟨previous, found, -⟩ | ⟨-, full⟩)
          · rw [absent] at found
            cases found
          · exact notFull full
        · rw [Option.eq_none_iff_forall_ne_some]
          intro r found
          rw [discards.fewer _ r found] at absent
          cases absent
  · next previous found =>
      split at admitted
      · next itself =>
          subst itself
          cases admitted
          refine .inr ⟨rfl, ?_, .inl ⟨rfl, found⟩⟩
          rintro (⟨r, other, apart, -⟩ | ⟨free, -⟩)
          · rw [found] at other
            cases other
            exact apart rfl
          · exact (free previous found).1 rfl
      · next apart =>
          split at admitted
          · next live =>
              cases admitted
              exact .inl ⟨rfl, .inl ⟨previous, found, apart, live⟩, .refl⟩
          · next old =>
              have old := not_lt.mp old
              have erases : Discards heap looks s
                  { s with sessions := s.sessions.erase (heap ref).sessionId } := .erase fun r there => by
                rw [found] at there
                cases there
                exact old.trans own.ge
              have absent : (s.sessions.erase (heap ref).sessionId).find? (heap ref).sessionId = none := by
                rw [SortedMap.find?_erase, if_pos rfl]
              have free : ∀ r, s.sessions.find? (heap ref).sessionId = some r →
                  r ≠ ref ∧ (heap r).expiryTime ≤ now := by
                intro r there
                rw [found] at there
                cases there
                exact ⟨apart, old⟩
              have count : unexpired { s with sessions := s.sessions.erase (heap ref).sessionId } heap
                  ref reading = unexpired s heap ref reading := by
                unfold unexpired SortedMap.erase
                rw [SortedMap.filter_filter]
                simp
              obtain ⟨swept, discards, ⟨rfl, rfl, full⟩ | ⟨rfl, rfl, room, notFull⟩⟩ :=
                admitBounded_cases absent same admitted
              · exact .inl ⟨rfl, .inr ⟨free, count ▸ full⟩, erases.trans discards⟩
              · refine .inr ⟨rfl, ?_, .inr ⟨swept, erases.trans discards, ?_, room, rfl⟩⟩
                · rintro (⟨r, there, -, live⟩ | ⟨-, full⟩)
                  · exact absurd live (not_lt.mpr (free r there).2)
                  · exact notFull (count ▸ full)
                · rw [Option.eq_none_iff_forall_ne_some]
                  intro r there
                  rw [discards.fewer _ r there] at absent
                  cases absent

end discards

/-! ## The store -/

namespace Store

/-- Every entry is filed under the id of its session, and there are at most `capacity`. -/
structure Inv (capacity : Nat) (w : Store) : Prop where
  bound : w.storage.capacity = capacity
  size : w.storage.sessions.size ≤ capacity
  filed : ∀ id ref, w.storage.sessions.find? id = some ref → w.own ref = id ∧ ref < w.nextRef

variable {w w' : Store} {capacity : Nat} {op : Operation} {result : Result}

/-- What an operation other than `remove` does to the storage. -/
theorem perform_storage (w : Store) (op : Operation) (kept : ∀ id now, op ≠ .remove id now) :
    ∃ swept, Discards w.heap (fun id => op.looks w.own id) w.storage swept ∧
      ((w.perform op).2.storage = swept ∨ ∃ ref, op.argument = some ref ∧
        swept.sessions.find? (w.own ref) = none ∧ swept.sessions.size < w.storage.capacity ∧
        (w.perform op).2.storage =
          { swept with sessions := swept.sessions.insert (w.own ref) ref }) := by
  have admits {ref : Ref} {now : Time} {reading : Bytes → Time} {result : Bool}
      {storage : MemorySessionStorage}
      (admitted : w.storage.admitSession w.heap ref now reading = (result, storage)) :
      ∃ swept, Discards w.heap (fun id => if id = w.own ref then now else reading id) w.storage swept ∧
        (storage = swept ∨ swept.sessions.find? (w.own ref) = none ∧
          swept.sessions.size < w.storage.capacity ∧
          storage = { swept with sessions := swept.sessions.insert (w.own ref) ref }) := by
    have own : (if (w.heap ref).sessionId = w.own ref then now else reading (w.heap ref).sessionId) =
        now := if_pos rfl
    rcases admitSession_cases own (fun id other => if_neg other) admitted with
      ⟨-, -, discards⟩ | ⟨-, -, ⟨rfl, -⟩ | ⟨swept, discards, absent, room, eq⟩⟩
    · exact ⟨storage, discards, .inl rfl⟩
    · exact ⟨_, .refl, .inl rfl⟩
    · exact ⟨swept, discards, .inr ⟨absent, room, eq⟩⟩
  cases op with
  | construct | refresh => exact ⟨w.storage, .refl, .inl rfl⟩
  | admitSession ref now reading =>
      obtain ⟨swept, discards, done⟩ := admits (Prod.eta (w.storage.admitSession w.heap ref now reading)).symm
      exact ⟨swept, discards, done.imp id fun inserted => ⟨ref, rfl, inserted⟩⟩
  | save ref now reading =>
      cases admitted : w.storage.admitSession w.heap ref now reading with
      | mk result storage =>
          obtain ⟨swept, discards, done⟩ := admits admitted
          have saved : (w.perform (.save ref now reading)).2.storage = storage := by
            rw [perform, MemorySessionStorage.save, admitted]
            cases result <;> rfl
          rw [saved]
          exact ⟨swept, discards, done.imp id fun inserted => ⟨ref, rfl, inserted⟩⟩
  | load id now => exact ⟨_, load_discards, .inl rfl⟩
  | loadAndRefresh id now => exact ⟨_, loadAndRefresh_discards, .inl rfl⟩
  | updateExisting ref now => exact ⟨_, updateExisting_discards, .inl rfl⟩
  | remove id now => exact absurd rfl (kept id now)
  | cleanExpired reading => exact ⟨_, .sweep fun _ _ _ => rfl, .inl rfl⟩

/-- A session keeps its id. -/
theorem perform_own (op : Operation) {ref : Ref} (made : ref < w.nextRef) :
    (w.perform op).2.own ref = w.own ref ∧ ref < (w.perform op).2.nextRef := by
  have refreshed (r : Ref) (now : Time) :
      (Function.update w.heap r ((w.heap r).refresh now) ref).sessionId = (w.heap ref).sessionId := by
    rw [Function.update_apply]
    split
    · next same =>
        rw [same]
        rfl
    · rfl
  cases op with
  | construct id maxAge now =>
      refine ⟨?_, Nat.lt_succ_of_lt made⟩
      exact congrArg _ (Function.update_of_ne (Nat.ne_of_lt made) _ _)
  | refresh r now => exact ⟨refreshed r now, made⟩
  | save r now reading =>
      rw [perform]
      split <;> exact ⟨rfl, made⟩
  | loadAndRefresh id now =>
      refine ⟨?_, made⟩
      change ((w.storage.loadAndRefresh w.heap id now).2.2 ref).sessionId = (w.heap ref).sessionId
      unfold MemorySessionStorage.loadAndRefresh
      split
      · rfl
      · split
        · rfl
        · exact refreshed _ now
  | admitSession | load | updateExisting | remove | cleanExpired => exact ⟨rfl, made⟩

/-- A live entry stays, unless it is removed by its id. -/
theorem live_stays {id : Bytes} {ref : Ref} (live : w.Live op id ref)
    (kept : ∀ now, op ≠ .remove id now) :
    (w.perform op).2.storage.sessions.find? id = some ref := by
  by_cases removes : ∃ other now, op = .remove other now
  · obtain ⟨other, now, rfl⟩ := removes
    have apart : other ≠ id := by
      rintro rfl
      exact kept now rfl
    change (w.storage.sessions.erase other).find? id = some ref
    rw [SortedMap.find?_erase, if_neg apart]
    exact live.1
  · obtain ⟨swept, discards, same | ⟨other, -, absent, -, inserted⟩⟩ :=
      perform_storage w op fun other now eq => removes ⟨other, now, eq⟩
    · rw [same]
      exact discards.spares id ref live.1 live.2
    · have still := discards.spares id ref live.1 live.2
      have apart : w.own other ≠ id := by
        rintro rfl
        rw [absent] at still
        cases still
      rw [inserted, SortedMap.find?_insert, if_neg apart]
      exact still

theorem Inv.perform (inv : Inv capacity w)
    (known : ∀ ref, op.argument = some ref → ref < w.nextRef) : Inv capacity (w.perform op).2 := by
  by_cases removes : ∃ id now, op = .remove id now
  · obtain ⟨id, now, rfl⟩ := removes
    refine ⟨inv.bound, (w.storage.sessions.size_filter_le _).trans inv.size, fun other ref found => ?_⟩
    change (w.storage.sessions.erase id).find? other = some ref at found
    rw [SortedMap.find?_erase] at found
    split at found
    · cases found
    · exact inv.filed other ref found
  · obtain ⟨swept, discards, same | ⟨new, passed, absent, room, inserted⟩⟩ :=
      perform_storage w op fun id now eq => removes ⟨id, now, eq⟩
    · refine ⟨?_, ?_, fun id ref found => ?_⟩
      · rw [same, discards.capacity]
        exact inv.bound
      · rw [same]
        exact discards.smaller.trans inv.size
      · rw [same] at found
        obtain ⟨own, made⟩ := inv.filed id ref (discards.fewer id ref found)
        obtain ⟨kept, still⟩ := perform_own op made
        exact ⟨kept.trans own, still⟩
    · refine ⟨?_, ?_, fun id ref found => ?_⟩
      · rw [inserted]
        exact discards.capacity.trans inv.bound
      · rw [inserted]
        have grown := swept.sessions.size_insert_le (w.own new) new
        have bound := inv.bound
        dsimp only
        omega
      · rw [inserted] at found
        dsimp only at found
        rw [SortedMap.find?_insert] at found
        split at found
        · next own =>
            cases found
            obtain ⟨kept, still⟩ := perform_own op (known new passed)
            exact ⟨kept.trans own, still⟩
        · obtain ⟨own, made⟩ := inv.filed id ref (discards.fewer id ref found)
          obtain ⟨kept, still⟩ := perform_own op made
          exact ⟨kept.trans own, still⟩

/-- What `admit` answers, and that a session it took can be loaded. -/
theorem admit_answers (w : Store) (ref : Ref) (now : Time) (reading : Bytes → Time) :
    ((w.storage.admitSession w.heap ref now reading).1 = false ↔
      Refuses w.storage w.heap ref now reading) ∧
    ((w.storage.admitSession w.heap ref now reading).1 = true →
      ∀ later < (w.heap ref).expiryTime,
        ((w.storage.admitSession w.heap ref now reading).2.load w.heap (w.own ref) later).1 =
          some ref) := by
  cases admitted : w.storage.admitSession w.heap ref now reading with
  | mk result storage =>
      have own : (if (w.heap ref).sessionId = w.own ref then now else reading (w.heap ref).sessionId) =
          now := if_pos rfl
      rcases admitSession_cases own (fun id other => if_neg other) admitted with
        ⟨rfl, refuses, -⟩ | ⟨rfl, takes, stored⟩
      · exact ⟨by simpa using refuses, nofun⟩
      · refine ⟨by simpa using takes, fun _ later early => ?_⟩
        have found : storage.sessions.find? (w.own ref) = some ref := by
          rcases stored with ⟨rfl, found⟩ | ⟨swept, -, -, -, rfl⟩
          · exact found
          · exact swept.sessions.find?_insert_self _ _
        rw [MemorySessionStorage.load, found]
        exact congrArg Prod.fst (if_neg (not_le.mpr early))

end Store

/-- In every reachable state: at most `capacity` entries, each filed under its id.  An entry
that is unexpired when an operation looks at it stays, unless that operation removes its id.
`admit` and `save` refuse exactly when another session lives under the id or the storage
stays full of live ones, and a session they take can be loaded while it is unexpired. -/
theorem storage_invariant {capacity : Nat} {storage : MemorySessionStorage} {start : Time}
    {tr : List (Operation × Result)} {w : Store}
    (made : MemorySessionStorage.new capacity = .ok storage)
    (run : Run Performs { storage := storage, clock := start } tr w) :
    w.storage.sessions.size ≤ capacity ∧
    (∀ id ref, w.storage.sessions.find? id = some ref → w.own ref = id) ∧
    ∀ op result w', Performs w [(op, result)] w' →
      (∀ id ref, w.Live op id ref → (∀ now, op ≠ .remove id now) →
        w'.storage.sessions.find? id = some ref) ∧
      ∀ ref now reading,
        (op = .admitSession ref now reading →
          (result = .admitted false ↔ Refuses w.storage w.heap ref now reading) ∧
          (result = .admitted true → ∀ later < (w'.heap ref).expiryTime,
            (w'.storage.load w'.heap (w'.own ref) later).1 = some ref)) ∧
        (op = .save ref now reading →
          (result = .threw "Session admission rejected" ↔
            Refuses w.storage w.heap ref now reading) ∧
          (result = .nothing → ∀ later < (w'.heap ref).expiryTime,
            (w'.storage.load w'.heap (w'.own ref) later).1 = some ref)) := by
  have inv : Store.Inv capacity w := by
    refine run.invariant (I := fun w _ => Store.Inv capacity w) ?_ fun inv step => ?_
    · rw [MemorySessionStorage.new] at made
      split at made
      · cases made
      · cases made
        exact ⟨rfl, Nat.zero_le _, fun id ref found => nomatch found⟩
    · cases step with
      | mk op inTime known =>
          have kept := inv.perform known
          exact ⟨kept.bound, kept.size, kept.filed⟩
  refine ⟨inv.size, fun id ref found => (inv.filed id ref found).1, fun op result w' step => ?_⟩
  cases step with
  | mk _ inTime known =>
      refine ⟨fun id ref live kept => Store.live_stays live kept, fun ref now reading =>
        ⟨fun eq => ?_, fun eq => ?_⟩⟩
      · subst eq
        obtain ⟨refused, taken⟩ := Store.admit_answers w ref now reading
        refine ⟨?_, fun took => taken (Result.admitted.inj took)⟩
        rw [← refused]
        exact ⟨Result.admitted.inj, congrArg Result.admitted⟩
      · subst eq
        obtain ⟨refused, taken⟩ := Store.admit_answers w ref now reading
        cases admitted : w.storage.admitSession w.heap ref now reading with
        | mk result storage =>
            rw [admitted] at refused taken
            rw [Store.perform, MemorySessionStorage.save, admitted]
            cases result with
            | true => exact ⟨⟨nofun, fun refuses => nomatch refused.mpr refuses⟩, fun _ => taken rfl⟩
            | false => exact ⟨⟨fun _ => refused.mp rfl, fun _ => rfl⟩, nofun⟩

/-- A store for one session takes it, and files it under its id. -/
theorem storage_invariant_first_session : ∃ tr w, Run Performs { storage := { capacity := 1 } } tr w ∧
    w.storage.sessions.find? (bytes "a") = some 0 ∧ w.storage.sessions.size ≤ 1 := by
  have made : Run Performs { storage := { capacity := 1 } } _ _ :=
    .single (.mk (.construct (bytes "a") 10 0) (fun _ => ⟨le_rfl, le_rfl⟩) nofun)
  have admitted := made.tail (@Performs.mk _ (.admitSession 0 1 fun _ => 1) 1 (fun id => by
    simp only [Operation.looks, ite_self, le_refl, and_true]
    exact Nat.zero_le 1) fun ref passed => by
      cases passed
      exact Nat.zero_lt_one)
  exact ⟨_, _, admitted, by decide +kernel, (storage_invariant rfl admitted).1⟩

end AIService.Sessions
