import AIService.Sessions.Lifetime
import Mathlib.Data.List.Perm.Basic
import Mathlib.Data.List.Count
import Mathlib.Order.Nat

/-!
# A cookie resolves exactly while its session is alive

`Inv` ties the storage to `status`: an entry names the session the trace says it names
and expires `maxAge` after its last access, and what the trace says is alive has its
entry.  Every operation either prunes expired entries, which `Inv.prune` covers, or
changes one entry.
-/

namespace AIService.Sessions

open Http

/-! ## What the locked sections do to the storage -/

/-- `s'` is `s` without some entries whose sessions were expired at `now`. -/
structure Pruned (heap : Heap) (now : Time) (s s' : MemorySessionStorage) : Prop where
  fewer : ∀ c ref, s'.sessions.find? c = some ref → s.sessions.find? c = some ref
  expired : ∀ c ref, s.sessions.find? c = some ref →
    s'.sessions.find? c = some ref ∨ (heap ref).expiryTime ≤ now

section storage

variable {s s' : MemorySessionStorage} {heap : Heap} {ref : Ref} {mid now : Time}
  {reading : Bytes → Time}

theorem Pruned.refl : Pruned heap now s s where
  fewer := fun _ _ found => found
  expired := fun _ _ found => .inl found

theorem Pruned.erase {c : Bytes} (found : s.sessions.find? c = some ref)
    (old : (heap ref).expiryTime ≤ now) :
    Pruned heap now s { s with sessions := s.sessions.erase c } where
  fewer := fun d r still => by
    rw [SortedMap.find?_erase] at still
    split at still
    · cases still
    · exact still
  expired := fun d r had => by
    rw [SortedMap.find?_erase]
    split
    · next same =>
        subst same
        rw [found] at had
        cases had
        exact .inr old
    · exact .inl had

theorem cleanExpiredLocked_pruned (inTime : ∀ id, reading id ≤ now) :
    Pruned heap now s (s.cleanExpiredLocked heap reading) where
  fewer := fun c r still => by
    rw [MemorySessionStorage.cleanExpiredLocked, SortedMap.find?_filter] at still
    exact Option.eq_some_of_filter_eq_some still
  expired := fun c r had => by
    rw [MemorySessionStorage.cleanExpiredLocked, SortedMap.find?_filter, had]
    rcases Nat.lt_or_ge (reading c) (heap r).expiryTime with young | old
    · left
      simp [young]
    · exact .inr (old.trans (inTime c))

theorem updateExisting_pruned (ref : Ref) : Pruned heap now s (s.updateExisting heap ref now).2 := by
  unfold MemorySessionStorage.updateExisting
  split
  · exact .refl
  · next current found =>
      split
      · exact .refl
      · next same =>
          split
          · next old =>
              rw [not_not.mp same] at found
              exact .erase found old
          · exact .refl

/-- Admission sweeps if the storage is full, and then stores the session or does not. -/
theorem admitBounded_spec {stored : Bool} (inTime : ∀ id, reading id ≤ now)
    (admitted : s.admitBounded heap ref reading = (stored, s')) :
    ∃ swept, Pruned heap now s swept ∧ s' = if stored then
      { swept with sessions := swept.sessions.insert (heap ref).sessionId ref } else swept := by
  let swept := if s.capacity ≤ s.sessions.size then s.cleanExpiredLocked heap reading else s
  have pruned : Pruned heap now s swept := by
    dsimp only [swept]
    split
    · exact cleanExpiredLocked_pruned inTime
    · exact .refl
  refine ⟨swept, pruned, ?_⟩
  change (if swept.capacity ≤ swept.sessions.size then (false, swept) else (true,
    { swept with sessions := swept.sessions.insert (heap ref).sessionId ref })) = _ at admitted
  split at admitted
  · obtain ⟨rfl, rfl⟩ := Prod.mk.inj admitted
    rfl
  · obtain ⟨rfl, rfl⟩ := Prod.mk.inj admitted
    rfl

theorem admit_spec {stored : Bool} (inTime : ∀ id, reading id ≤ now)
    (absent : s.sessions.find? (heap ref).sessionId = none)
    (admitted : s.admitSession heap ref mid reading = (stored, s')) :
    ∃ swept, Pruned heap now s swept ∧ s' = if stored then
      { swept with sessions := swept.sessions.insert (heap ref).sessionId ref } else swept := by
  unfold MemorySessionStorage.admitSession at admitted
  rw [absent] at admitted
  exact admitBounded_spec inTime admitted

end storage

/-! ## The invariant -/

def Obs.issues (ref : Ref) : Obs → Bool
  | .issued _ _ r _ _ => r == ref
  | _ => false

def Call.holds (ref : Ref) (call : Call) : Bool :=
  match call.stage with
  | .constructed r _ => r == ref
  | .missed => false

/-- What ties the storage, the objects and the running calls to the trace so far. -/
structure Inv (maxAge : Time) (w : World) (tr : List Obs) : Prop where
  generated : ∀ ref < w.nextRef, ∃ draws, (w.heap ref).sessionId = generateSessionId draws
  aged : ∀ ref < w.nextRef, (w.heap ref).maxAge = maxAge
  distinct : ∀ r₁ < w.nextRef, ∀ r₂ < w.nextRef,
    (w.heap r₁).sessionId = (w.heap r₂).sessionId → r₁ = r₂
  stored : ∀ c ref, w.storage.sessions.find? c = some ref →
    ∃ last, status maxAge c tr = some (ref, last) ∧ (w.heap ref).expiryTime = last + maxAge
  kept : ∀ c ref last, status maxAge c tr = some (ref, last) →
    w.storage.sessions.find? c = some ref ∨ last + maxAge ≤ w.clock
  issued : ∀ call id ref born resp, .issued call id ref born resp ∈ tr →
    ref < w.nextRef ∧ (w.heap ref).sessionId = id
  fresh : ∀ ref, tr.countP (Obs.issues ref) + w.calls.countP (Call.holds ref) ≤
    if ref < w.nextRef then 1 else 0
  pending : ∀ call ∈ w.calls, ∀ ref born, call.stage = .constructed ref born →
    (w.heap ref).expiryTime = born + maxAge

/-- A manager at start-up, when the clock shows `start`. -/
def World.initial (capacity : Nat) (start : Time) : World :=
  { storage := { capacity := capacity }, clock := start }

theorem Inv.initial (maxAge : Time) (capacity : Nat) (start : Time) :
    Inv maxAge (.initial capacity start) [] where
  generated := fun _ below => absurd below (Nat.not_lt_zero _)
  aged := fun _ below => absurd below (Nat.not_lt_zero _)
  distinct := fun _ below => absurd below (Nat.not_lt_zero _)
  stored := fun _ _ found => nomatch found
  kept := fun _ _ _ named => nomatch named
  issued := fun _ _ _ _ _ member => absurd member List.not_mem_nil
  fresh := fun _ => Nat.zero_le _
  pending := fun _ member => absurd member List.not_mem_nil

/-- Only an issue makes a cookie value name a session. -/
theorem status_issued {maxAge : Time} {c : Bytes} {tr : List Obs} {ref : Ref} {last : Time}
    (named : status maxAge c tr = some (ref, last)) :
    ∃ call born resp, .issued call c ref born resp ∈ tr := by
  induction tr using List.reverseRecOn generalizing last with
  | nil => cases named
  | append_singleton before o ih =>
      rw [status_append_singleton] at named
      have earlier {last : Time} (named : status maxAge c before = some (ref, last)) :
          ∃ call born resp, .issued call c ref born resp ∈ before ++ [o] := by
        obtain ⟨call, born, resp, member⟩ := ih named
        exact ⟨call, born, resp, List.mem_append_left _ member⟩
      have accessed {at_ : Time}
          (named : ((status maxAge c before).bind fun found =>
            if at_ < found.2 + maxAge then some (found.1, at_) else none) = some (ref, last)) :
          ∃ call born resp, .issued call c ref born resp ∈ before ++ [o] := by
        obtain ⟨⟨r, earliest⟩, named', soon⟩ := Option.bind_eq_some_iff.mp named
        dsimp only at soon
        split at soon
        · cases soon
          exact earlier named'
        · cases soon
      cases o with
      | issued call id r born resp =>
          simp only [observe] at named
          split at named
          · next same =>
              cases named
              subst same
              exact ⟨call, last, resp, by simp⟩
          · exact earlier named
      | resumed call id at_ r given resp =>
          simp only [observe] at named
          split at named
          · exact accessed named
          · exact earlier named
      | missed call id at_ given =>
          simp only [observe] at named
          split at named
          · exact accessed named
          · exact earlier named
      | destroyed id =>
          simp only [observe] at named
          split at named
          · cases named
          · exact earlier named
      | refused call thrown => exact earlier named
      | gotValue r key value => exact earlier named

/-! ## Generated ids -/

theorem generateSessionId_ne_nil (draws : Vector (Fin 16) 32) : generateSessionId draws ≠ [] := by
  intro empty
  have length := congrArg List.length empty
  rw [generateSessionId, List.length_map, Vector.length_toList] at length
  cases length

/-- An id cannot be cut short by the cookie parser. -/
theorem semicolon_not_mem_generateSessionId (draws : Vector (Fin 16) 32) :
    semicolon ∉ generateSessionId draws := by
  have digits : ∀ digit : Fin 16, hexDigit digit ≠ semicolon := by decide
  intro member
  obtain ⟨digit, -, eq⟩ := List.mem_map.mp member
  exact digits digit eq

section invariant

variable {maxAge : Time} {w : World} {tr : List Obs}

theorem Inv.status_named (inv : Inv maxAge w tr) {c : Bytes} {ref : Ref} {last : Time}
    (named : status maxAge c tr = some (ref, last)) :
    ref < w.nextRef ∧ (w.heap ref).sessionId = c := by
  obtain ⟨call, born, resp, member⟩ := status_issued named
  exact inv.issued call c ref born resp member

theorem Inv.status_generated (inv : Inv maxAge w tr) {c : Bytes} {ref : Ref} {last : Time}
    (named : status maxAge c tr = some (ref, last)) : ∃ draws, c = generateSessionId draws := by
  obtain ⟨below, rfl⟩ := inv.status_named named
  exact inv.generated ref below

/-- Stored entries are keyed by the id of their session. -/
theorem Inv.stored_named (inv : Inv maxAge w tr) {c : Bytes} {ref : Ref}
    (found : w.storage.sessions.find? c = some ref) :
    ref < w.nextRef ∧ (w.heap ref).sessionId = c := by
  obtain ⟨last, named, -⟩ := inv.stored c ref found
  exact inv.status_named named

/-- A session is not issued before its call ends, nor is it made twice. -/
theorem Inv.not_issued_of_holds (inv : Inv maxAge w tr) {call : Call} (ref : Ref)
    (member : call ∈ w.calls) (holds : call.holds ref) :
    ref < w.nextRef ∧ tr.countP (Obs.issues ref) = 0 := by
  have counted : 0 < w.calls.countP (Call.holds ref) :=
    List.countP_pos_iff.mpr ⟨call, member, holds⟩
  have fresh := inv.fresh ref
  split at fresh
  · next below => exact ⟨below, by omega⟩
  · omega

theorem issued_count {c : Bytes} {ref : Ref} {last : Time}
    (named : status maxAge c tr = some (ref, last)) : 0 < tr.countP (Obs.issues ref) := by
  obtain ⟨call, born, resp, member⟩ := status_issued named
  exact List.countP_pos_iff.mpr ⟨_, member, beq_self_eq_true ref⟩

/-- A pending session is not the one a cookie value names. -/
theorem Inv.named_ne_pending (inv : Inv maxAge w tr) {c : Bytes} {ref : Ref} {last : Time}
    {call : Call} (named : status maxAge c tr = some (ref, last)) (member : call ∈ w.calls) :
    call.holds ref = false := by
  rw [Bool.eq_false_iff]
  intro holds
  have issued := issued_count named
  have unissued := (inv.not_issued_of_holds _ member holds).2
  omega

/-- No cookie value is issued twice. -/
theorem Inv.once (inv : Inv maxAge w tr) {c : Bytes} :
    ∀ before call r born resp after,
      tr = before ++ .issued call c r born resp :: after → ¬ Issued after c := by
  rintro before call r born resp after rfl ⟨call', r', born', resp', member⟩
  have first := inv.issued call c r born resp (by simp)
  have second := inv.issued call' c r' born' resp' (by simp [member])
  have same : r' = r := inv.distinct r' second.1 r first.1 (second.2.trans first.2.symm)
  subst same
  have later : 0 < after.countP (Obs.issues r') :=
    List.countP_pos_iff.mpr ⟨_, member, beq_self_eq_true r'⟩
  have fresh := inv.fresh r'
  have own : Obs.issues r' (.issued call c r' born resp) := beq_self_eq_true r'
  rw [if_pos first.1, List.countP_append, List.countP_cons_of_pos own] at fresh
  omega

/-! ## Each operation keeps the invariant -/

/-- Dropping entries that have expired changes nothing the trace can tell. -/
theorem Inv.prune (inv : Inv maxAge w tr) {storage : MemorySessionStorage} {now : Time}
    (later : w.clock ≤ now) (pruned : Pruned w.heap now w.storage storage) :
    Inv maxAge { w with storage := storage, clock := now } tr where
  generated := inv.generated
  aged := inv.aged
  distinct := inv.distinct
  stored := fun c ref found => inv.stored c ref (pruned.fewer c ref found)
  kept := fun c ref last named => by
    rcases inv.kept c ref last named with found | old
    · rcases pruned.expired c ref found with still | old
      · exact .inl still
      · obtain ⟨last', named', expiry⟩ := inv.stored c ref found
        rw [named] at named'
        cases named'
        exact .inr (expiry ▸ old)
    · exact .inr (old.trans later)
  issued := inv.issued
  fresh := inv.fresh
  pending := inv.pending

/-- An observation about no identity leaves the invariant alone. -/
theorem Inv.silent (inv : Inv maxAge w tr) {o : Obs}
    (silent : ∀ c st, observe maxAge c st o = st)
    (issues : ∀ ref, o.issues ref = false) : Inv maxAge w (tr ++ [o]) := by
  have same (c : Bytes) : status maxAge c (tr ++ [o]) = status maxAge c tr := by
    rw [status_append_singleton, silent]
  refine { inv with
    stored := fun c ref found => ?_, kept := fun c ref last named => ?_,
    issued := fun call id ref born resp member => ?_, fresh := fun ref => ?_ }
  · rw [same]
    exact inv.stored c ref found
  · rw [same] at named
    exact inv.kept c ref last named
  · rcases List.mem_append.mp member with earlier | now
    · exact inv.issued call id ref born resp earlier
    · have own := issues ref
      rw [← List.mem_singleton.mp now] at own
      simp [Obs.issues] at own
  · rw [List.countP_append, List.countP_singleton, if_neg (by simp [issues ref])]
    exact inv.fresh ref

/-- The data of a session plays no part in its lifetime. -/
theorem Inv.modifyData (inv : Inv maxAge w tr) (ref : Ref)
    (change : SortedMap Bytes Bytes → SortedMap Bytes Bytes) :
    Inv maxAge (w.modifyData ref change) tr := by
  have same (r : Ref) : ((w.modifyData ref change).heap r).sessionId = (w.heap r).sessionId ∧
      ((w.modifyData ref change).heap r).maxAge = (w.heap r).maxAge ∧
      ((w.modifyData ref change).heap r).expiryTime = (w.heap r).expiryTime := by
    rcases eq_or_ne r ref with rfl | other
    · simp [World.modifyData]
    · simp [World.modifyData, Function.update_of_ne other]
  exact {
    generated := fun r below => (same r).1 ▸ inv.generated r below
    aged := fun r below => (same r).2.1 ▸ inv.aged r below
    distinct := fun r₁ below₁ r₂ below₂ eq => by
      rw [(same r₁).1, (same r₂).1] at eq
      exact inv.distinct r₁ below₁ r₂ below₂ eq
    stored := fun c r found => (same r).2.2 ▸ inv.stored c r found
    kept := inv.kept
    issued := fun call id r born resp member => (same r).1 ▸ inv.issued call id r born resp member
    fresh := inv.fresh
    pending := fun call member r born stage =>
      (same r).2.2 ▸ inv.pending call member r born stage }

/-- The running calls matter only through the sessions they hold. -/
theorem Inv.withCalls (inv : Inv maxAge w tr) {calls : List Call} {nextCall : Nat}
    (known : ∀ call ∈ calls, ∀ ref born, call.stage = .constructed ref born → call ∈ w.calls)
    (fewer : ∀ ref, calls.countP (Call.holds ref) ≤ w.calls.countP (Call.holds ref)) :
    Inv maxAge { w with calls := calls, nextCall := nextCall } tr where
  generated := inv.generated
  aged := inv.aged
  distinct := inv.distinct
  stored := inv.stored
  kept := inv.kept
  issued := inv.issued
  fresh := fun ref => (Nat.add_le_add_left (fewer ref) _).trans (inv.fresh ref)
  pending := fun call member ref born stage =>
    inv.pending call (known call member ref born stage) ref born stage

theorem Inv.endCall (inv : Inv maxAge w tr) {call : Call} {calls : List Call}
    (running : w.calls.Perm (call :: calls)) : Inv maxAge { w with calls := calls } tr := by
  apply inv.withCalls
  · intro other member _ _ _
    exact running.mem_iff.mpr (List.mem_cons_of_mem _ member)
  · intro ref
    rw [running.countP_eq, List.countP_cons]
    exact Nat.le_add_right _ _

/-- An entry goes, and the trace shows why. -/
theorem Inv.drop (inv : Inv maxAge w tr) (id : Bytes) {storage : MemorySessionStorage} {o : Obs}
    (erased : ∀ c, storage.sessions.find? c =
      if id = c then none else w.storage.sessions.find? c)
    (others : ∀ c st, id ≠ c → observe maxAge c st o = st)
    (gone : observe maxAge id (status maxAge id tr) o = none)
    (issues : ∀ ref, o.issues ref = false) :
    Inv maxAge { w with storage := storage } (tr ++ [o]) := by
  refine { inv with
    stored := fun c ref found => ?_, kept := fun c ref last named => ?_,
    issued := fun call id' ref born resp member => ?_, fresh := fun ref => ?_ }
  · rw [erased] at found
    split at found
    · cases found
    · next other =>
        rw [status_append_singleton, others c _ other]
        exact inv.stored c ref found
  · rw [status_append_singleton] at named
    rcases eq_or_ne id c with rfl | other
    · rw [gone] at named
      cases named
    · rw [others c _ other] at named
      rw [erased, if_neg other]
      exact inv.kept c ref last named
  · rcases List.mem_append.mp member with earlier | now
    · exact inv.issued call id' ref born resp earlier
    · have own := issues ref
      rw [← List.mem_singleton.mp now] at own
      simp [Obs.issues] at own
  · rw [List.countP_append, List.countP_singleton, if_neg (by simp [issues ref])]
    exact inv.fresh ref

/-- What a look-up that finds nothing leaves behind. -/
theorem lookup_none {w' : World} {cookie : Bytes} {now : Time} (later : w.clock ≤ now)
    (looked : w.lookup cookie now = (none, w')) :
    ∃ storage t, w.clock ≤ t ∧ Pruned w.heap t w.storage storage ∧
      (getSessionIdFromCookie cookie ≠ [] →
        t = now ∧ storage.sessions.find? (getSessionIdFromCookie cookie) = none) ∧
      w' = { w with storage := storage, clock := t } := by
  unfold World.lookup MemorySessionStorage.loadAndRefresh at looked
  dsimp only at looked
  generalize getSessionIdFromCookie cookie = id at looked ⊢
  split at looked
  · next empty =>
      obtain ⟨-, rfl⟩ := Prod.mk.inj looked
      exact ⟨w.storage, w.clock, Nat.le_refl _, .refl,
        fun nonempty => absurd (List.isEmpty_iff.mp empty) nonempty, rfl⟩
  · split at looked
    · next absent =>
        obtain ⟨-, rfl⟩ := Prod.mk.inj looked
        exact ⟨w.storage, now, later, .refl, fun _ => ⟨rfl, absent⟩, rfl⟩
    · next ref found =>
        split at looked
        · next old =>
            obtain ⟨-, rfl⟩ := Prod.mk.inj looked
            refine ⟨_, now, later, .erase found old, fun _ => ⟨rfl, ?_⟩, rfl⟩
            rw [SortedMap.find?_erase, if_pos rfl]
        · cases (Prod.mk.inj looked).1

/-- What a look-up that finds a session leaves behind. -/
theorem lookup_some {w' : World} {cookie : Bytes} {now : Time} {ref : Ref}
    (looked : w.lookup cookie now = (some ref, w')) :
    w.storage.sessions.find? (getSessionIdFromCookie cookie) = some ref ∧
      now < (w.heap ref).expiryTime ∧
      w' = { w with heap := Function.update w.heap ref ((w.heap ref).refresh now),
                    clock := now } := by
  unfold World.lookup MemorySessionStorage.loadAndRefresh at looked
  dsimp only at looked
  generalize getSessionIdFromCookie cookie = id at looked ⊢
  split at looked
  · cases (Prod.mk.inj looked).1
  · split at looked
    · cases (Prod.mk.inj looked).1
    · next found =>
        split at looked
        · cases (Prod.mk.inj looked).1
        · next young =>
            obtain ⟨same, rfl⟩ := Prod.mk.inj looked
            cases same
            exact ⟨found, Nat.lt_of_not_le young, rfl⟩

theorem Inv.miss (inv : Inv maxAge w tr) {w' : World} {call : Nat} {cookie : Bytes} {now : Time}
    {given : HttpResponse} (later : w.clock ≤ now) (looked : w.lookup cookie now = (none, w')) :
    Inv maxAge w' (tr ++ [.missed call (getSessionIdFromCookie cookie) now given]) := by
  obtain ⟨storage, t, passed, pruned, absent, rfl⟩ := lookup_none later looked
  have swept := inv.prune passed pruned
  generalize getSessionIdFromCookie cookie = id at absent ⊢
  have unnamed {ref : Ref} {last : Time} (named : status maxAge id tr = some (ref, last)) :
      id ≠ [] := by
    obtain ⟨draws, own⟩ := inv.status_generated named
    exact own ▸ generateSessionId_ne_nil draws
  refine swept.drop id (fun c => ?_) (fun c st other => if_neg other) ?_
    (fun _ => rfl)
  · split
    · next same =>
        subst same
        rcases eq_or_ne id [] with empty | nonempty
        · cases found : storage.sessions.find? id with
          | none => rfl
          | some ref =>
              obtain ⟨last, named, -⟩ := swept.stored id ref found
              exact absurd empty (unnamed named)
        · exact (absent nonempty).2
    · rfl
  · cases named : status maxAge id tr with
    | none => exact ite_self _
    | some session =>
        obtain ⟨ref, last⟩ := session
        obtain ⟨rfl, gone⟩ := absent (unnamed named)
        rcases swept.kept id ref last named with found | old
        · rw [gone] at found
          cases found
        · simp [observe, Nat.not_lt.mpr old]

theorem Inv.resume (inv : Inv maxAge w tr) {w' : World} {call : Nat} {cookie : Bytes} {now : Time}
    {ref : Ref} {given resp : HttpResponse} (later : w.clock ≤ now)
    (looked : w.lookup cookie now = (some ref, w')) :
    Inv maxAge w' (tr ++ [.resumed call (getSessionIdFromCookie cookie) now ref given resp]) := by
  obtain ⟨found, young, rfl⟩ := lookup_some looked
  generalize getSessionIdFromCookie cookie = id at found ⊢
  obtain ⟨last, named, expiry⟩ := inv.stored id ref found
  obtain ⟨below, own⟩ := inv.status_named named
  have age := inv.aged ref below
  have now_named : status maxAge id (tr ++ [.resumed call id now ref given resp]) = some (ref, now) := by
    simp [status_append_singleton, observe, named, expiry ▸ young]
  have others {c : Bytes} (other : id ≠ c) :
      status maxAge c (tr ++ [.resumed call id now ref given resp]) = status maxAge c tr := by
    rw [status_append_singleton, observe, if_neg other]
  have kept_id (r : Ref) : (Function.update w.heap ref ((w.heap ref).refresh now) r).sessionId =
      (w.heap r).sessionId ∧
      (Function.update w.heap ref ((w.heap ref).refresh now) r).maxAge = (w.heap r).maxAge := by
    rcases eq_or_ne r ref with rfl | other
    · simp [Session.refresh]
    · simp [Function.update_of_ne other]
  exact {
    generated := fun r below => (kept_id r).1 ▸ inv.generated r below
    aged := fun r below => (kept_id r).2 ▸ inv.aged r below
    distinct := fun r₁ below₁ r₂ below₂ eq => by
      rw [(kept_id r₁).1, (kept_id r₂).1] at eq
      exact inv.distinct r₁ below₁ r₂ below₂ eq
    stored := fun c r stored => by
      rcases eq_or_ne id c with rfl | other
      · rw [found] at stored
        cases stored
        exact ⟨now, now_named, by simp [Session.refresh, age]⟩
      · obtain ⟨rfl⟩ := (inv.stored_named stored).2
        have apart : r ≠ ref := by
          rintro rfl
          exact other own.symm
        dsimp only
        rw [others other, Function.update_of_ne apart]
        exact inv.stored _ r stored
    kept := fun c r last' named' => by
      rcases eq_or_ne id c with rfl | other
      · rw [now_named] at named'
        cases named'
        exact .inl found
      · rw [others other] at named'
        rcases inv.kept c r last' named' with still | old
        · exact .inl still
        · exact .inr (old.trans later)
    issued := fun call' id' r born resp' member => by
      rw [(kept_id r).1]
      refine inv.issued call' id' r born resp' ?_
      simpa using member
    fresh := fun r => by
      rw [List.countP_append, List.countP_singleton, if_neg (by simp [Obs.issues])]
      exact inv.fresh r
    pending := fun call' member r born stage => by
      have apart : r ≠ ref := by
        rintro rfl
        have free := inv.named_ne_pending named member
        simp [Call.holds, stage] at free
      dsimp only
      rw [Function.update_of_ne apart]
      exact inv.pending call' member r born stage }

theorem Inv.construct (inv : Inv maxAge w tr) {number : Nat} {resp : HttpResponse}
    {calls : List Call} {draws : Vector (Fin 16) 32} {now : Time}
    (running : w.calls.Perm (⟨number, resp, .missed⟩ :: calls)) (later : w.clock ≤ now)
    (unused : ∀ ref < w.nextRef, (w.heap ref).sessionId ≠ generateSessionId draws) :
    Inv maxAge
      { w with
        heap := Function.update w.heap w.nextRef
          (Session.new (generateSessionId draws) maxAge now),
        nextRef := w.nextRef + 1, clock := now,
        calls := ⟨number, resp, .constructed w.nextRef now⟩ :: calls } tr := by
  have old {ref : Ref} (below : ref < w.nextRef) :
      Function.update w.heap w.nextRef (Session.new (generateSessionId draws) maxAge now) ref =
        w.heap ref := Function.update_of_ne (Nat.ne_of_lt below) _ _
  have new : Function.update w.heap w.nextRef
      (Session.new (generateSessionId draws) maxAge now) w.nextRef =
        Session.new (generateSessionId draws) maxAge now := Function.update_self ..
  exact {
    generated := fun ref below => by
      dsimp only
      rcases Nat.lt_succ_iff_lt_or_eq.mp below with made | rfl
      · rw [old made]
        exact inv.generated ref made
      · rw [new]
        exact ⟨draws, rfl⟩
    aged := fun ref below => by
      dsimp only
      rcases Nat.lt_succ_iff_lt_or_eq.mp below with made | rfl
      · rw [old made]
        exact inv.aged ref made
      · rw [new]
        rfl
    distinct := fun r₁ below₁ r₂ below₂ eq => by
      dsimp only at eq
      rcases Nat.lt_succ_iff_lt_or_eq.mp below₁ with made₁ | rfl <;>
        rcases Nat.lt_succ_iff_lt_or_eq.mp below₂ with made₂ | rfl
      · rw [old made₁, old made₂] at eq
        exact inv.distinct r₁ made₁ r₂ made₂ eq
      · rw [old made₁, new] at eq
        exact absurd eq (unused r₁ made₁)
      · rw [old made₂, new] at eq
        exact absurd eq.symm (unused r₂ made₂)
      · rfl
    stored := fun c ref found => by
      dsimp only
      rw [old (inv.stored_named found).1]
      exact inv.stored c ref found
    kept := fun c ref last named => (inv.kept c ref last named).imp_right (·.trans later)
    issued := fun call id ref born resp' member => by
      obtain ⟨below, own⟩ := inv.issued call id ref born resp' member
      dsimp only
      rw [old below]
      exact ⟨Nat.lt_succ_of_lt below, own⟩
    fresh := fun ref => by
      have fresh := inv.fresh ref
      rw [running.countP_eq, List.countP_cons_of_neg (by simp [Call.holds])] at fresh
      dsimp only
      rcases eq_or_ne w.nextRef ref with rfl | other
      · rw [if_neg (Nat.lt_irrefl _)] at fresh
        rw [if_pos (Nat.lt_succ_self _), List.countP_cons_of_pos (by simp [Call.holds])]
        omega
      · rw [List.countP_cons_of_neg (by simp [Call.holds, other])]
        split at fresh
        · next below =>
            rw [if_pos (Nat.lt_succ_of_lt below)]
            exact fresh
        · exact fresh.trans (Nat.zero_le _)
    pending := fun call member ref born stage => by
      dsimp only
      rcases List.mem_cons.mp member with rfl | earlier
      · cases stage
        rw [new]
        rfl
      · have was : call ∈ w.calls := running.mem_iff.mpr (List.mem_cons_of_mem _ earlier)
        rw [old (inv.not_issued_of_holds _ was (by simp [Call.holds, stage])).1]
        exact inv.pending call was ref born stage }

/-- The storage has no entry yet under the id of a session that is being admitted. -/
theorem Inv.unstored (inv : Inv maxAge w tr) {call : Call} (ref : Ref)
    (member : call ∈ w.calls) (holds : call.holds ref) :
    w.storage.sessions.find? (w.heap ref).sessionId = none := by
  obtain ⟨below, unissued⟩ := inv.not_issued_of_holds _ member holds
  cases found : w.storage.sessions.find? (w.heap ref).sessionId with
  | none => rfl
  | some previous =>
      obtain ⟨last, named, -⟩ := inv.stored _ previous found
      obtain ⟨below', own⟩ := inv.status_named named
      obtain rfl := inv.distinct previous below' ref below own
      have issued := issued_count named
      omega

theorem Inv.refuse (inv : Inv maxAge w tr) {number : Nat} {resp : HttpResponse} {ref : Ref}
    {born mid now : Time} {calls : List Call} {storage : MemorySessionStorage}
    {reading : Bytes → Time}
    (running : w.calls.Perm (⟨number, resp, .constructed ref born⟩ :: calls))
    (later : w.clock ≤ now) (inTime : ∀ id, reading id ≤ now)
    (refused : w.storage.admitSession w.heap ref mid reading = (false, storage)) :
    Inv maxAge { w with storage := storage, clock := now, calls := calls }
      (tr ++ [.refused number unavailable]) := by
  have member : ⟨number, resp, .constructed ref born⟩ ∈ w.calls :=
    running.mem_iff.mpr List.mem_cons_self
  have absent := inv.unstored ref member (beq_self_eq_true ref)
  obtain ⟨swept, pruned, rfl⟩ := admit_spec inTime absent refused
  exact ((inv.prune later pruned).endCall running).silent (fun _ _ => rfl) (fun _ => rfl)

theorem Inv.issue (inv : Inv maxAge w tr) {number : Nat} {resp resp' : HttpResponse} {ref : Ref}
    {born mid now : Time} {calls : List Call} {storage : MemorySessionStorage}
    {reading : Bytes → Time}
    (running : w.calls.Perm (⟨number, resp, .constructed ref born⟩ :: calls))
    (later : w.clock ≤ now) (inTime : ∀ id, reading id ≤ now)
    (admitted : w.storage.admitSession w.heap ref mid reading = (true, storage)) :
    Inv maxAge { w with storage := storage, clock := now, calls := calls }
      (tr ++ [.issued number (w.heap ref).sessionId ref born resp']) := by
  have member : ⟨number, resp, .constructed ref born⟩ ∈ w.calls :=
    running.mem_iff.mpr List.mem_cons_self
  obtain ⟨below, unissued⟩ := inv.not_issued_of_holds ref member (beq_self_eq_true ref)
  have absent := inv.unstored ref member (beq_self_eq_true ref)
  have expiry := inv.pending _ member ref born rfl
  obtain ⟨swept, pruned, rfl⟩ := admit_spec inTime absent admitted
  have before := (inv.prune later pruned).endCall running
  generalize own : (w.heap ref).sessionId = id at absent ⊢
  have named : status maxAge id (tr ++ [.issued number id ref born resp']) = some (ref, born) := by
    rw [status_append_singleton, observe, if_pos rfl]
  have others {c : Bytes} (other : id ≠ c) :
      status maxAge c (tr ++ [.issued number id ref born resp']) = status maxAge c tr := by
    rw [status_append_singleton, observe, if_neg other]
  exact {
    generated := before.generated
    aged := before.aged
    distinct := before.distinct
    stored := fun c r found => by
      simp only [if_true] at found
      rw [SortedMap.find?_insert] at found
      split at found
      · next same =>
          cases found
          subst same
          exact ⟨born, named, expiry⟩
      · next other =>
          rw [others other]
          exact before.stored c r found
    kept := fun c r last named' => by
      simp only [if_true]
      rw [SortedMap.find?_insert]
      rcases eq_or_ne id c with rfl | other
      · rw [named] at named'
        cases named'
        exact .inl (if_pos rfl)
      · rw [others other] at named'
        rw [if_neg other]
        exact before.kept c r last named'
    issued := fun call id' r born' resp'' observed => by
      rcases List.mem_append.mp observed with earlier | now
      · exact before.issued call id' r born' resp'' earlier
      · cases List.mem_singleton.mp now
        exact ⟨below, own⟩
    fresh := fun r => by
      have fresh := inv.fresh r
      dsimp only
      rw [running.countP_eq] at fresh
      rw [List.countP_append, List.countP_singleton]
      rcases eq_or_ne ref r with rfl | other
      · rw [List.countP_cons_of_pos (by simp [Call.holds])] at fresh
        rw [if_pos (by simp [Obs.issues])]
        omega
      · rw [List.countP_cons_of_neg (by simp [Call.holds, other])] at fresh
        rw [if_neg (by simp [Obs.issues, other])]
        exact fresh
    pending := before.pending }

/-- Every step keeps the invariant. -/
theorem Inv.step (inv : Inv maxAge w tr) {w' : World} {out : List Obs}
    (step : Step maxAge w out w') : Inv maxAge w' (tr ++ out) := by
  cases step with
  | resume cookie resp later looked =>
      exact (inv.resume later looked).withCalls (fun _ member _ _ _ => member)
        (fun _ => Nat.le_refl _)
  | miss cookie resp later looked =>
      obtain ⟨storage, t, -, -, -, rfl⟩ := lookup_none later looked
      apply (inv.miss later looked).withCalls
      · intro call member ref born stage
        rcases List.mem_cons.mp member with rfl | earlier
        · cases stage
        · exact earlier
      · intro ref
        rw [List.countP_cons_of_neg (by simp [Call.holds])]
  | construct draws running later unused =>
      rw [List.append_nil]
      exact inv.construct running later unused
  | issue running later inTime admitted =>
      exact inv.issue running (later.trans ((inTime []).1.trans (inTime []).2))
        (fun id => (inTime id).2) admitted
  | refuse running later inTime refused =>
      exact inv.refuse running (later.trans ((inTime []).1.trans (inTime []).2))
        (fun id => (inTime id).2) refused
  | @setValue ref key value below =>
      rw [List.append_nil]
      have changed := inv.modifyData ref (·.insert key value)
      exact { changed with }
  | @autoSave ref saving now running later =>
      rw [List.append_nil]
      have pruned := inv.prune later (updateExisting_pruned ref)
      exact { pruned with }
  | updateSession below later =>
      rw [List.append_nil]
      exact inv.prune later (updateExisting_pruned _)
  | getValue key below => exact inv.silent (fun _ _ => rfl) (fun _ => rfl)
  | removeValue key below =>
      rw [List.append_nil]
      exact inv.modifyData _ _
  | clear below =>
      rw [List.append_nil]
      exact inv.modifyData _ _
  | destroySession id =>
      refine inv.drop id (fun c => ?_) (fun _ _ other => if_neg other) (if_pos rfl)
        (fun _ => rfl)
      rw [MemorySessionStorage.remove, SortedMap.find?_erase]
      congr
  | cleanExpiredSessions inTime =>
      rw [List.append_nil]
      exact inv.prune ((inTime []).1.trans (inTime []).2)
        (cleanExpiredLocked_pruned fun id => (inTime id).2)

end invariant

end AIService.Sessions
