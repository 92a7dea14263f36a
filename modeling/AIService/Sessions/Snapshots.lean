import AIService.Sessions.Serial

/-!
# Snapshots and shared objects

A storage of snapshots and the memory storage hold the same live sessions after every event,
as long as a `setValue` writes back what `remove` and `clear` took away.  Without one the
snapshot keeps it.
-/

namespace AIService.Sessions.Serial

/-- A session, unless it has expired. -/
def liveAt (now : Time) (s : Option Session) : Option Session := s.filter fun s => now < s.expiryTime

theorem liveAt_some {now : Time} {s : Session} (live : now < s.expiryTime) :
    liveAt now (some s) = some s := by
  simp [liveAt, live]

theorem liveAt_expired {now : Time} {s : Session} (expired : s.expiryTime ≤ now) :
    liveAt now (some s) = none := by
  simpa [liveAt] using expired

theorem liveAt_eq_some {now : Time} {o : Option Session} {s : Session} (live : liveAt now o = some s) :
    o = some s ∧ now < s.expiryTime := by
  simpa [liveAt, Option.filter_eq_some_iff] using live

/-- What agrees goes on agreeing. -/
theorem liveAt_mono {t now : Time} (later : t ≤ now) {a b : Option Session}
    (same : liveAt t a = liveAt t b) : liveAt now a = liveAt now b := by
  have twice (o : Option Session) : liveAt now (liveAt t o) = liveAt now o := by
    cases o with
    | none => rfl
    | some s =>
        by_cases live : t < s.expiryTime
        · rw [liveAt_some live]
        · rw [liveAt_expired (Nat.not_lt.mp live), liveAt_expired ((Nat.not_lt.mp live).trans later)]
          rfl
  rw [← twice a, ← twice b, same]

variable {S : SnapshotStorage}

/-- The session that the memory storage has under an id. -/
def stored (m : World MemorySessionStorage) (id : Bytes) : Option Session :=
  (m.storage.sessions.find? id).map m.heap

/-- Sessions are stored under their own ids, and none under `ids`. -/
structure OwnIds (ids : List Bytes) (m : World MemorySessionStorage) : Prop where
  own {id : Bytes} {ref : Ref} : m.storage.sessions.find? id = some ref →
    (m.heap ref).sessionId = id ∧ ref < m.nextRef
  unused {id : Bytes} : id ∈ ids → m.storage.sessions.find? id = none

structure OwnSnapshots (ids : List Bytes) (l : World S.State) : Prop where
  own {id : Bytes} {s : Session} : S.load id l.storage = some s → s.sessionId = id
  unused {id : Bytes} : id ∈ ids → S.load id l.storage = none

structure Tidy (ids : List Bytes) (m : World MemorySessionStorage) (l : World S.State) : Prop where
  memory : OwnIds ids m
  snapshots : OwnSnapshots ids l

/-- Both storages have the same live sessions. -/
structure Agree (ids : List Bytes) (t : Time) (m : World MemorySessionStorage) (l : World S.State) : Prop
    extends Tidy ids m l where
  live (id : Bytes) : liveAt t (stored m id) = liveAt t (S.load id l.storage)

/-- A request has the session, which is stored; `stale` allows the data of the snapshot to
differ. -/
structure Serving (ids : List Bytes) (stale : Bool) (t : Time) (m : World MemorySessionStorage)
    (l : World S.State) (ref ref' : Ref) : Prop extends Tidy ids m l where
  same : m.heap ref = l.heap ref'
  mine : m.storage.sessions.find? (m.heap ref).sessionId = some ref
  kept : ∃ s, S.load (m.heap ref).sessionId l.storage = some s ∧
    s.expiryTime = (m.heap ref).expiryTime ∧ (stale = false → s = m.heap ref)
  others {id : Bytes} : id ≠ (m.heap ref).sessionId →
    liveAt t (stored m id) = liveAt t (S.load id l.storage)

/-- A request has the session, but neither storage will find it again. -/
structure Over (ids : List Bytes) (t : Time) (m : World MemorySessionStorage) (l : World S.State)
    (ref ref' : Ref) : Prop extends Agree ids t m l where
  same : m.heap ref = l.heap ref'
  dead : liveAt t (stored m (m.heap ref).sessionId) = none

variable {ids : List Bytes} {t now : Time} {m m' : World MemorySessionStorage} {l l' : World S.State}
  {ref ref' : Ref}

theorem Agree.mono (agree : Agree ids t m l) (later : t ≤ now) : Agree ids now m l :=
  { agree with live := fun id => liveAt_mono later (agree.live id) }

theorem Over.mono (ended : Over ids t m l ref ref') (later : t ≤ now) : Over ids now m l ref ref' :=
  { ended.toAgree.mono later with
    same := ended.same
    dead := by
      have none : liveAt t (stored m (m.heap ref).sessionId) = liveAt t none := ended.dead
      exact liveAt_mono later none }

theorem Serving.mono {stale : Bool} (serving : Serving ids stale t m l ref ref') (later : t ≤ now) :
    Serving ids stale now m l ref ref' :=
  { serving with others := fun other => liveAt_mono later (serving.others other) }

/-- A session that has been written back may be let go. -/
theorem Serving.agree (serving : Serving ids false t m l ref ref') : Agree ids t m l where
  toTidy := serving.toTidy
  live id := by
    by_cases own : id = (m.heap ref).sessionId
    · obtain ⟨s, found, -, fresh⟩ := serving.kept
      rw [own, stored, serving.mine, found, fresh rfl]
      rfl
    · exact serving.others own

/-- An expired session is lost to both. -/
theorem Serving.expire {stale : Bool} (serving : Serving ids stale t m l ref ref')
    (expired : (m.heap ref).expiryTime ≤ t) : Over ids t m l ref ref' := by
  have dead : liveAt t (stored m (m.heap ref).sessionId) = none := by
    rw [stored, serving.mine]
    exact liveAt_expired expired
  refine { serving.toTidy with same := serving.same, dead := dead, live := fun id => ?_ }
  by_cases own : id = (m.heap ref).sessionId
  · obtain ⟨s, found, deadline, -⟩ := serving.kept
    rw [own, dead, found, liveAt_expired (deadline ▸ expired)]
  · exact serving.others own

/-! ## The world of the memory storage -/

theorem erase_absent {data : SortedMap Bytes Bytes} {key : Bytes} (absent : (data.find? key).isNone) :
    data.erase key = data := by
  ext id value
  rw [SortedMap.find?_erase]
  split
  · next same => rw [← same, Option.isNone_iff_eq_none.mp absent]
  · rfl

theorem empty_of_size {data : SortedMap Bytes Bytes} (none : data.size = 0) : .empty = data := by
  ext id value
  change _ ↔ SortedMap.lookup id data.entries = some value
  rw [List.length_eq_zero_iff.mp none]
  rfl

theorem stored_eq_none {id : Bytes} (absent : m.storage.sessions.find? id = none) : stored m id = none := by
  rw [stored, absent]
  rfl

/-- Another session is not the one whose data are changed. -/
theorem OwnIds.stored_modify (owned : OwnIds ids m) {id : Bytes} (other : id ≠ (m.heap ref).sessionId)
    (change : SortedMap Bytes Bytes → SortedMap Bytes Bytes) :
    stored (m.modifyData ref change) id = stored m id := by
  unfold stored
  change (m.storage.sessions.find? id).map _ = _
  cases found : m.storage.sessions.find? id with
  | none => rfl
  | some at_ =>
      have apart : at_ ≠ ref := by
        rintro rfl
        exact other (owned.own found).1.symm
      exact congrArg some (Function.update_of_ne apart ..)

theorem heap_modify {σ : Type} (w : World σ) (ref : Ref)
    (change : SortedMap Bytes Bytes → SortedMap Bytes Bytes) :
    (w.modifyData ref change).heap ref = modify (w.heap ref) change := Function.update_self ..

/-- Changing data changes neither id nor deadline. -/
theorem heap_modify_same {σ : Type} (w : World σ) (ref at_ : Ref)
    (change : SortedMap Bytes Bytes → SortedMap Bytes Bytes) :
    ((w.modifyData ref change).heap at_).sessionId = (w.heap at_).sessionId ∧
      ((w.modifyData ref change).heap at_).expiryTime = (w.heap at_).expiryTime := by
  by_cases same : at_ = ref
  · rw [same, heap_modify]
    exact ⟨rfl, rfl⟩
  · have kept : (w.modifyData ref change).heap at_ = w.heap at_ := Function.update_of_ne same ..
    rw [kept]
    exact ⟨rfl, rfl⟩

theorem OwnIds.modify (owned : OwnIds ids m) (ref : Ref)
    (change : SortedMap Bytes Bytes → SortedMap Bytes Bytes) : OwnIds ids (m.modifyData ref change) where
  own found := by
    rw [(heap_modify_same m ref _ change).1]
    exact owned.own found
  unused := owned.unused

theorem Tidy.modify (tidy : Tidy ids m l) (ref ref' : Ref)
    (change : SortedMap Bytes Bytes → SortedMap Bytes Bytes) :
    Tidy ids (m.modifyData ref change) (l.modifyData ref' change) where
  memory := tidy.memory.modify ref change
  snapshots := { own := tidy.snapshots.own, unused := tidy.snapshots.unused }

/-! ## Removing a session -/

theorem OwnIds.remove (owned : OwnIds ids m) (id : Bytes) : OwnIds ids (memory.remove id m) where
  own {id' ref} found := by
    change (m.storage.sessions.erase id).find? id' = some ref at found
    rw [SortedMap.find?_erase] at found
    split at found
    · cases found
    · exact owned.own found
  unused {id'} member := by
    change (m.storage.sessions.erase id).find? id' = none
    rw [SortedMap.find?_erase, owned.unused member, ite_self]

theorem OwnSnapshots.remove (owned : OwnSnapshots ids l) (id : Bytes) :
    OwnSnapshots ids (S.backend.remove id l) where
  own {id' s} found := by
    change S.load id' (S.remove id l.storage) = some s at found
    rw [S.load_remove] at found
    split at found
    · cases found
    · exact owned.own found
  unused {id'} member := by
    change S.load id' (S.remove id l.storage) = none
    rw [S.load_remove, owned.unused member, ite_self]

theorem stored_remove (m : World MemorySessionStorage) (id id' : Bytes) :
    stored (memory.remove id m) id' = if id' = id then none else stored m id' := by
  unfold stored
  change ((m.storage.sessions.erase id).find? id').map m.heap = _
  rw [SortedMap.find?_erase]
  by_cases same : id = id'
  · rw [if_pos same, if_pos same.symm]
    rfl
  · rw [if_neg same, if_neg (Ne.symm same)]

theorem load_remove (l : World S.State) (id id' : Bytes) :
    S.load id' (S.backend.remove id l).storage = if id' = id then none else S.load id' l.storage :=
  S.load_remove id' id l.storage

/-- What is destroyed is destroyed in both. -/
theorem live_remove {id id' : Bytes}
    (same : id' ≠ id → liveAt t (stored m id') = liveAt t (S.load id' l.storage)) :
    liveAt t (stored (memory.remove id m) id') =
      liveAt t (S.load id' (S.backend.remove id l).storage) := by
  rw [stored_remove, load_remove]
  split
  · rfl
  · next other => exact same other

theorem Agree.remove (agree : Agree ids t m l) (id : Bytes) :
    Agree ids t (memory.remove id m) (S.backend.remove id l) where
  memory := agree.memory.remove id
  snapshots := agree.snapshots.remove id
  live id' := live_remove fun _ => agree.live id'

/-- A dead session may be removed from one of the storages only. -/
theorem Agree.forgetMemory (agree : Agree ids t m l) {id : Bytes} (dead : liveAt t (stored m id) = none) :
    Agree ids t (memory.remove id m) l where
  memory := agree.memory.remove id
  snapshots := agree.snapshots
  live id' := by
    rw [stored_remove]
    split
    · next same =>
        rw [same, ← agree.live, dead]
        rfl
    · exact agree.live id'

theorem Agree.forgetSnapshot (agree : Agree ids t m l) {id : Bytes}
    (dead : liveAt t (stored m id) = none) : Agree ids t m (S.backend.remove id l) where
  memory := agree.memory
  snapshots := agree.snapshots.remove id
  live id' := by
    rw [load_remove]
    split
    · next same =>
        rw [same, dead]
        rfl
    · exact agree.live id'

/-! ## After the end -/

namespace Over

theorem removeMemory (ended : Over ids t m l ref ref') :
    Over ids t (memory.remove (m.heap ref).sessionId m) l ref ref' where
  toAgree := ended.toAgree.forgetMemory ended.dead
  same := ended.same
  dead := by
    change liveAt t (stored (memory.remove _ m) (m.heap ref).sessionId) = none
    rw [stored_remove, if_pos rfl]
    rfl

theorem removeSnapshot (ended : Over ids t m l ref ref') :
    Over ids t m (S.backend.remove (m.heap ref).sessionId l) ref ref' where
  toAgree := ended.toAgree.forgetSnapshot ended.dead
  same := ended.same
  dead := ended.dead

theorem remove (ended : Over ids t m l ref ref') (id : Bytes) :
    Over ids t (memory.remove id m) (S.backend.remove id l) ref ref' :=
  { ended.toAgree.remove id with
    same := ended.same
    dead := by
      change liveAt t (stored (memory.remove id m) (m.heap ref).sessionId) = none
      rw [stored_remove]
      split
      · rfl
      · exact ended.dead }

theorem modify (ended : Over ids t m l ref ref') (change : SortedMap Bytes Bytes → SortedMap Bytes Bytes) :
    Over ids t (m.modifyData ref change) (l.modifyData ref' change) ref ref' := by
  have dead : liveAt t (stored (m.modifyData ref change) (m.heap ref).sessionId) = none := by
    have before := ended.dead
    unfold stored at before ⊢
    change liveAt t ((m.storage.sessions.find? (m.heap ref).sessionId).map _) = none
    cases found : m.storage.sessions.find? (m.heap ref).sessionId with
    | none => rfl
    | some at_ =>
        rw [found] at before
        have expired : ¬ t < (m.heap at_).expiryTime := by
          intro live
          rw [Option.map_some, liveAt_some live] at before
          cases before
        apply liveAt_expired
        rw [(heap_modify_same m ref at_ change).2]
        exact Nat.not_lt.mp expired
  refine { ended.toTidy.modify ref ref' change with same := ?_, dead := ?_, live := fun id => ?_ }
  · by_cases own : id = (m.heap ref).sessionId
    · rw [own, dead, ← ended.dead]
      exact ended.live _
    · rw [ended.memory.stored_modify own]
      exact ended.live id
  · rw [heap_modify, heap_modify, ended.same]
  · rw [(heap_modify_same m ref ref change).1]
    exact dead

theorem updateMemory (ended : Over ids t m l ref ref') :
    Over ids t (memory.updateExisting ref t m) l ref ref' := by
  have dead := ended.dead
  change Over ids t { m with storage := (m.storage.updateExisting m.heap ref t).2 } l ref ref'
  unfold MemorySessionStorage.updateExisting
  cases found : m.storage.sessions.find? (m.heap ref).sessionId with
  | none => exact ended
  | some current =>
      dsimp only
      by_cases mine : current = ref
      · subst mine
        have expired : (m.heap current).expiryTime ≤ t := by
          by_contra live
          rw [stored, found, Option.map_some, liveAt_some (Nat.not_le.mp live)] at dead
          cases dead
        rw [if_neg (by simp), if_pos expired]
        exact ended.removeMemory
      · rw [if_pos mine]
        exact ended

theorem updateSnapshot (ended : Over ids t m l ref ref') :
    Over ids t m (S.backend.updateExisting ref' t l) ref ref' := by
  have dead : liveAt t (S.load (l.heap ref').sessionId l.storage) = none := by
    rw [← ended.same, ← ended.live, ended.dead]
  unfold SnapshotStorage.backend
  dsimp only
  cases found : S.load (l.heap ref').sessionId l.storage with
  | none => exact ended
  | some current =>
      have expired : current.expiryTime ≤ t := by
        by_contra live
        rw [found, liveAt_some (Nat.not_le.mp live)] at dead
        cases dead
      dsimp only
      rw [if_pos expired, ← ended.same]
      exact ended.removeSnapshot

/-- Nothing brings the session back. -/
theorem access (ended : Over ids t m l ref ref') {a : Access} (later : t ≤ a.now) :
    (memory.access ref a m).1 = (S.backend.access ref' a l).1 ∧
      Over ids a.now (memory.access ref a m).2 (S.backend.access ref' a l).2 ref ref' := by
  have ended := ended.mono later
  unfold Backend.access
  cases a.op with
  | setValue key value =>
      refine ⟨rfl, ?_⟩
      exact (ended.modify _).updateMemory.updateSnapshot
  | remove key => exact ⟨rfl, ended.modify _⟩
  | clear => exact ⟨rfl, ended.modify _⟩
  | getValue key =>
      refine ⟨?_, ended⟩
      rw [ended.same]
  | destroySession id => exact ⟨rfl, ended.remove id⟩

theorem accesses (ended : Over ids t m l ref ref') {rest : List Access}
    (ordered : (t :: rest.map (·.now)).Pairwise (· ≤ ·)) :
    (memory.accesses ref rest m).1 = (S.backend.accesses ref' rest l).1 ∧
      ∀ t', t ≤ t' → (∀ a ∈ rest, a.now ≤ t') →
        Agree ids t' (memory.accesses ref rest m).2 (S.backend.accesses ref' rest l).2 := by
  induction rest generalizing t m l with
  | nil => exact ⟨rfl, fun t' later _ => ended.toAgree.mono later⟩
  | cons a rest ih =>
      obtain ⟨first, more⟩ := List.pairwise_cons.mp ordered
      obtain ⟨same, next⟩ := ended.access (first a.now List.mem_cons_self)
      obtain ⟨same', ends⟩ := ih next more
      unfold Backend.accesses
      refine ⟨by rw [same, same'], fun t' _ bound => ?_⟩
      exact ends t' (bound a List.mem_cons_self) fun b member => bound b (List.mem_cons_of_mem a member)

end Over

/-! ## Serving a request -/

theorem load_save_own {ids : List Bytes} {l' : World S.State} {s : Session}
    (owned : OwnSnapshots ids l) (saved : l'.storage = S.save s l.storage) (fresh : s.sessionId ∉ ids) :
    OwnSnapshots ids l' where
  own {id s'} found := by
    rw [saved, S.load_save] at found
    split at found
    · next own =>
        cases found
        exact own.symm
    · exact owned.own found
  unused {id} member := by
    rw [saved, S.load_save, if_neg, owned.unused member]
    rintro rfl
    exact fresh member

namespace Serving

variable {stale stale' : Bool}

/-- Changing data without writing them back. -/
theorem modify (serving : Serving ids stale t m l ref ref')
    (change : SortedMap Bytes Bytes → SortedMap Bytes Bytes)
    (kept : stale' = false → stale = false ∧ change (m.heap ref).data = (m.heap ref).data) :
    Serving ids stale' t (m.modifyData ref change) (l.modifyData ref' change) ref ref' where
  toTidy := serving.toTidy.modify ref ref' change
  same := by rw [heap_modify, heap_modify, serving.same]
  mine := by
    rw [(heap_modify_same m ref ref change).1]
    exact serving.mine
  kept := by
    rw [(heap_modify_same m ref ref change).1, (heap_modify_same m ref ref change).2]
    obtain ⟨s, found, deadline, fresh⟩ := serving.kept
    refine ⟨s, found, deadline, fun clean => ?_⟩
    obtain ⟨before, unchanged⟩ := kept clean
    rw [heap_modify, Serial.modify, unchanged]
    exact fresh before
  others {id} other := by
    rw [(heap_modify_same m ref ref change).1] at other
    rw [serving.memory.stored_modify other]
    exact serving.others other

/-- `updateExisting` writes a live session back. -/
theorem update (serving : Serving ids stale t m l ref ref') (live : t < (m.heap ref).expiryTime) :
    Serving ids false t (memory.updateExisting ref t m) (S.backend.updateExisting ref' t l) ref ref' := by
  obtain ⟨s, found, deadline, -⟩ := serving.kept
  have kept : memory.updateExisting ref t m = m := by
    change { m with storage := (m.storage.updateExisting m.heap ref t).2 } = m
    unfold MemorySessionStorage.updateExisting
    rw [serving.mine]
    dsimp only
    rw [if_neg (by simp), if_neg (Nat.not_le.mpr live)]
  have written : S.backend.updateExisting ref' t l =
      { l with storage := S.save (m.heap ref) l.storage } := by
    unfold SnapshotStorage.backend
    dsimp only
    rw [← serving.same, found]
    dsimp only
    rw [if_neg (Nat.not_le.mpr (deadline ▸ live)), if_neg (Nat.not_le.mpr live)]
  have fresh : (m.heap ref).sessionId ∉ ids := by
    intro member
    have absent := serving.memory.unused member
    rw [serving.mine] at absent
    cases absent
  rw [kept, written]
  refine ⟨⟨serving.memory, load_save_own serving.snapshots rfl fresh⟩, serving.same, serving.mine, ?_, ?_⟩
  · refine ⟨m.heap ref, ?_, rfl, fun _ => rfl⟩
    exact (S.load_save _ _ _).trans (if_pos rfl)
  · intro id other
    change _ = liveAt t (S.load id (S.save (m.heap ref) l.storage))
    rw [S.load_save, if_neg other]
    exact serving.others other

theorem remove (serving : Serving ids stale t m l ref ref') {id : Bytes}
    (other : id ≠ (m.heap ref).sessionId) :
    Serving ids stale t (memory.remove id m) (S.backend.remove id l) ref ref' where
  memory := serving.memory.remove id
  snapshots := serving.snapshots.remove id
  same := serving.same
  mine := by
    change (m.storage.sessions.erase id).find? (m.heap ref).sessionId = some ref
    rw [SortedMap.find?_erase, if_neg other]
    exact serving.mine
  kept := by
    obtain ⟨s, found, deadline, fresh⟩ := serving.kept
    refine ⟨s, ?_, deadline, fresh⟩
    change S.load (m.heap ref).sessionId _ = some s
    rw [load_remove, if_neg (Ne.symm other)]
    exact found
  others {id'} apart := live_remove fun _ => serving.others apart

/-- A session that the request destroys is lost to both. -/
theorem destroy (serving : Serving ids stale t m l ref ref') :
    Over ids t (memory.remove (m.heap ref).sessionId m)
      (S.backend.remove (m.heap ref).sessionId l) ref ref' where
  memory := serving.memory.remove _
  snapshots := serving.snapshots.remove _
  live id' := live_remove fun apart => serving.others apart
  same := serving.same
  dead := by
    change liveAt t (stored (memory.remove _ m) (m.heap ref).sessionId) = none
    rw [stored_remove, if_pos rfl]
    rfl

theorem accesses (serving : Serving ids stale t m l ref ref') {rest : List Access}
    (ordered : (t :: rest.map (·.now)).Pairwise (· ≤ ·)) (writes : saved (m.heap ref) stale rest = true) :
    (memory.accesses ref rest m).1 = (S.backend.accesses ref' rest l).1 ∧
      ∀ t', t ≤ t' → (∀ a ∈ rest, a.now ≤ t') →
        Agree ids t' (memory.accesses ref rest m).2 (S.backend.accesses ref' rest l).2 := by
  induction rest generalizing t m l stale with
  | nil =>
      rw [saved, Bool.not_eq_true'] at writes
      subst writes
      exact ⟨rfl, fun t' later _ => serving.agree.mono later⟩
  | cons a rest ih =>
      obtain ⟨first, more⟩ := List.pairwise_cons.mp ordered
      have serving := serving.mono (first a.now List.mem_cons_self)
      by_cases expired : (m.heap ref).expiryTime ≤ a.now
      · have ordered : (a.now :: (a :: rest).map (·.now)).Pairwise (· ≤ ·) := by
          refine List.pairwise_cons.mpr ⟨fun x member => ?_, more⟩
          rcases List.mem_cons.mp member with rfl | member
          · exact Nat.le_refl _
          · exact (List.pairwise_cons.mp more).1 x member
        obtain ⟨same, ends⟩ := (serving.expire expired).accesses ordered
        exact ⟨same, fun t' _ bound => ends t' (bound a List.mem_cons_self) bound⟩
      rw [saved, if_neg expired] at writes
      -- One more access, from which the session goes on as `serving'`.
      have goOn {stale' : Bool} {m' : World MemorySessionStorage} {l' : World S.State} {out : List Obs}
          (left : memory.access ref a m = (out, m')) (right : S.backend.access ref' a l = (out, l'))
          (serving' : Serving ids stale' a.now m' l' ref ref')
          (writes' : saved (m'.heap ref) stale' rest = true) :
          (memory.accesses ref (a :: rest) m).1 = (S.backend.accesses ref' (a :: rest) l).1 ∧
            ∀ t', t ≤ t' → (∀ b ∈ a :: rest, b.now ≤ t') →
              Agree ids t' (memory.accesses ref (a :: rest) m).2
                (S.backend.accesses ref' (a :: rest) l).2 := by
        obtain ⟨same, ends⟩ := ih serving' more writes'
        unfold Backend.accesses
        rw [left, right]
        refine ⟨by rw [same], fun t' _ bound => ?_⟩
        exact ends t' (bound a List.mem_cons_self) fun b member => bound b (List.mem_cons_of_mem a member)
      obtain ⟨now, op⟩ := a
      have live : now < (m.heap ref).expiryTime := Nat.not_le.mp expired
      cases op with
      | setValue key value =>
          have changed : Serving ids true now (m.modifyData ref (·.insert key value))
              (l.modifyData ref' (·.insert key value)) ref ref' := serving.modify _ nofun
          have live' : now < ((m.modifyData ref (·.insert key value)).heap ref).expiryTime := by
            rw [(heap_modify_same m ref ref _).2]
            exact live
          refine goOn rfl rfl (changed.update live') ?_
          change saved ((m.modifyData ref (·.insert key value)).heap ref) false rest = true
          rw [heap_modify]
          exact writes
      | remove key =>
          have changed : Serving ids (stale || ((m.heap ref).data.find? key).isSome) now
              (m.modifyData ref (·.erase key)) (l.modifyData ref' (·.erase key)) ref ref' := by
            refine serving.modify _ fun clean => ?_
            obtain ⟨before, absent⟩ := Bool.or_eq_false_iff.mp clean
            exact ⟨before, erase_absent (Option.isSome_eq_false_iff.mp absent)⟩
          refine goOn rfl rfl changed ?_
          rw [heap_modify]
          exact writes
      | clear =>
          have changed : Serving ids (stale || (m.heap ref).data.size != 0) now
              (m.modifyData ref fun _ => .empty) (l.modifyData ref' fun _ => .empty) ref ref' := by
            refine serving.modify _ fun clean => ?_
            obtain ⟨before, empty⟩ := Bool.or_eq_false_iff.mp clean
            exact ⟨before, empty_of_size (by simpa using empty)⟩
          refine goOn rfl rfl changed ?_
          rw [heap_modify]
          exact writes
      | getValue key =>
          refine goOn rfl ?_ serving writes
          unfold Backend.access
          rw [serving.same]
      | destroySession id =>
          dsimp only at writes
          by_cases own : id = (m.heap ref).sessionId
          · subst own
            obtain ⟨same, ends⟩ := serving.destroy.accesses more
            exact ⟨same, fun t' _ bound => ends t' (bound _ List.mem_cons_self) fun b member =>
              bound b (List.mem_cons_of_mem _ member)⟩
          · rw [if_neg own] at writes
            exact goOn rfl rfl (serving.remove own) writes

end Serving

/-! ## `getSession` -/

theorem Tidy.weaken {id : Bytes} (tidy : Tidy (id :: ids) m l) : Tidy ids m l where
  memory := ⟨tidy.memory.own, fun member => tidy.memory.unused (List.mem_cons_of_mem id member)⟩
  snapshots := ⟨tidy.snapshots.own, fun member => tidy.snapshots.unused (List.mem_cons_of_mem id member)⟩

/-- The session that both storages found, refreshed in both. -/
theorem resume_serving {id : Bytes} (agree : Agree ids now m l)
    (found : m.storage.sessions.find? id = some ref) (load : S.load id l.storage = some (m.heap ref)) :
    Serving ids false now { m with heap := Function.update m.heap ref ((m.heap ref).refresh now) }
      { l.allocate ((m.heap ref).refresh now) with
        storage := S.save ((m.heap ref).refresh now) l.storage } ref l.nextRef := by
  obtain ⟨own, used⟩ := agree.memory.own found
  have self : Function.update m.heap ref ((m.heap ref).refresh now) ref = (m.heap ref).refresh now :=
    Function.update_self ..
  have self' : Function.update l.heap l.nextRef ((m.heap ref).refresh now) l.nextRef =
      (m.heap ref).refresh now := Function.update_self ..
  have fresh : ((m.heap ref).refresh now).sessionId ∉ ids := by
    intro member
    have absent := agree.memory.unused member
    change m.storage.sessions.find? (m.heap ref).sessionId = none at absent
    rw [own, found] at absent
    cases absent
  refine ⟨⟨⟨?_, agree.memory.unused⟩, load_save_own agree.snapshots rfl fresh⟩, ?_, ?_, ?_, ?_⟩
  · intro id' at_ found'
    obtain ⟨own', used'⟩ := agree.memory.own found'
    refine ⟨?_, used'⟩
    change (Function.update m.heap ref _ at_).sessionId = id'
    by_cases same : at_ = ref
    · subst same
      rw [self]
      exact own'
    · rw [Function.update_of_ne same]
      exact own'
  · exact self.trans self'.symm
  · change m.storage.sessions.find? (Function.update m.heap ref _ ref).sessionId = some ref
    rw [self]
    exact own.symm ▸ found
  · refine ⟨(m.heap ref).refresh now, ?_, ?_, fun _ => self.symm⟩
    · change S.load (Function.update m.heap ref _ ref).sessionId _ = _
      rw [self]
      exact (S.load_save _ _ _).trans (if_pos rfl)
    · change _ = (Function.update m.heap ref _ ref).expiryTime
      rw [self]
  · intro id' other
    change id' ≠ (Function.update m.heap ref _ ref).sessionId at other
    rw [self] at other
    change liveAt now ((m.storage.sessions.find? id').map _) =
      liveAt now (S.load id' (S.save ((m.heap ref).refresh now) l.storage))
    rw [S.load_save, if_neg other, ← agree.live, stored]
    cases found' : m.storage.sessions.find? id' with
    | none => rfl
    | some at_ =>
        have apart : at_ ≠ ref := by
          rintro rfl
          exact other (agree.memory.own found').1.symm
        rw [Option.map_some, Option.map_some]
        exact congrArg (fun s => liveAt now (some s)) (Function.update_of_ne apart ..)

/-- Both storages resume the session, or neither has it. -/
theorem lookup_spec (agree : Agree ids t m l) (later : t ≤ now) (cookie : Bytes) :
    (∃ ref ref' m' l', memory.lookup cookie now m = (some ref, m') ∧
        S.backend.lookup cookie now l = (some ref', l') ∧ Serving ids false now m' l' ref ref') ∨
      ∃ m' l', memory.lookup cookie now m = (none, m') ∧ S.backend.lookup cookie now l = (none, l') ∧
        Agree ids now m' l' ∧ m'.storage.capacity = m.storage.capacity := by
  have agree := agree.mono later
  unfold Backend.lookup
  dsimp only
  generalize getSessionIdFromCookie cookie = id
  by_cases empty : id.isEmpty = true
  · rw [if_pos empty, if_pos empty]
    exact .inr ⟨m, l, rfl, rfl, agree, rfl⟩
  rw [if_neg empty, if_neg empty]
  -- Without a live session the snapshot is absent or expired.
  have missing {m' : World MemorySessionStorage} (dead : liveAt now (stored m id) = none)
      (missed : memory.loadAndRefresh id now m = (none, m')) (agree' : Agree ids now m' l)
      (dead' : liveAt now (stored m' id) = none) (room : m'.storage.capacity = m.storage.capacity) :
      ∃ m' l', memory.loadAndRefresh id now m = (none, m') ∧
        S.backend.loadAndRefresh id now l = (none, l') ∧ Agree ids now m' l' ∧
          m'.storage.capacity = m.storage.capacity := by
    have gone : liveAt now (S.load id l.storage) = none := by rw [← agree.live, dead]
    unfold SnapshotStorage.backend
    dsimp only
    cases load : S.load id l.storage with
    | none => exact ⟨m', l, missed, rfl, agree', room⟩
    | some session =>
        have expired : session.expiryTime ≤ now := by
          by_contra live
          rw [load, liveAt_some (Nat.not_le.mp live)] at gone
          cases gone
        dsimp only
        rw [if_pos expired]
        exact ⟨m', _, missed, rfl, agree'.forgetSnapshot dead', room⟩
  cases found : m.storage.sessions.find? id with
  | none =>
      have missed : memory.loadAndRefresh id now m = (none, m) := by
        simp [memory, MemorySessionStorage.loadAndRefresh, found]
      have dead : liveAt now (stored m id) = none := by
        rw [stored_eq_none found]
        rfl
      exact .inr (missing dead missed agree dead rfl)
  | some ref =>
      obtain ⟨own, used⟩ := agree.memory.own found
      by_cases expired : (m.heap ref).expiryTime ≤ now
      · have missed : memory.loadAndRefresh id now m = (none, memory.remove id m) := by
          simp [memory, MemorySessionStorage.loadAndRefresh, MemorySessionStorage.remove, found, expired]
        have dead : liveAt now (stored m id) = none := by
          rw [stored, found]
          exact liveAt_expired expired
        have dead' : liveAt now (stored (memory.remove id m) id) = none := by
          rw [stored_remove, if_pos rfl]
          rfl
        exact .inr (missing dead missed (agree.forgetMemory dead) dead' rfl)
      · have live := agree.live id
        rw [stored, found, Option.map_some, liveAt_some (Nat.not_le.mp expired)] at live
        obtain ⟨load, -⟩ := liveAt_eq_some live.symm
        left
        refine ⟨ref, l.nextRef, { m with heap := Function.update m.heap ref ((m.heap ref).refresh now) },
          { l.allocate ((m.heap ref).refresh now) with
            storage := S.save ((m.heap ref).refresh now) l.storage }, ?_, ?_, ?_⟩
        · simp [memory, MemorySessionStorage.loadAndRefresh, found, expired]
        · unfold SnapshotStorage.backend
          dsimp only
          rw [load]
          dsimp only
          rw [if_neg expired]
        · exact resume_serving agree found load

theorem create_spec {id : Bytes} (agree : Agree (id :: ids) now m l) (fresh : id ∉ ids)
    (room : m.storage.sessions.size < m.storage.capacity) (maxAge : Time) :
    ∃ m' l', memory.admitSession m.nextRef now (m.allocate (Session.new id maxAge now)) = (true, m') ∧
      S.backend.admitSession l.nextRef now (l.allocate (Session.new id maxAge now)) = (true, l') ∧
        Serving ids false now m' l' m.nextRef l.nextRef := by
  have self : (m.allocate (Session.new id maxAge now)).heap m.nextRef = Session.new id maxAge now :=
    Function.update_self ..
  have self' : (l.allocate (Session.new id maxAge now)).heap l.nextRef = Session.new id maxAge now :=
    Function.update_self ..
  have absent : m.storage.sessions.find? id = none := agree.memory.unused List.mem_cons_self
  have tidy := agree.toTidy.weaken
  have find (id' : Bytes) : (m.storage.sessions.insert id m.nextRef).find? id' =
      if id = id' then some m.nextRef else m.storage.sessions.find? id' :=
    (SortedMap.find?_insert ..).trans (by congr)
  refine ⟨{ m.allocate (Session.new id maxAge now) with
      storage := { m.storage with sessions := m.storage.sessions.insert id m.nextRef } },
    { l.allocate (Session.new id maxAge now) with
      storage := S.save (Session.new id maxAge now) l.storage }, ?_, ?_, ?_⟩
  · have admitted : m.storage.admitSession (m.allocate (Session.new id maxAge now)).heap m.nextRef now
        (fun _ => now) =
          (true, { m.storage with sessions := m.storage.sessions.insert id m.nextRef }) := by
      unfold MemorySessionStorage.admitSession
      rw [self, show (Session.new id maxAge now).sessionId = id from rfl, absent]
      dsimp only
      unfold MemorySessionStorage.admitBounded
      rw [self, if_neg (Nat.not_le.mpr room), if_neg (Nat.not_le.mpr room)]
      rfl
    unfold memory
    dsimp only
    have stored : (m.allocate (Session.new id maxAge now)).storage = m.storage := rfl
    rw [stored, admitted]
  · have admitted : S.backend.admitSession l.nextRef now (l.allocate (Session.new id maxAge now)) =
        (true, { l.allocate (Session.new id maxAge now) with
          storage := S.save ((l.allocate (Session.new id maxAge now)).heap l.nextRef) l.storage }) := rfl
    rw [admitted, self']
  refine ⟨⟨⟨?_, ?_⟩, load_save_own tidy.snapshots rfl fresh⟩, ?_, ?_, ?_, ?_⟩
  · intro id' at_ found
    change (m.storage.sessions.insert id m.nextRef).find? id' = some at_ at found
    rw [find] at found
    split at found
    · next same =>
        cases found
        exact ⟨(congrArg Session.sessionId self).trans same, Nat.lt_succ_self _⟩
    · obtain ⟨own, used⟩ := tidy.memory.own found
      have kept : (m.allocate (Session.new id maxAge now)).heap at_ = m.heap at_ :=
        Function.update_of_ne (Nat.ne_of_lt used) ..
      exact ⟨(congrArg Session.sessionId kept).trans own, Nat.lt_succ_of_lt used⟩
  · intro id' member
    change (m.storage.sessions.insert id m.nextRef).find? id' = none
    rw [find, if_neg, tidy.memory.unused member]
    rintro rfl
    exact fresh member
  · exact self.trans self'.symm
  · change (m.storage.sessions.insert id m.nextRef).find? (Session.sessionId _) = some m.nextRef
    rw [self, find]
    exact if_pos rfl
  · refine ⟨Session.new id maxAge now, ?_, (congrArg Session.expiryTime self).symm, fun _ => self.symm⟩
    change S.load (Session.sessionId _) (S.save (Session.new id maxAge now) l.storage) = _
    rw [self, S.load_save]
    exact if_pos rfl
  · intro id' other
    change id' ≠ Session.sessionId _ at other
    rw [self] at other
    change liveAt now (((m.storage.sessions.insert id m.nextRef).find? id').map _) =
      liveAt now (S.load id' (S.save (Session.new id maxAge now) l.storage))
    have apart : ¬ id = id' := fun same => other same.symm
    rw [S.load_save, if_neg other, ← agree.live, stored, find, if_neg apart]
    cases found : m.storage.sessions.find? id' with
    | none => rfl
    | some at_ =>
        have used := (tidy.memory.own found).2
        rw [Option.map_some, Option.map_some]
        exact congrArg (fun s => liveAt now (some s)) (Function.update_of_ne (Nat.ne_of_lt used) ..)

/-- Both runs resume the same session or create the same one. -/
theorem getSession_spec {r : Request} (maxAge : Time)
    (agree : Agree (generateSessionId r.draws :: ids) t m l) (later : t ≤ r.now)
    (fresh : generateSessionId r.draws ∉ ids) (room : Roomy m (.request r)) :
    ∃ o ref ref' m' l', memory.getSession maxAge r m = (o, some ref, m') ∧
      S.backend.getSession maxAge r l = (o, some ref', l') ∧ Serving ids false r.now m' l' ref ref' := by
  change (memory.lookup r.cookie r.now m).2.storage.sessions.size < m.storage.capacity at room
  unfold Backend.getSession
  rcases lookup_spec agree later r.cookie with
    ⟨ref, ref', m', l', left, right, serving⟩ | ⟨m', l', left, right, agree', capacity⟩
  · rw [left, right]
    dsimp only
    refine ⟨.resumed (m'.heap ref).sessionId, ref, ref', m', l', rfl, by rw [serving.same], ?_⟩
    exact { serving with toTidy := serving.toTidy.weaken }
  · rw [left] at room ⊢
    rw [← capacity] at room
    obtain ⟨m'', l'', admitted, admitted', serving⟩ := create_spec agree' fresh room maxAge
    rw [right]
    dsimp only
    rw [admitted, admitted']
    exact ⟨_, _, _, _, _, rfl, rfl, serving⟩

/-! ## Whole runs -/

/-- A sweep drops expired sessions only. -/
theorem Agree.sweep (agree : Agree ids t m l) (late : now ≤ t) :
    Agree ids t (memory.cleanExpired now m) (S.backend.cleanExpired now l) := by
  have find (id : Bytes) : (memory.cleanExpired now m).storage.sessions.find? id =
      (m.storage.sessions.find? id).filter fun ref => now < (m.heap ref).expiryTime :=
    SortedMap.find?_filter ..
  refine ⟨⟨⟨fun found => ?_, fun member => ?_⟩, agree.snapshots⟩, fun id => ?_⟩
  · rw [find, Option.filter_eq_some_iff] at found
    exact agree.memory.own found.1
  · rw [find, agree.memory.unused member]
    rfl
  · rw [stored, find]
    change _ = liveAt t (S.load id l.storage)
    rw [← agree.live, stored]
    cases m.storage.sessions.find? id with
    | none => rfl
    | some ref =>
        by_cases live : now < (m.heap ref).expiryTime
        · rw [Option.filter_some, if_pos (decide_eq_true live)]
          rfl
        · have expired : (m.heap ref).expiryTime ≤ t := (Nat.not_lt.mp live).trans late
          rw [Option.map_some, liveAt_expired expired]
          simp [live, liveAt]

theorem serve_spec {e : Event} {maxAge : Time} {elapsed : List Time}
    (agree : ∀ t, (∀ x ∈ elapsed, x ≤ t) → Agree (e.drawn ++ ids) t m l)
    (ordered : (elapsed ++ e.times).Pairwise (· ≤ ·)) (fresh : (e.drawn ++ ids).Nodup) (room : Roomy m e)
    (writes : Saved maxAge m e) :
    (memory.serve maxAge e m).1 = (S.backend.serve maxAge e l).1 ∧
      ∀ t, (∀ x ∈ elapsed ++ e.times, x ≤ t) →
        Agree ids t (memory.serve maxAge e m).2 (S.backend.serve maxAge e l).2 := by
  have before (x : Time) (member : x ∈ elapsed) (y : Time) (member' : y ∈ e.times) : x ≤ y :=
    (List.pairwise_append.mp ordered).2.2 x member y member'
  cases e with
  | cleanExpiredSessions now =>
      refine ⟨rfl, fun t bound => ?_⟩
      have late : now ≤ t := bound now (List.mem_append_right _ List.mem_cons_self)
      exact (agree t fun x member => bound x (List.mem_append_left _ member)).sweep late
  | request r =>
      have agreeNow := agree r.now fun x member => before x member r.now List.mem_cons_self
      obtain ⟨o, ref, ref', m', l', left, right, serving⟩ :=
        getSession_spec maxAge agreeNow (Nat.le_refl _) (List.nodup_cons.mp fresh).1 room
      unfold Saved at writes
      dsimp only at writes
      rw [left] at writes
      obtain ⟨same, ends⟩ := serving.accesses (List.pairwise_append.mp ordered).2.1 writes
      unfold Backend.serve
      dsimp only
      rw [left, right]
      refine ⟨congrArg (o :: ·) same, fun t bound => ?_⟩
      apply ends t
      · exact bound r.now (List.mem_append_right _ List.mem_cons_self)
      · intro a member
        exact bound a.now (List.mem_append_right _ (List.mem_cons_of_mem _ (List.mem_map_of_mem member)))

/-- From worlds that agree both runs show the same. -/
theorem serveAll_spec {maxAge : Time} (elapsed : List Time) (events : List Event)
    (agree : ∀ t, (∀ x ∈ elapsed, x ≤ t) → Agree (events.flatMap Event.drawn) t m l)
    (ordered : (elapsed ++ events.flatMap Event.times).Pairwise (· ≤ ·))
    (fresh : (events.flatMap Event.drawn).Nodup) (room : memory.EveryEvent maxAge Roomy events m)
    (writes : memory.EveryEvent maxAge (Saved maxAge) events m) :
    memory.serveAll maxAge events m = S.backend.serveAll maxAge events l := by
  induction events generalizing elapsed m l with
  | nil => rfl
  | cons e rest ih =>
      rw [List.flatMap_cons] at agree ordered fresh
      obtain ⟨roomNow, roomLater⟩ := room
      obtain ⟨writesNow, writesLater⟩ := writes
      rw [← List.append_assoc] at ordered
      obtain ⟨same, next⟩ := serve_spec agree (List.pairwise_append.mp ordered).1 fresh roomNow writesNow
      have later := ih _ next ordered (List.nodup_append.mp fresh).2.1 roomLater writesLater
      rw [Backend.serveAll, Backend.serveAll, same, later]

/-- As long as every request writes its session back, the snapshots show what the shared
objects show. -/
theorem snapshots_agree (S : SnapshotStorage) (capacity maxAge : Nat) (events : List Event)
    (ordered : (events.flatMap Event.times).Pairwise (· ≤ ·))
    (fresh : (events.flatMap Event.drawn).Nodup)
    (room : memory.EveryEvent maxAge Roomy events { storage := { capacity := capacity } })
    (writes : memory.EveryEvent maxAge (Saved maxAge) events { storage := { capacity := capacity } }) :
    memory.serveAll maxAge events { storage := { capacity := capacity } } =
      S.backend.serveAll maxAge events { storage := S.empty } := by
  refine serveAll_spec [] events (fun t _ => ?_) ordered fresh room writes
  refine ⟨⟨⟨fun found => ?_, fun _ => rfl⟩, ⟨fun found => ?_, fun _ => S.load_empty _⟩⟩, fun id => ?_⟩
  · cases found
  · rw [S.load_empty] at found
    cases found
  · rw [S.load_empty]
    rfl

/-! ## A login and a logout -/

/-- Snapshots in a map. -/
def sortedSnapshots : SnapshotStorage where
  State := SortedMap Bytes Session
  empty := .empty
  save session snapshots := snapshots.insert session.sessionId session
  load id snapshots := snapshots.find? id
  remove id snapshots := snapshots.erase id
  load_empty _ := rfl
  load_save id session snapshots := by
    rw [SortedMap.find?_insert]
    congr 1
    exact propext eq_comm
  load_remove id id' snapshots := by
    rw [SortedMap.find?_erase]
    congr 1
    exact propext eq_comm

/-- Three requests of one client at the times 1 to 6; the second does `op`. -/
def logIn (op : Op) : List Event :=
  [.request ⟨[], .replicate 32 ⟨0, by decide⟩, 1, [⟨2, .setValue (bytes "userId") (bytes "7")⟩]⟩,
    .request ⟨bytes "sessionId=" ++ generateSessionId (.replicate 32 ⟨0, by decide⟩), .replicate 32 ⟨1, by decide⟩, 3, [⟨4, op⟩]⟩,
    .request ⟨bytes "sessionId=" ++ generateSessionId (.replicate 32 ⟨0, by decide⟩), .replicate 32 ⟨2, by decide⟩, 5,
      [⟨6, .getValue (bytes "userId")⟩]⟩]

instance (w : World MemorySessionStorage) (e : Event) : Decidable (Roomy w e) :=
  match e with
  | .request r => inferInstanceAs (Decidable
      ((memory.lookup r.cookie r.now w).2.storage.sessions.size < w.storage.capacity))
  | .cleanExpiredSessions _ => .isTrue trivial

instance (maxAge : Time) (w : World MemorySessionStorage) (e : Event) : Decidable (Saved maxAge w e) :=
  match e with
  | .request r =>
      match got : memory.getSession maxAge r w with
      | (_, none, _) => .isTrue (by simp only [Saved, got])
      | (_, some ref, w') =>
          decidable_of_iff (saved (w'.heap ref) false r.accesses = true) (by simp only [Saved, got])
  | .cleanExpiredSessions _ => .isTrue trivial

theorem snapshots_agree_destroyed :
    memory.serveAll 100 (logIn (.destroySession (generateSessionId (.replicate 32 0))))
        { storage := { capacity := 3 } } =
      sortedSnapshots.backend.serveAll 100
        (logIn (.destroySession (generateSessionId (.replicate 32 0)))) { storage := .empty } :=
  snapshots_agree sortedSnapshots 3 100 _ (by decide +kernel) (by decide +kernel)
    ⟨by decide +kernel, by decide +kernel, by decide +kernel, trivial⟩
    ⟨by decide +kernel, by decide +kernel, by decide +kernel, trivial⟩

/-- A removed `userId` is back in the next request. -/
theorem snapshots_keep_removed :
    ¬ ∀ (S : SnapshotStorage) (capacity maxAge : Nat) (events : List Event),
      (events.flatMap Event.times).Pairwise (· ≤ ·) → (events.flatMap Event.drawn).Nodup →
      memory.EveryEvent maxAge Roomy events { storage := { capacity := capacity } } →
      memory.serveAll maxAge events { storage := { capacity := capacity } } =
        S.backend.serveAll maxAge events { storage := S.empty } := by
  intro agree
  have same := agree sortedSnapshots 3 100 (logIn (.remove (bytes "userId"))) (by decide +kernel)
    (by decide +kernel) ⟨by decide +kernel, by decide +kernel, by decide +kernel, trivial⟩
  revert same
  decide +kernel

end AIService.Sessions.Serial
