import AIService.Inference.Calls
import AIService.Inference.Context

/-!
# The bounded cache

The entries of the pool are a cache of at most `max_sessions`, in the order of their last
successful use.  `Evicts` says what the eviction loop leaves, `Used` what the `access_order` of an
entry tells, `Alive` how many caches exist within a call and `Fate` what becomes of an entry; the
invariant is `Lru`.
-/

namespace AIService.Inference

/-! ## Evictions -/

theorem oldest_none {entries : List (Bytes × SessionData)} (none : oldest entries = none) :
    entries = [] := by
  cases entries with
  | nil => rfl
  | cons entry rest =>
      unfold oldest at none
      split at none
      · split at none <;> cases none
      · cases none

theorem oldest_least {entries : List (Bytes × SessionData)} {entry : Bytes × SessionData}
    (found : oldest entries = some entry) :
    entry ∈ entries ∧ ∀ other ∈ entries, entry.2.accessOrder ≤ other.2.accessOrder := by
  induction entries generalizing entry with
  | nil => cases found
  | cons head rest ih =>
      unfold oldest at found
      split at found
      · next later oldestRest =>
          obtain ⟨member, least⟩ := ih oldestRest
          split at found
          · next less =>
              cases found
              exact ⟨.tail _ member, List.forall_mem_cons.mpr ⟨Nat.le_of_lt less, least⟩⟩
          · next notLess =>
              cases found
              have first := Nat.le_of_not_lt notLess
              exact ⟨.head _, List.forall_mem_cons.mpr
                ⟨Nat.le_refl _, fun other there => first.trans (least other there)⟩⟩
      · next noRest =>
          cases found
          rw [oldest_none noRest]
          exact ⟨.head _, by simp⟩

/-- `kept` is `live` without its least recently used entries, as many as it takes to leave room
for one more among `maxSessions`. -/
structure Evicts (maxSessions : Nat) (live kept : SortedMap Bytes SessionData) : Prop where
  fewer : Fewer kept live
  size : kept.size = min live.size (maxSessions - 1)
  oldest : ∀ gone session key other, live.find? gone = some session → kept.find? gone = none →
    kept.find? key = some other → session.accessOrder ≤ other.accessOrder

theorem Evicts.refl {maxSessions : Nat} {live : SortedMap Bytes SessionData}
    (room : live.size < maxSessions) : Evicts maxSessions live live where
  fewer := .refl
  size := by omega
  oldest gone session key other found lost := by
    rw [found] at lost
    cases lost

theorem evict_evicts {maxSessions rounds : Nat} {live : SortedMap Bytes SessionData}
    (positive : 0 < maxSessions) (enough : live.size ≤ rounds) :
    Evicts maxSessions live (evict maxSessions rounds live) := by
  induction rounds generalizing live with
  | zero => exact .refl (by omega)
  | succ rounds ih =>
      unfold evict
      split
      · next full =>
          split
          · next entry found =>
              obtain ⟨member, least⟩ := oldest_least found
              have present := live.mem_entries.mp member
              have smaller := live.size_erase present
              have rest : Evicts maxSessions (live.erase entry.1) _ := ih (by omega)
              refine ⟨rest.fewer.trans (Fewer.filter _), ?_, ?_⟩
              · rw [rest.size]
                omega
              · intro gone session key other here notKept kept
                by_cases first : entry.1 = gone
                · subst first
                  rw [present] at here
                  cases here
                  have old := Fewer.filter _ _ _ (rest.fewer _ _ kept)
                  exact least (key, other) (live.mem_entries.mpr old)
                · refine rest.oldest gone session key other ?_ notKept kept
                  rw [SortedMap.find?_erase, if_neg first]
                  exact here
          · next none =>
              have empty : live.size = 0 := by
                unfold SortedMap.size
                rw [oldest_none none, List.length_nil]
              omega
      · next room => exact .refl (Nat.lt_of_not_le room)

theorem Pool.makeRoom_evicts {pool : Pool} {key : Bytes} (positive : 0 < pool.policy.maxSessions.toNat) :
    Evicts pool.policy.maxSessions.toNat (pool.sessions.erase key) (pool.makeRoom key).sessions :=
  evict_evicts positive (Nat.le_refl _)

/-! ## Uses -/

/-- The uses after a call of `generateImpl`: a successful generation is one, at the clock reading
that ends it. -/
def Request.after (r : Request) (around : Surroundings) (result : Except String Unit)
    (uses : List (Bytes × Instant)) : List (Bytes × Instant) :=
  match result with
  | .ok () => uses ++ [(r.sessionKey, around.endClock)]
  | .error _ => uses

def Called.after (c : Called) (uses : List (Bytes × Instant)) : List (Bytes × Instant) :=
  match c.op.request? with
  | some (r, around) => r.after around c.result uses
  | none =>
      match c.op with
      | .shutdown => []
      | _ => uses

/-- The successful generations since the pool was shut down last, oldest first. -/
def uses (tr : List Called) : List (Bytes × Instant) := tr.foldl (fun before c => c.after before) []

/-- An entry is unused, or its `access_order` is the number of its last use. -/
inductive Used (uses : List (Bytes × Instant)) (key : Bytes) (session : SessionData) : Prop
  | never : session.kvCache.built = [] → session.accessOrder = 0 → Used uses key session
  | last {before later : List (Bytes × Instant)} :
    uses = before ++ (key, session.lastUsed) :: later → before.length + 1 = session.accessOrder →
    (∀ use ∈ later, use.1 ≠ key) → Used uses key session

section used

variable {uses : List (Bytes × Instant)} {key : Bytes} {session : SessionData}

theorem Used.fresh (engine : Gemma) : Used uses key (.fresh engine) := .never rfl rfl

theorem Used.le (used : Used uses key session) : session.accessOrder ≤ uses.length := by
  cases used with
  | never _ zero => omega
  | last split order _ =>
      rw [split, List.length_append, List.length_cons]
      omega

/-- Another session is used. -/
theorem Used.other {use : Bytes × Instant} (used : Used uses key session) (other : use.1 ≠ key) :
    Used (uses ++ [use]) key session := by
  cases used with
  | never unused zero => exact .never unused zero
  | @last before later split order final =>
      have added : uses ++ [use] = before ++ (key, session.lastUsed) :: (later ++ [use]) := by
        rw [split, List.append_assoc, List.cons_append]
      refine .last added order fun late member => ?_
      · rcases List.mem_append.mp member with old | new
        · exact final late old
        · rw [List.mem_singleton.mp new]
          exact other

end used

/-- The invariant. -/
structure Lru (uses : List (Bytes × Instant)) (pool : Pool) : Prop where
  positive : 0 < pool.policy.maxSessions.toNat
  unloaded : pool.gemma = none → pool.sessions = .empty
  bounded : pool.sessions.size ≤ pool.policy.maxSessions.toNat
  counted : pool.accessOrder = uses.length
  used : ∀ key session, pool.sessions.find? key = some session → Used uses key session

theorem Lru.start : Lru [] {} where
  positive := by decide
  unloaded _ := rfl
  bounded := by decide
  counted := rfl
  used _ _ none := nomatch none

section steps

variable {uses : List (Bytes × Instant)} {engine : Gemma} {r : Request} {around : Surroundings}
  {plan : Plan} {session : SessionData} {pool pool₁ pool' : Pool} {out : List Obs}
  {result : Except String Unit}

/-- Entries may be lost. -/
theorem Lru.fewer (lru : Lru uses pool) (same : pool'.gemma = pool.gemma)
    (policy : pool'.policy = pool.policy) (order : pool'.accessOrder = pool.accessOrder)
    (fewer : Fewer pool'.sessions pool.sessions)
    (size : pool'.sessions.size ≤ pool.sessions.size) : Lru uses pool' where
  positive := by
    rw [policy]
    exact lru.positive
  unloaded none := by
    have empty := lru.unloaded (same ▸ none)
    apply SortedMap.ext
    intro key
    cases found : pool'.sessions.find? key with
    | none => rfl
    | some session =>
        have old := fewer key session found
        rw [empty] at old
        cases old
  bounded := by
    rw [policy]
    exact size.trans lru.bounded
  counted := by rw [order, lru.counted]
  used key session found := lru.used key session (fewer key session found)

theorem Lru.pruned (lru : Lru uses pool) (now : Instant) : Lru uses (pool.pruneExpiredLocked now) :=
  lru.fewer rfl rfl rfl (Fewer.filter _) (SortedMap.size_filter_le _ _)

theorem Lru.makeRoom (lru : Lru uses pool) (key : Bytes) : Lru uses (pool.makeRoom key) := by
  refine lru.fewer rfl rfl rfl (makeRoom_fewer pool key) ?_
  have room : Evicts _ _ (pool.makeRoom key).sessions := Pool.makeRoom_evicts lru.positive
  have size := room.size
  have erased := pool.sessions.size_erase_le key
  omega

theorem Lru.obtained (lru : Lru uses pool) (loaded : pool.gemma = some engine)
    (obtained : Obtained engine r plan pool pool₁) : Lru uses pool₁ := by
  cases obtained with
  | reused => exact lru
  | made =>
      have emptied := lru.makeRoom r.sessionKey
      refine ⟨lru.positive, fun none => ?_, ?_, lru.counted, fun key session found => ?_⟩
      · change pool.gemma = .none at none
        rw [loaded] at none
        cases none
      · have added := (pool.makeRoom r.sessionKey).sessions.size_insert_le r.sessionKey (.fresh engine)
        have room : Evicts _ _ (pool.makeRoom r.sessionKey).sessions :=
          Pool.makeRoom_evicts lru.positive
        have size := room.size
        have positive := lru.positive
        change ((pool.makeRoom r.sessionKey).sessions.insert r.sessionKey (.fresh engine)).size
          ≤ pool.policy.maxSessions.toNat
        omega
      · unfold Pool.put at found
        rw [SortedMap.find?_insert] at found
        split at found
        · cases found
          exact .fresh engine
        · exact emptied.used key session found

/-- A generation changes no other entry. -/
theorem Generated.erase_eq (generated : Generated engine r plan around session pool₁ pool' out result) :
    pool'.sessions.erase r.sessionKey = pool₁.sessions.erase r.sessionKey := by
  apply SortedMap.ext
  intro key
  rw [SortedMap.find?_erase, SortedMap.find?_erase]
  split
  · rfl
  · next other => rw [generated.others key (Ne.symm other)]

theorem Lru.generated (lru : Lru uses pool₁) (loaded : pool₁.gemma = some engine)
    (found : pool₁.sessions.find? r.sessionKey = some session)
    (ran : runGenerate engine r plan around pool₁ = (out, pool', result)) :
    Lru (r.after around result uses) pool' := by
  have generated := runGenerate_generated found ran
  have order := runGenerate_accessOrder found ran
  have size : pool'.sessions.size ≤ pool₁.sessions.size := by
    have most := pool'.sessions.size_le_erase r.sessionKey
    rw [generated.erase_eq, pool₁.sessions.size_erase found] at most
    exact most
  cases result with
  | error what =>
      refine lru.fewer generated.same generated.policy order (fun key other here => ?_) size
      by_cases own : key = r.sessionKey
      · rw [own, generated.failed what rfl] at here
        cases here
      · rw [← generated.others key own]
        exact here
  | ok =>
      refine ⟨?_, fun none => ?_, ?_, ?_, fun key other here => ?_⟩
      · rw [generated.policy]
        exact lru.positive
      · rw [generated.same, loaded] at none
        cases none
      · rw [generated.policy]
        exact size.trans lru.bounded
      · rw [order, lru.counted, Request.after, List.length_append, List.length_singleton]
      · by_cases own : key = r.sessionKey
        · subst own
          rw [generated.succeeded rfl] at here
          cases here
          have number : uses.length + 1 = pool₁.accessOrder + 1 := by rw [lru.counted]
          exact .last rfl number nofun
        · rw [generated.others key own] at here
          exact (lru.used key other here).other (Ne.symm own)

theorem Lru.outcome (lru : Lru uses pool) (outcome : Outcome r around pool out pool' result) :
    Lru (r.after around result uses) pool' := by
  cases outcome with
  | refused => exact lru
  | pruned => exact lru.pruned _
  | emptied => exact (lru.pruned _).makeRoom _
  | unused loaded checked planned obtained => exact (lru.pruned _).obtained loaded obtained
  | ran loaded checked planned obtained ran =>
      obtain ⟨session, ready⟩ := obtained.ready loaded checked planned
      exact ((lru.pruned _).obtained loaded obtained).generated ready.same ready.found ran

theorem Lru.clear (lru : Lru uses pool) (key : Bytes) : Lru uses (pool.erase key) :=
  lru.fewer rfl rfl rfl (Fewer.filter _) (pool.sessions.size_erase_le key)

theorem Lru.load {policy : CachePolicy} {model : Gemma} (lru : Lru uses pool)
    (unloaded : pool.gemma = none) (checked : policy.check = .ok ()) :
    Lru uses { pool with gemma := some model, policy := policy } where
  positive := by
    unfold CachePolicy.check at checked
    split at checked
    · cases checked
    · next fine =>
        have some : policy.maxSessions ≠ 0 := fun zero => fine (.inl zero)
        exact Nat.pos_of_ne_zero fun zero => some (UInt64.toNat_inj.mp zero)
  unloaded none := nomatch none
  bounded := by
    change pool.sessions.size ≤ _
    rw [lru.unloaded unloaded]
    exact Nat.zero_le _
  counted := lru.counted
  used := lru.used

theorem Lru.close (lru : Lru uses pool) :
    Lru [] { pool with gemma := none, sessions := .empty, accessOrder := 0 } where
  positive := lru.positive
  unloaded _ := rfl
  bounded := Nat.zero_le _
  counted := rfl
  used _ _ none := nomatch none

end steps

/-- The pool without the entries that are idle for `idle_ttl` or longer. -/
def Pool.unexpired (pool : Pool) (now : Instant) : Pool :=
  { pool with
    sessions := pool.sessions.filter fun _ session => now < session.lastUsed + pool.policy.idleTtl }

/-- The request needs a new cache: its plan does not reuse an entry that has not expired. -/
def Pool.NeedsCache (pool : Pool) (r : Request) (around : Surroundings) : Prop :=
  ∃ engine plan, pool.gemma = some engine ∧ r.check = .ok () ∧
    (pool.unexpired around.pruneClock).plan engine r around = .ok plan ∧ plan.reuse = false

theorem Pool.pruneExpiredLocked_eq (pool : Pool) (now : Instant) :
    pool.pruneExpiredLocked now = pool.unexpired now := by
  unfold Pool.pruneExpiredLocked Pool.unexpired
  congr 2
  funext _ session
  exact decide_eq_decide.mpr ⟨Int.lt_add_of_sub_left_lt, Int.sub_left_lt_of_lt_add⟩

/-- So many caches exist at some moment of a call that finds `pool`. -/
inductive Alive (op : Operation) (pool : Pool) : Nat → Prop
  | before : Alive op pool pool.sessions.size
  /-- The expiry has visited some of the entries. -/
  | expiring {engine : Gemma} {r : Request} {around : Surroundings} (visited : List Bytes) :
    op.request? = some (r, around) → pool.gemma = some engine → r.check = .ok () →
    Alive op pool (pool.sessions.filter fun key session =>
      key ∉ visited ∨ around.pruneClock - session.lastUsed < pool.policy.idleTtl).size
  /-- The request's own entry is gone, and the eviction loop went some rounds. -/
  | evicting {r : Request} {around : Surroundings} (rounds : Nat) :
    op.request? = some (r, around) → pool.NeedsCache r around →
    Alive op pool (evict pool.policy.maxSessions.toNat rounds
      ((pool.pruneExpiredLocked around.pruneClock).sessions.erase r.sessionKey)).size
  /-- The new cache is allocated and not yet an entry. -/
  | allocated {r : Request} {around : Surroundings} :
    op.request? = some (r, around) → pool.NeedsCache r around →
    around.raise .allocate = .ok () →
    Alive op pool
      (((pool.pruneExpiredLocked around.pruneClock).makeRoom r.sessionKey).sessions.size + 1)
  | generating {engine : Gemma} {r : Request} {around : Surroundings} {plan : Plan} {pool₁ : Pool} :
    op.request? = some (r, around) → pool.gemma = some engine → r.check = .ok () →
    (pool.pruneExpiredLocked around.pruneClock).plan engine r around = .ok plan →
    Obtained engine r plan (pool.pruneExpiredLocked around.pruneClock) pool₁ →
    Alive op pool pool₁.sessions.size

theorem evict_size_le (maxSessions rounds : Nat) (sessions : SortedMap Bytes SessionData) :
    (evict maxSessions rounds sessions).size ≤ sessions.size := by
  induction rounds generalizing sessions with
  | zero => exact Nat.le_refl _
  | succ rounds ih =>
      unfold evict
      split
      · split
        · next entry _ => exact (ih _).trans (sessions.size_erase_le entry.1)
        · exact Nat.le_refl _
      · exact Nat.le_refl _

theorem Lru.alive {uses : List (Bytes × Instant)} {pool : Pool} {op : Operation} {n : Nat}
    (lru : Lru uses pool) (alive : Alive op pool n) : n ≤ pool.policy.maxSessions.toNat := by
  have positive := lru.positive
  have bounded := lru.bounded
  cases alive with
  | before => exact bounded
  | expiring => exact (SortedMap.size_filter_le _ _).trans bounded
  | @evicting r around rounds =>
      have fewer := (lru.pruned around.pruneClock).bounded
      exact (evict_size_le _ _ _).trans ((SortedMap.size_erase_le _ _).trans fewer)
  | @allocated r around =>
      have room : Evicts _ _
          ((pool.pruneExpiredLocked around.pruneClock).makeRoom r.sessionKey).sessions :=
        Pool.makeRoom_evicts positive
      have size := room.size
      change _ = min _ (pool.policy.maxSessions.toNat - 1) at size
      omega
  | generating asked loaded checked planned obtained =>
      obtain ⟨session, ready⟩ := obtained.ready loaded checked planned
      rw [← ready.policy]
      exact ((lru.pruned _).obtained loaded obtained).bounded

/-! ## Who stays -/

section outcome

variable {uses : List (Bytes × Instant)} {engine : Gemma} {r : Request} {around : Surroundings}
  {plan : Plan} {session : SessionData} {pool pool₁ pool' : Pool} {out : List Obs}
  {result : Except String Unit} {key : Bytes}

/-- A call with a valid request leaves no other entry that has expired. -/
theorem Outcome.unexpired (outcome : Outcome r around pool out pool' result)
    (loaded : pool.gemma = some engine) (checked : r.check = .ok ()) (other : key ≠ r.sessionKey)
    (found : pool'.sessions.find? key = some session) :
    around.pruneClock < session.lastUsed + pool.policy.idleTtl := by
  have live {kept : SortedMap Bytes SessionData} (fewer : Fewer kept (pool.pruneExpiredLocked around.pruneClock).sessions)
      (found : kept.find? key = some session) :
      around.pruneClock < session.lastUsed + pool.policy.idleTtl := by
    have pruned := fewer key session found
    rw [Pool.pruneExpiredLocked_eq] at pruned
    unfold Pool.unexpired at pruned
    rw [SortedMap.find?_filter] at pruned
    exact of_decide_eq_true (Option.filter_eq_some_iff.mp pruned).2
  have obtains {engine : Gemma} {plan : Plan} {pool₁ : Pool}
      (obtained : Obtained engine r plan (pool.pruneExpiredLocked around.pruneClock) pool₁)
      (found : pool₁.sessions.find? key = some session) :
      around.pruneClock < session.lastUsed + pool.policy.idleTtl := by
    cases obtained with
    | reused => exact live .refl found
    | made =>
        refine live (makeRoom_fewer _ r.sessionKey) ?_
        unfold Pool.put at found
        rw [SortedMap.find?_insert_of_ne _ other.symm] at found
        exact found
  cases outcome with
  | refused invalid => exact absurd checked (invalid engine loaded)
  | pruned => exact live .refl found
  | emptied => exact live (makeRoom_fewer _ r.sessionKey) found
  | unused _ _ _ obtained => exact obtains obtained found
  | ran loaded' checked planned obtained ran =>
      obtain ⟨own, ready⟩ := obtained.ready loaded' checked planned
      rw [(runGenerate_generated ready.found ran).others key other] at found
      exact obtains obtained found

end outcome

section thirdSession

end thirdSession

end AIService.Inference
