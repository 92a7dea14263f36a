import AIService.Inference.Generate

/-!
# The context a cache holds

`Context` ties the transcript of an entry to the calls that wrote its cache.  An entry with
a transcript was written by history calls only, and the turns they submitted and answered
are that transcript; an entry without one was last used by `generate`.  So a history call
that reuses an entry continues its own conversation (`kv_reuse`).
-/

namespace AIService.Inference

/-- The transcript a generation leaves. -/
def Generation.transcript (g : Generation) (engine : Gemma) : List Bytes :=
  match g.history with
  | some texts => texts ++ [g.answer engine]
  | none => []

/-- The turns a generation put into the cache. -/
def Generation.turns (g : Generation) (engine : Gemma) : List Bytes :=
  g.submitted ++ [g.answer engine]

/-- All turns in the cache. -/
def KVCache.turns (cache : KVCache) (engine : Gemma) : List Bytes :=
  cache.built.flatMap (·.turns engine)

theorem KVCache.turns_record (cache : KVCache) (g : Generation) (engine : Gemma) :
    (cache.record g).turns engine = cache.turns engine ++ g.turns engine := by
  simp [KVCache.turns, KVCache.record]

/-- What the cache of the entry of `key` was built from. -/
structure Context (engine : Gemma) (key : Bytes) (session : SessionData) : Prop where
  own : ∀ g ∈ session.kvCache.built, g.sessionKey = key ∧ g.threw = false
  last : ∀ g, session.kvCache.built.getLast? = some g → session.transcript = g.transcript engine
  unused : session.kvCache.built = [] → session.transcript = []
  turns : session.transcript ≠ [] → session.kvCache.turns engine = session.transcript

theorem Context.fresh (engine : Gemma) (key : Bytes) : Context engine key (.fresh engine) where
  own _ member := nomatch member
  last _ none := nomatch none
  unused _ := rfl
  turns some := absurd rfl some

/-- A history call reuses an entry whose transcript is its history before the last text. -/
theorem reusable_transcript {session : SessionData} {history : History}
    (reusable : session.reusable (some history) = true) :
    session.transcript ≠ [] ∧ session.transcript = history.texts.dropLast := by
  simp only [SessionData.reusable, Bool.and_eq_true, Bool.not_eq_true', List.isEmpty_eq_false_iff,
    beq_iff_eq, List.isPrefixOf_iff_prefix] at reusable
  obtain ⟨⟨nonempty, length⟩, starts⟩ := reusable
  refine ⟨nonempty, ?_⟩
  have texts : history.texts.length = history.length := List.length_map _
  rw [List.dropLast_eq_take, texts, ← length, Nat.add_sub_cancel]
  exact List.prefix_iff_eq_take.mp starts

section steps

variable {engine : Gemma} {r : Request} {plan : Plan} {around : Surroundings}
  {session : SessionData} {pool pool₁ : Pool}

/-- A reusing history call submits the one text its transcript lacks. -/
theorem Ready.continues (ready : Ready engine r around plan session pool pool₁)
    (canonical : r.Canonical) {history : History} (asked : r.history = some history)
    (reuse : plan.reuse = true) :
    session.transcript ≠ [] ∧ session.transcript = history.texts.dropLast ∧
      history.texts = session.transcript ++ plan.submitted := by
  obtain ⟨submitted, -, reusable, -⟩ := ready.reused reuse
  rw [asked] at reusable
  obtain ⟨nonempty, same⟩ := reusable_transcript reusable
  refine ⟨nonempty, same, ?_⟩
  rw [same, submitted]
  exact canonical history asked

theorem Context.generated (order : Nat) (canonical : r.Canonical)
    (ready : Ready engine r around plan session pool pool₁)
    (context : Context engine r.sessionKey session) :
    Context engine r.sessionKey (session.generated engine r plan around order) where
  own g member := by
    rcases List.mem_append.mp member with old | new
    · exact context.own g old
    · cases List.mem_singleton.mp new
      exact ⟨rfl, rfl⟩
  last g latest := by
    have same : written r plan around.stream false = g := by
      simpa [SessionData.generated, KVCache.record] using latest
    subst same
    unfold SessionData.generated Generation.transcript written
    cases r.history <;> rfl
  unused none := by simp [SessionData.generated, KVCache.record] at none
  turns nonempty := by
    unfold SessionData.generated at nonempty ⊢
    dsimp only at nonempty ⊢
    cases asked : r.history with
    | none =>
        rw [asked] at nonempty
        exact absurd rfl nonempty
    | some history =>
        rw [KVCache.turns_record]
        have answered : (written r plan around.stream false).turns engine
            = plan.submitted ++ [engine.answer (around.stream.drop plan.tokens.length)] := rfl
        rw [answered, ← List.append_assoc]
        congr 1
        cases reuse : plan.reuse with
        | true =>
            obtain ⟨used, -, whole⟩ := ready.continues canonical asked reuse
            rw [context.turns used, ← whole]
        | false =>
            obtain ⟨rfl, -, submitted⟩ := ready.replayed reuse
            rw [submitted, asked]
            rfl

end steps

/-- Every entry of every run knows its context. -/
theorem contexts {tr : List Obs} {pool : Pool} (run : Run Step {} tr pool) {key : Bytes}
    {session : SessionData} (found : pool.sessions.find? key = some session) :
    ∃ engine, pool.gemma = some engine ∧ Context engine key session :=
  entries (P := Context) Context.fresh
    (fun order canonical ready context => context.generated order canonical ready) run found

/-- What `cache` holds when a call for `key` with these texts continues in it. -/
structure Continues (engine : Gemma) (key : Bytes) (texts : List Bytes) (cache : KVCache) :
    Prop where
  own : ∀ g ∈ cache.built, g.sessionKey = key ∧ g.threw = false
  last : ∃ g before, cache.built.getLast? = some g ∧ g.history = some before ∧
    before ++ [g.answer engine] = texts.dropLast
  turns : cache.turns engine = texts.dropLast

/-- A history call reuses a cache only if the cache was written by calls for its own key that
did not throw, the last of them a history call whose texts and answer are the history before
its last text, and the turns in the cache are just these.  An entry that `generate` used last
is not reused by a history call, and a call that throws in `Generate` leaves no entry. -/
theorem kv_reuse {tr out : List Obs} {pool pool' : Pool} (run : Run Step {} tr pool)
    (step : Step pool out pool') {engine : Gemma} {r : Request} {plan : Plan} {cache : KVCache}
    (started : .generate engine r plan cache ∈ out) :
    (∀ history, r.history = some history → plan.reuse = true →
      Continues engine r.sessionKey history.texts cache) ∧
    (∀ session g, pool.sessions.find? r.sessionKey = some session →
      session.kvCache.built.getLast? = some g → g.history = none →
      r.history.isSome → plan.reuse = false) ∧
    ∀ what, .threw what ∈ out → pool'.sessions.find? r.sessionKey = none := by
  obtain ⟨around, session, pool₁, out₁, ended, result, -, fails, gen, rfl⟩ :=
    started_generates step started
  obtain ⟨canonical, ready, generates⟩ := gen
  -- The entry a history call reuses has a transcript, so its last call was a history call.
  have reused (history : History) (asked : r.history = some history) (reuse : plan.reuse = true) :
      Continues engine r.sessionKey history.texts session.kvCache := by
    obtain ⟨-, found, -, -⟩ := ready.reused reuse
    obtain ⟨engine', loaded, context⟩ := contexts run found
    rw [ready.loaded] at loaded
    cases loaded
    obtain ⟨nonempty, whole, -⟩ := ready.continues canonical asked reuse
    refine ⟨context.own, ?_, by rw [context.turns nonempty, whole]⟩
    cases latest : session.kvCache.built.getLast? with
    | none => exact absurd (context.unused (List.getLast?_eq_none_iff.mp latest)) nonempty
    | some g =>
        have left := context.last g latest
        unfold Generation.transcript at left
        cases before : g.history with
        | none =>
            rw [before] at left
            exact absurd left nonempty
        | some texts =>
            rw [before] at left
            exact ⟨g, texts, rfl, before, left.symm.trans whole⟩
  refine ⟨reused, fun session' g found latest incremental asked => ?_, fun what threw => ?_⟩
  · cases reuse : plan.reuse with
    | false => rfl
    | true =>
        obtain ⟨history, asked⟩ := Option.isSome_iff_exists.mp asked
        obtain ⟨g', before, latest', history', -⟩ := (reused history asked reuse).last
        rw [(ready.reused reuse).2.1] at found
        cases found
        rw [latest] at latest'
        cases latest'
        rw [incremental] at history'
        cases history'
  · exact generates.failed what (fails what threw)

section secondTurn

/-- One token a byte, and 2 or 3 before a user turn; 0 ends the answer. -/
def letters : Gemma where
  encode text := some (text.map fun b => (b.toNat : Int))
  decode token := some [token.toNat.toUInt8]
  wrapAndTokenize pos text := (if pos = 0 then 2 else 3) :: text.map fun b => (b.toNat : Int)
  isEOS token := token = 0
  seqLen := 64

def loadLetters : Operation :=
  .initializePool [1] [] {} (fun _ => .readable) (.ok letters)

/-- The key `[1]` says `[7]` and is answered `[9]`. -/
def firstTurn : Operation :=
  .generateFromHistory [1] [([7], 0)] true (some 0) 8
    { pruneClock := 0, endClock := 0, stream := [2, 7, 9, 0] }

/-- Then it says `[8]`. -/
def secondTurn : Operation :=
  .generateFromHistory [1] [([7], 0), ([9], 0), ([8], 0)] true (some 0) 8
    { pruneClock := 0, endClock := 0, stream := [3, 8, 9, 0] }

def afterFirstTurn : Pool := (firstTurn.action (loadLetters.action {}).2.1).2.1

theorem afterFirstTurn_run : ∃ tr, Run Step {} tr afterFirstTurn :=
  ⟨_, .tail (.single (.ran loadLetters {} rfl)) (.ran firstTurn _ rfl)⟩

/-- The cache after the first turn. -/
def firstCache : KVCache where
  seqLen := 64
  built := [⟨[1], some [[7]], [[7]], 0, [2, 7], [2, 7, 9, 0], false⟩]

theorem secondTurn_starts : Obs.generate letters
    ⟨[1], [8], some [([7], 0), ([9], 0), ([8], 0)], true, some 0, 8⟩ ⟨true, 4, [[8]], [3, 8]⟩
    firstCache ∈ (secondTurn.action afterFirstTurn).1 ++ [.returned] := .head _

theorem kv_reuse_second_turn : Continues letters [1] [[7], [9], [8]] firstCache := by
  obtain ⟨tr, run⟩ := afterFirstTurn_run
  exact (kv_reuse run (.ran secondTurn afterFirstTurn rfl) secondTurn_starts).1 _ rfl rfl

end secondTurn

end AIService.Inference
