import AIService.Inference.Context

/-!
# Cached and replayed context

A cache holds every token that was streamed into it; a replay submits the turns again.  They
differ by the generated tokens that left no text: the ends of sequence and what could not be
decoded.  Without these the two agree (`cached_replay`).

The engine is assumed to stream the prompt before the generated tokens, and to wrap a text in
the same way at every position but zero.
-/

namespace AIService.Inference

/-- The tokens of a full replay, from turn `i` after `tokens`. -/
def replayTokens (engine : Gemma) (i : Nat) (tokens : List Token) :
    List Bytes → Option (List Token)
  | [] => some tokens
  | text :: rest =>
      (engine.turn tokens.length text (i % 2 == 0)).bind fun part =>
        replayTokens engine (i + 1) (tokens ++ part) rest

namespace Gemma

variable (engine : Gemma)

/-- The token left a text in the answer. -/
def Spoken (token : Token) : Prop :=
  engine.isEOS token = false ∧ (engine.decode token).isSome = true

instance : DecidablePred engine.Spoken := fun _ => inferInstanceAs (Decidable (_ ∧ _))

/-- Wrapping looks at a position only to see whether it is zero. -/
def WrapsByZero : Prop :=
  ∀ p q text, p ≠ 0 → q ≠ 0 → engine.wrapAndTokenize p text = engine.wrapAndTokenize q text

end Gemma

namespace Generation

variable (g : Generation)

/-- The tokens streamed after the prompt. -/
def generatedTokens : List Token := g.streamed.drop g.tokens.length

/-- The tokens a replay has in their place. -/
def kept (engine : Gemma) : List Token :=
  g.tokens ++ g.generatedTokens.filter engine.Spoken

/-- The engine streamed the prompt first, and the answer encodes to the tokens decoded
into it. -/
structure Faithful (engine : Gemma) : Prop where
  echoes : g.tokens <+: g.streamed
  encodes : engine.encode (g.answer engine) = some (g.generatedTokens.filter engine.Spoken)

end Generation

namespace KVCache

variable (cache : KVCache)

/-- The tokens accounted in the cache. -/
def tokens : List Token := cache.built.flatMap (·.streamed)

def kept (engine : Gemma) : List Token := cache.built.flatMap (·.kept engine)

def Faithful (engine : Gemma) : Prop := ∀ g ∈ cache.built, g.Faithful engine

variable (g : Generation) {engine : Gemma}

theorem tokens_record : (cache.record g).tokens = cache.tokens ++ g.streamed := by
  simp [tokens, record]

theorem kept_record : (cache.record g).kept engine = cache.kept engine ++ g.kept engine := by
  simp [kept, record]

theorem faithful_record :
    (cache.record g).Faithful engine ↔ cache.Faithful engine ∧ g.Faithful engine := by
  simp [Faithful, record, or_imp, forall_and]

end KVCache

/-! ## The kept tokens -/

section kept

variable {engine : Gemma}

theorem Generation.kept_sublist (engine : Gemma) {g : Generation} (echoes : g.tokens <+: g.streamed) :
    (g.kept engine).Sublist g.streamed := by
  obtain ⟨generated, streamed⟩ := echoes
  unfold Generation.kept Generation.generatedTokens
  rw [← streamed, List.drop_left]
  exact List.filter_sublist.append_left _

/-- Nothing is lost from a generation exactly when all its generated tokens were spoken. -/
theorem Generation.kept_eq_iff (engine : Gemma) {g : Generation} (echoes : g.tokens <+: g.streamed) :
    g.kept engine = g.streamed ↔ ∀ token ∈ g.generatedTokens, engine.Spoken token := by
  obtain ⟨generated, streamed⟩ := echoes
  unfold Generation.kept Generation.generatedTokens
  rw [← streamed, List.drop_left, List.append_cancel_left_eq, List.filter_eq_self]
  simp

theorem kept_eq_iff {gs : List Generation} (faithful : ∀ g ∈ gs, g.Faithful engine) :
    (gs.flatMap fun g => g.kept engine) = gs.flatMap (·.streamed) ↔
      ∀ g ∈ gs, ∀ token ∈ g.generatedTokens, engine.Spoken token := by
  have lost : ∀ gs : List Generation, (∀ g ∈ gs, g.Faithful engine) →
      (gs.flatMap fun g => g.kept engine).Sublist (gs.flatMap (·.streamed)) := by
    intro gs faithful
    induction gs with
    | nil => exact .slnil
    | cons g rest ih =>
        rw [List.flatMap_cons, List.flatMap_cons]
        exact (Generation.kept_sublist engine (faithful g (.head _)).echoes).append
          (ih fun g member => faithful g (.tail _ member))
  induction gs with
  | nil => simp
  | cons g rest ih =>
      have first := Generation.kept_sublist engine (faithful g (.head _)).echoes
      have later := lost rest fun g member => faithful g (.tail _ member)
      have here := Generation.kept_eq_iff engine (faithful g (.head _)).echoes
      have there := ih fun g member => faithful g (.tail _ member)
      rw [List.flatMap_cons, List.flatMap_cons, List.forall_mem_cons]
      refine Iff.trans ?_ (and_congr here there)
      constructor
      · intro same
        have lengths := congrArg List.length same
        rw [List.length_append, List.length_append] at lengths
        have firstLength := first.length_le
        have laterLength := later.length_le
        exact ⟨first.eq_of_length (by omega), later.eq_of_length (by omega)⟩
      · rintro ⟨firstSame, laterSame⟩
        rw [firstSame, laterSame]

end kept

/-! ## Replays -/

section replay

variable {engine : Gemma}

theorem replayTokens_append (i : Nat) (tokens : List Token) (texts later : List Bytes) :
    replayTokens engine i tokens (texts ++ later) =
      (replayTokens engine i tokens texts).bind fun tokens =>
        replayTokens engine (i + texts.length) tokens later := by
  induction texts generalizing i tokens with
  | nil => rfl
  | cons text rest ih =>
      rw [List.cons_append, replayTokens, replayTokens, Option.bind_assoc]
      congr 1
      funext part
      rw [ih, List.length_cons, Nat.add_assoc, Nat.add_comm 1]

/-- What `generateImpl` submits for a history it replays. -/
theorem appendHistory_replays {policy : CachePolicy} {around : Surroundings} {i : Nat}
    {tokens tokens' : List Token} {texts : List Bytes}
    (ran : appendHistory engine policy around 0 i tokens texts = .ok tokens') :
    replayTokens engine i tokens texts = some tokens' := by
  induction texts generalizing i tokens with
  | nil =>
      cases ran
      rfl
  | cons text rest ih =>
      obtain ⟨next, appended, ran⟩ := bind_eq_ok ran
      obtain ⟨part, encoded, rfl⟩ := append_eq appended
      rw [Nat.zero_add] at encoded
      rw [replayTokens, encoded, Option.bind_some]
      exact ih ran

/-- A plan that does not reuse an entry submits the replay. -/
theorem Pool.plan_replays {pool : Pool} {r : Request} {around : Surroundings} {plan : Plan}
    {history : History} (asked : r.history = some history)
    (ran : pool.plan engine r around = .ok plan) (replay : plan.reuse = false) :
    replayTokens engine 0 [] history.texts = some plan.tokens := by
  have fits := Pool.plan_fits ran
  obtain ⟨start, submitted⟩ := fits.replayed replay
  rw [asked] at submitted
  have tokens := fits.tokens
  rw [start, submitted] at tokens
  exact appendHistory_replays tokens

theorem turn_wraps (wraps : engine.WrapsByZero) {p q : Nat} (hp : p ≠ 0) (hq : q ≠ 0)
    (text : Bytes) : engine.turn p text true = engine.turn q text true := by
  unfold Gemma.turn
  rw [wraps p q text hp hq]

end replay

/-! ## The invariant -/

/-- The cache of an entry and the replay of its transcript. -/
structure Replays (engine : Gemma) (session : SessionData) : Prop where
  position : session.absPos = session.kvCache.tokens.length
  even : session.transcript.length % 2 = 0
  replay : session.transcript ≠ [] → engine.WrapsByZero → session.kvCache.Faithful engine →
    session.absPos ≠ 0 ∧ session.kvCache.kept engine ≠ [] ∧
      replayTokens engine 0 [] session.transcript = some (session.kvCache.kept engine)

theorem Replays.fresh (engine : Gemma) : Replays engine (.fresh engine) where
  position := rfl
  even := rfl
  replay some := absurd rfl some

theorem Request.check_odd {r : Request} {history : History} (checked : r.check = .ok ())
    (asked : r.history = some history) : history.length % 2 = 1 := by
  unfold Request.check at checked
  split at checked
  · cases checked
  · split at checked
    · cases checked
    · next fine =>
        rw [asked] at fine
        simp only [Option.any_some, Bool.or_eq_true, beq_iff_eq, not_or] at fine
        omega

section steps

variable {engine : Gemma} {r : Request} {plan : Plan} {around : Surroundings}
  {session : SessionData} {pool pool₁ : Pool}

/-- What the cache and the prompt say to the engine is what a replay says, without the
tokens that left no text. -/
theorem Ready.replays (ready : Ready engine r around plan session pool pool₁)
    (canonical : r.Canonical) (replays : Replays engine session) (wraps : engine.WrapsByZero)
    (faithful : session.kvCache.Faithful engine) {history : History}
    (asked : r.history = some history) :
    replayTokens engine 0 [] history.texts
      = some (session.kvCache.kept engine ++ plan.tokens) := by
  cases reuse : plan.reuse with
  | false =>
      obtain ⟨rfl, start, submitted⟩ := ready.replayed reuse
      rw [asked] at submitted
      have tokens := ready.tokens
      rw [start, submitted] at tokens
      exact appendHistory_replays tokens
  | true =>
      obtain ⟨used, same, whole⟩ := ready.continues canonical asked reuse
      obtain ⟨submitted, -, -, start⟩ := ready.reused reuse
      obtain ⟨position, nonempty, replay⟩ := replays.replay used wraps faithful
      have tokens := ready.tokens
      rw [submitted] at tokens
      have encoded := appendHistory_single tokens
      rw [start, turn_wraps wraps position
        (fun none => nonempty (List.length_eq_zero_iff.mp none))] at encoded
      rw [whole, submitted, replayTokens_append, replay, Option.bind_some, Nat.zero_add,
        replayTokens, replays.even]
      change (engine.turn _ r.prompt true).bind _ = _
      rw [encoded]
      rfl

theorem Replays.generated (order : Nat) (canonical : r.Canonical)
    (ready : Ready engine r around plan session pool pool₁) (replays : Replays engine session) :
    Replays engine (session.generated engine r plan around order) where
  position := by
    change plan.startPos + around.stream.length = _
    unfold SessionData.generated
    dsimp only
    rw [KVCache.tokens_record, List.length_append, ← replays.position]
    cases reuse : plan.reuse with
    | true => rw [(ready.reused reuse).2.2.2]; rfl
    | false => rw [(ready.replayed reuse).2.1, (ready.replayed reuse).1]; rfl
  even := by
    unfold SessionData.generated
    cases asked : r.history with
    | none => rfl
    | some history =>
        have odd := Request.check_odd ready.check asked
        have texts : history.texts.length = history.length := List.length_map _
        simp only [List.length_append, List.length_singleton, texts]
        omega
  replay := by
    intro nonempty wraps faithful
    unfold SessionData.generated at nonempty faithful ⊢
    dsimp only at nonempty faithful ⊢
    obtain ⟨earlier, this⟩ := (KVCache.faithful_record _ _).mp faithful
    rw [KVCache.kept_record]
    have echoed : plan.tokens.length ≤ around.stream.length := this.echoes.length_le
    have prompted := List.length_pos_of_ne_nil ready.nonempty
    refine ⟨by omega, ?_, ?_⟩
    · refine List.append_ne_nil_of_right_ne_nil _ (List.append_ne_nil_of_left_ne_nil ?_ _)
      exact ready.nonempty
    · cases asked : r.history with
      | none =>
          rw [asked] at nonempty
          exact absurd rfl nonempty
      | some history =>
          have odd := Request.check_odd ready.check asked
          have texts : history.texts.length = history.length := List.length_map _
          dsimp only
          rw [replayTokens_append, ready.replays canonical replays wraps earlier asked,
            Option.bind_some, replayTokens, Nat.zero_add, texts, odd]
          -- The answer is an assistant turn, encoded without a wrapper.
          have encoded : engine.turn (session.kvCache.kept engine ++ plan.tokens).length
              (engine.answer (around.stream.drop plan.tokens.length)) false
              = some ((around.stream.drop plan.tokens.length).filter engine.Spoken) := by
            unfold Gemma.turn
            have encodes := this.encodes
            unfold Generation.answer Generation.generatedTokens written at encodes
            dsimp only at encodes
            rw [encodes]
            rfl
          change (engine.turn _ _ false).bind _ = _
          rw [encoded, Option.bind_some, replayTokens, List.append_assoc]
          rfl

end steps

theorem entries_replay {tr : List Obs} {pool : Pool} (run : Run Step {} tr pool) {key : Bytes}
    {session : SessionData} (found : pool.sessions.find? key = some session) :
    ∃ engine, pool.gemma = some engine ∧ Replays engine session :=
  entries (P := fun engine _ session => Replays engine session) (fun engine _ => .fresh engine)
    (fun order canonical ready replays => replays.generated order canonical ready) run found

/-- A history call that reuses a cache continues, up to the generated tokens that left no
text, from the tokens a replay of its history submits; and exactly from these when every
generated token in the cache left a text. -/
theorem cached_replay {tr out : List Obs} {pool pool' : Pool} (run : Run Step {} tr pool)
    (step : Step pool out pool') {engine : Gemma} {r : Request} {plan : Plan} {cache : KVCache}
    {history : History} (started : .generate engine r plan cache ∈ out)
    (asked : r.history = some history) (reuse : plan.reuse = true)
    (wraps : engine.WrapsByZero) (faithful : cache.Faithful engine) :
    plan.startPos = cache.tokens.length ∧
    replayTokens engine 0 [] history.texts = some (cache.kept engine ++ plan.tokens) ∧
    (∀ pool₂ around plan₂, Pool.plan pool₂ engine r around = .ok plan₂ → plan₂.reuse = false →
      plan₂.tokens = cache.kept engine ++ plan.tokens) ∧
    (replayTokens engine 0 [] history.texts = some (cache.tokens ++ plan.tokens) ↔
      ∀ g ∈ cache.built, ∀ token ∈ g.generatedTokens, engine.Spoken token) := by
  obtain ⟨around, session, pool₁, -, -, -, -, -, ⟨canonical, ready, -⟩, rfl⟩ :=
    started_generates step started
  obtain ⟨-, found, -, start⟩ := ready.reused reuse
  obtain ⟨engine', loaded, replays⟩ := entries_replay run found
  rw [ready.loaded] at loaded
  cases loaded
  have replay := ready.replays canonical replays wraps faithful asked
  refine ⟨by rw [start, replays.position], replay, ?_, ?_⟩
  · intro pool₂ around plan₂ planned fresh
    have submits := Pool.plan_replays asked planned fresh
    rw [replay] at submits
    exact (Option.some.inj submits).symm
  · rw [replay, Option.some_inj, List.append_cancel_right_eq]
    exact kept_eq_iff faithful

theorem letters_wraps : letters.WrapsByZero := by
  intro p q text hp hq
  simp only [letters, if_neg hp, if_neg hq]

theorem firstCache_faithful : firstCache.Faithful letters := by
  intro g member
  cases List.mem_singleton.mp member
  exact ⟨⟨[9, 0], rfl⟩, by rfl⟩

theorem cached_replay_second_turn :
    replayTokens letters 0 [] [[7], [9], [8]] = some (firstCache.kept letters ++ [3, 8]) := by
  obtain ⟨tr, run⟩ := afterFirstTurn_run
  exact (cached_replay run (.ran secondTurn afterFirstTurn rfl) secondTurn_starts rfl rfl
    letters_wraps firstCache_faithful).2.1

/-- The token 0 that ended the first answer is in the cache and not in the replay. -/
theorem cached_replay_end_of_sequence : ∃ tr out pool pool' r plan cache history,
    Run Step {} tr pool ∧ Step pool out pool' ∧ .generate letters r plan cache ∈ out ∧
    r.history = some history ∧ plan.reuse = true ∧ letters.WrapsByZero ∧
    cache.Faithful letters ∧
    replayTokens letters 0 [] history.texts ≠ some (cache.tokens ++ plan.tokens) := by
  obtain ⟨tr, run⟩ := afterFirstTurn_run
  exact ⟨tr, _, _, _, _, _, _, _, run, .ran secondTurn afterFirstTurn rfl, secondTurn_starts, rfl,
    rfl, letters_wraps, firstCache_faithful, by decide⟩

end AIService.Inference
