import AIService.Inference.Pool
import AIService.Run

/-!
# What a generation does

`generateImpl_cases` says how a call of `generateImpl` may end: before `Generate`, with no
new entry but perhaps an unused one, or through `runGenerate` from a pool that the request
made ready (`Ready`).  `streamAll_answer` says what the answer of a complete stream is.
`entries` is the induction over the runs of a pool for a property of its entries.
-/

namespace AIService.Inference

/-! ## The tokens of a request -/

section appending

variable {engine : Gemma} {policy : CachePolicy} {around : Surroundings} {startPos : Nat}

theorem append_eq {turn : Nat} {tokens tokens' : List Token} {text : Bytes} {userTurn : Bool}
    (ran : append engine policy around startPos turn tokens text userTurn = .ok tokens') :
    ∃ part, engine.turn (startPos + tokens.length) text userTurn = some part ∧
      tokens' = tokens ++ part := by
  obtain ⟨_, -, ran⟩ := bind_eq_ok ran
  split at ran
  · cases ran
  · next part encoded =>
      refine ⟨part, encoded, ?_⟩
      obtain ⟨_, -, ran⟩ := bind_eq_ok ran
      split at ran
      · cases ran
      · cases ran
        rfl

/-- One text is submitted as a user turn. -/
theorem appendHistory_single {prompt : Bytes} {tokens : List Token}
    (ran : appendHistory engine policy around startPos 0 [] [prompt] = .ok tokens) :
    engine.turn startPos prompt true = some tokens := by
  obtain ⟨tokens', appended, ran⟩ := bind_eq_ok ran
  cases ran
  obtain ⟨part, encoded, rfl⟩ := append_eq appended
  exact encoded

end appending

theorem validateBudget_nonempty {start prompt generated capacity : Nat}
    (ran : validateBudget start prompt generated capacity = .ok ()) : 0 < prompt := by
  unfold validateBudget at ran
  split at ran
  · cases ran
  · next fits => exact Nat.pos_of_ne_zero fun none => fits (.inl none)

/-! ## The stream -/

/-- The texts the callback gets for the tokens after the prompt, joined. -/
def Gemma.answer (engine : Gemma) (tokens : List Token) : Bytes :=
  (tokens.filter fun token => !engine.isEOS token).flatMap fun token =>
    (engine.decode token).getD []

namespace Gemma

variable (engine : Gemma)

theorem answer_append (tokens tokens' : List Token) :
    engine.answer (tokens ++ tokens') = engine.answer tokens ++ engine.answer tokens' := by
  simp [answer]

end Gemma

/-- The answer of a generation. -/
def Generation.answer (g : Generation) (engine : Gemma) : Bytes :=
  engine.answer (g.streamed.drop g.tokens.length)

section streaming

variable {engine : Gemma} {promptSize : Nat} {listens : Bool} {around : Surroundings}

/-- The answer so far belongs to the tokens so far. -/
def Progress.Answers (engine : Gemma) (promptSize : Nat) (p : Progress) : Prop :=
  p.answer = engine.answer (p.streamed.drop promptSize)

theorem streamToken_answer {p p' : Progress} {token : Token}
    (ran : streamToken engine promptSize listens around p token = (p', none)) :
    p'.streamed = p.streamed ++ [token] ∧
      (p.Answers engine promptSize → p'.Answers engine promptSize) := by
  unfold streamToken at ran
  dsimp only at ran
  rw [List.length_append, List.length_singleton] at ran
  have after (past : promptSize ≤ p.streamed.length) :
      (p.streamed ++ [token]).drop promptSize = p.streamed.drop promptSize ++ [token] :=
    List.drop_append_of_le_length past
  split at ran
  · next quiet =>
      cases ran
      refine ⟨rfl, fun answers => ?_⟩
      unfold Progress.Answers at answers ⊢
      rcases Nat.lt_or_ge p.streamed.length promptSize with prompt | past
      · rw [answers, List.drop_eq_nil_of_le (Nat.le_of_lt prompt),
          List.drop_eq_nil_of_le (by simp; omega)]
      · have eos : engine.isEOS token = true := by
          rcases quiet with prompt | eos
          · omega
          · exact eos
        dsimp only
        rw [after past, Gemma.answer_append, answers]
        simp [Gemma.answer, eos]
  · next spoken =>
      rw [not_or, Bool.not_eq_true] at spoken
      obtain ⟨past, notEos⟩ := spoken
      have past : promptSize ≤ p.streamed.length := by omega
      split at ran
      · cases ran
      · split at ran
        · next unknown =>
            cases ran
            refine ⟨rfl, fun answers => ?_⟩
            unfold Progress.Answers at answers ⊢
            dsimp only
            rw [after past, Gemma.answer_append, answers]
            simp [Gemma.answer, notEos, unknown]
        · next text known =>
            have answers (holds : p.Answers engine promptSize) :
                p.answer ++ text = engine.answer ((p.streamed ++ [token]).drop promptSize) := by
              rw [after past, Gemma.answer_append, holds]
              simp [Gemma.answer, notEos, known]
            split at ran
            · obtain ⟨rfl, -⟩ := Prod.mk.inj ran
              exact ⟨rfl, answers⟩
            · cases ran
              exact ⟨rfl, answers⟩

/-- A stream that nothing interrupts is streamed whole, and the answer belongs to it. -/
theorem streamAll_answer {p p' : Progress} {tokens : List Token}
    (ran : streamAll engine promptSize listens around p tokens = (p', none))
    (answers : p.Answers engine promptSize) :
    p'.streamed = p.streamed ++ tokens ∧ p'.Answers engine promptSize := by
  induction tokens generalizing p with
  | nil =>
      obtain ⟨rfl, -⟩ := Prod.mk.inj ran
      exact ⟨by simp, answers⟩
  | cons token rest ih =>
      rw [streamAll] at ran
      split at ran
      · cases ran
      · split at ran
        · cases ran
        · next one =>
            obtain ⟨streamed, kept⟩ := streamToken_answer one
            obtain ⟨all, holds⟩ := ih ran (kept answers)
            exact ⟨by rw [all, streamed, List.append_assoc, List.singleton_append], holds⟩

end streaming

/-! ## Evictions -/

/-- Every entry of `m` is one of `n`. -/
def Fewer (m n : SortedMap Bytes SessionData) : Prop :=
  ∀ key session, m.find? key = some session → n.find? key = some session

namespace Fewer

variable {m n k : SortedMap Bytes SessionData}

theorem refl : Fewer m m := fun _ _ => id

theorem trans (first : Fewer m n) (second : Fewer n k) : Fewer m k :=
  fun _ _ found => second _ _ (first _ _ found)

theorem filter (p : Bytes → SessionData → Bool) : Fewer (m.filter p) m := by
  intro key session found
  rw [SortedMap.find?_filter] at found
  exact (Option.filter_eq_some_iff.mp found).1

theorem evict (maxSessions rounds : Nat) : Fewer (evict maxSessions rounds m) m := by
  induction rounds generalizing m with
  | zero => exact refl
  | succ rounds ih =>
      unfold Inference.evict
      split
      · split
        · next entry _ => exact ih.trans (filter _)
        · exact refl
      · exact refl

end Fewer

/-! ## The stages of `generateImpl` -/

/-- What a plan says of the entry it found and of the tokens it submits. -/
structure Plan.Fits (plan : Plan) (pool : Pool) (engine : Gemma) (r : Request)
    (around : Surroundings) : Prop where
  tokens : appendHistory engine pool.policy around plan.startPos 0 [] plan.submitted
    = .ok plan.tokens
  nonempty : plan.tokens ≠ []
  reused : plan.reuse = true → plan.submitted = [r.prompt] ∧
    ∃ session, pool.sessions.find? r.sessionKey = some session ∧
      session.reusable r.history = true ∧ plan.startPos = session.absPos
  replayed : plan.reuse = false → plan.startPos = 0 ∧
    plan.submitted = match r.history with
      | some history => history.texts
      | none => [r.prompt]

theorem Pool.plan_fits {pool : Pool} {engine : Gemma} {r : Request} {around : Surroundings}
    {plan : Plan} (ran : pool.plan engine r around = .ok plan) :
    plan.Fits pool engine r around := by
  unfold Pool.plan at ran
  dsimp only at ran
  obtain ⟨tokens, appended, ran⟩ := bind_eq_ok ran
  obtain ⟨_, budget, ran⟩ := bind_eq_ok ran
  have nonempty : tokens ≠ [] := List.ne_nil_of_length_pos (validateBudget_nonempty budget)
  cases ran
  cases found : (pool.sessions.find? r.sessionKey).filter (·.reusable r.history) with
  | none =>
      rw [found] at appended
      refine ⟨?_, nonempty, nofun, fun _ => ⟨rfl, ?_⟩⟩
      · simpa using appended
      · cases r.history <;> rfl
  | some session =>
      rw [found] at appended
      obtain ⟨present, reusable⟩ := Option.filter_eq_some_iff.mp found
      refine ⟨?_, nonempty, fun _ => ⟨?_, session, present, reusable, rfl⟩, nofun⟩
      · simpa using appended
      · cases r.history <;> rfl

theorem Pool.plan_reuse {pool : Pool} {engine : Gemma} {r : Request} {around : Surroundings}
    {plan : Plan} (ran : pool.plan engine r around = .ok plan) :
    plan.reuse = ((pool.sessions.find? r.sessionKey).filter (·.reusable r.history)).isSome := by
  unfold Pool.plan at ran
  dsimp only at ran
  obtain ⟨_, -, ran⟩ := bind_eq_ok ran
  obtain ⟨_, -, ran⟩ := bind_eq_ok ran
  cases ran
  rfl

/-- The entry `emplace` makes. -/
def SessionData.fresh (engine : Gemma) : SessionData := { kvCache := { seqLen := engine.seqLen } }

/-- `pool'` is `pool` when `Generate` is called in `session` as `plan` says. -/
structure Ready (engine : Gemma) (r : Request) (around : Surroundings) (plan : Plan)
    (session : SessionData) (pool pool' : Pool) : Prop where
  loaded : pool.gemma = some engine
  same : pool'.gemma = some engine
  policy : pool'.policy = pool.policy
  check : r.check = .ok ()
  tokens : appendHistory engine pool.policy around plan.startPos 0 [] plan.submitted
    = .ok plan.tokens
  nonempty : plan.tokens ≠ []
  found : pool'.sessions.find? r.sessionKey = some session
  others : ∀ key other, key ≠ r.sessionKey → pool'.sessions.find? key = some other →
    pool.sessions.find? key = some other
  reused : plan.reuse = true → plan.submitted = [r.prompt] ∧
    pool.sessions.find? r.sessionKey = some session ∧
    session.reusable r.history = true ∧ plan.startPos = session.absPos
  replayed : plan.reuse = false → session = .fresh engine ∧ plan.startPos = 0 ∧
    plan.submitted = match r.history with
      | some history => history.texts
      | none => [r.prompt]

/-- A call that ended before `Generate`: entries may be gone, and the call may leave an
entry nothing was generated in. -/
structure Ended (r : Request) (out : List Obs) (pool pool' : Pool) : Prop where
  silent : out = []
  same : pool'.gemma = pool.gemma
  fewer : ∀ key session, pool'.sessions.find? key = some session →
    pool.sessions.find? key = some session ∨
      ∃ engine, pool.gemma = some engine ∧ key = r.sessionKey ∧ session = .fresh engine

theorem Ended.of_fewer {r : Request} {pool pool' : Pool} (same : pool'.gemma = pool.gemma)
    (fewer : Fewer pool'.sessions pool.sessions) : Ended r [] pool pool' where
  silent := rfl
  same := same
  fewer key session found := .inl (fewer key session found)

section stages

variable {engine : Gemma} {r : Request} {around : Surroundings} {plan : Plan}
  {pool pool' : Pool} {out : List Obs} {result : Except String Unit}

theorem makeRoom_fewer (pool : Pool) (key : Bytes) :
    Fewer (pool.makeRoom key).sessions pool.sessions :=
  (Fewer.evict _ _).trans (Fewer.filter _)

/-- The pool in which a request generates, from the pool after the expiry. -/
inductive Obtained (engine : Gemma) (r : Request) (plan : Plan) (pruned : Pool) : Pool → Prop
  | reused : plan.reuse = true → Obtained engine r plan pruned pruned
  | made : plan.reuse = false →
    validateBudget 0 plan.tokens.length r.maxTokens.toNat engine.seqLen = .ok () →
    Obtained engine r plan pruned ((pruned.makeRoom r.sessionKey).put r.sessionKey (.fresh engine))

theorem obtainSession_outcome (ran : obtainSession engine r plan around pool = (out, pool', result)) :
    out = [] ∧ ((∃ what, result = .error what) ∧ plan.reuse = false ∧ pool' = pool.makeRoom r.sessionKey ∨
      result = .ok () ∧ Obtained engine r plan pool pool') := by
  unfold obtainSession at ran
  split at ran
  · next reuse =>
      cases ran
      exact ⟨rfl, .inr ⟨rfl, .reused reuse⟩⟩
  · next fresh =>
      have fresh : plan.reuse = false := by simpa using fresh
      rcases Action.bind_cases ran with ⟨e, failed, -⟩ | ⟨_, _, _, _, emptied, ran, rfl⟩
      · cases failed
      cases emptied
      rcases Action.bind_cases ran with ⟨e, failed, rfl⟩ | ⟨_, _, _, _, allocated, ran, rfl⟩
      · obtain ⟨rfl, rfl, -⟩ := Action.lift_cases failed
        exact ⟨rfl, .inl ⟨⟨e, rfl⟩, fresh, rfl⟩⟩
      obtain ⟨rfl, rfl, -⟩ := Action.lift_cases allocated
      rcases Action.bind_cases ran with ⟨e, failed, rfl⟩ | ⟨_, _, _, _, fits, ran, rfl⟩
      · obtain ⟨rfl, rfl, -⟩ := Action.lift_cases failed
        exact ⟨rfl, .inl ⟨⟨e, rfl⟩, fresh, rfl⟩⟩
      obtain ⟨rfl, rfl, budget⟩ := Action.lift_cases fits
      cases ran
      exact ⟨rfl, .inr ⟨rfl, .made fresh budget⟩⟩

/-- How a call of `generateImpl` ends. -/
inductive Outcome (r : Request) (around : Surroundings) (pool : Pool) :
    List Obs → Pool → Except String Unit → Prop
  | refused {what : String} : (∀ engine, pool.gemma = some engine → r.check ≠ .ok ()) →
    Outcome r around pool [] pool (.error what)
  | pruned {engine : Gemma} {what : String} : pool.gemma = some engine → r.check = .ok () →
    (pool.pruneExpiredLocked around.pruneClock).plan engine r around = .error what →
    Outcome r around pool [] (pool.pruneExpiredLocked around.pruneClock) (.error what)
  | emptied {engine : Gemma} {plan : Plan} {what : String} : pool.gemma = some engine →
    r.check = .ok () → (pool.pruneExpiredLocked around.pruneClock).plan engine r around = .ok plan →
    plan.reuse = false →
    Outcome r around pool []
      ((pool.pruneExpiredLocked around.pruneClock).makeRoom r.sessionKey) (.error what)
  | unused {engine : Gemma} {plan : Plan} {pool₁ : Pool} {what : String} : pool.gemma = some engine →
    r.check = .ok () → (pool.pruneExpiredLocked around.pruneClock).plan engine r around = .ok plan →
    Obtained engine r plan (pool.pruneExpiredLocked around.pruneClock) pool₁ →
    Outcome r around pool [] pool₁ (.error what)
  | ran {engine : Gemma} {plan : Plan} {pool₁ pool' : Pool} {out : List Obs}
      {result : Except String Unit} : pool.gemma = some engine →
    r.check = .ok () → (pool.pruneExpiredLocked around.pruneClock).plan engine r around = .ok plan →
    Obtained engine r plan (pool.pruneExpiredLocked around.pruneClock) pool₁ →
    runGenerate engine r plan around pool₁ = (out, pool', result) →
    Outcome r around pool out pool' result

theorem generateImpl_outcome (ran : generateImpl r around pool = (out, pool', result)) :
    Outcome r around pool out pool' result := by
  unfold generateImpl at ran
  rw [Action.current_bind_eq] at ran
  cases loaded : pool.gemma with
  | none =>
      rw [loaded] at ran
      cases ran
      exact .refused fun engine some => by rw [loaded] at some; cases some
  | some engine =>
      rw [loaded] at ran
      dsimp only at ran
      rcases Action.bind_cases ran with ⟨e, failed, rfl⟩ | ⟨_, _, _, _, passed, afterCheck, rfl⟩
      · obtain ⟨rfl, rfl, invalid⟩ := Action.lift_cases failed
        exact .refused fun _ _ valid => by rw [valid] at invalid; cases invalid
      obtain ⟨rfl, rfl, checked⟩ := Action.lift_cases passed
      rcases Action.bind_cases afterCheck with ⟨e, failed, -⟩ | ⟨_, _, _, _, pruned, afterPrune, rfl⟩
      · cases failed
      cases pruned
      rw [Action.current_bind_eq] at afterPrune
      rcases Action.bind_cases afterPrune with ⟨e, failed, rfl⟩ | ⟨_, _, plan, _, chosen, afterPlan, rfl⟩
      · obtain ⟨rfl, rfl, unplanned⟩ := Action.lift_cases failed
        exact .pruned loaded checked unplanned
      obtain ⟨rfl, rfl, planned⟩ := Action.lift_cases chosen
      rcases Action.bind_cases afterPlan with
        ⟨e, failed, rfl⟩ | ⟨_, pool₁, _, _, obtained, afterObtain, rfl⟩
      · obtain ⟨rfl, ⟨-, fresh, rfl⟩ | ⟨ok, -⟩⟩ := obtainSession_outcome failed
        · exact .emptied loaded checked planned fresh
        · cases ok
      obtain ⟨rfl, ⟨⟨_, err⟩, -⟩ | ⟨-, obtained⟩⟩ := obtainSession_outcome obtained
      · cases err
      rcases Action.bind_cases afterObtain with ⟨e, failed, rfl⟩ | ⟨_, _, _, _, copied, afterCopy, rfl⟩
      · obtain ⟨rfl, rfl, -⟩ := Action.lift_cases failed
        exact .unused loaded checked planned obtained
      · obtain ⟨rfl, rfl, -⟩ := Action.lift_cases copied
        exact .ran loaded checked planned obtained afterCopy

/-- The request generates in the entry its plan found, or in a new one. -/
theorem Obtained.ready {pool₁ : Pool} (loaded : pool.gemma = some engine) (checked : r.check = .ok ())
    (planned : (pool.pruneExpiredLocked around.pruneClock).plan engine r around = .ok plan)
    (obtained : Obtained engine r plan (pool.pruneExpiredLocked around.pruneClock) pool₁) :
    ∃ session, Ready engine r around plan session pool pool₁ := by
  have fits := Pool.plan_fits planned
  have kept : Fewer (pool.pruneExpiredLocked around.pruneClock).sessions pool.sessions :=
    Fewer.filter _
  cases obtained with
  | reused reuse =>
      obtain ⟨submitted, session, found, reusable, start⟩ := fits.reused reuse
      exact ⟨session, {
        loaded := loaded, same := loaded, policy := rfl, check := checked
        tokens := fits.tokens, nonempty := fits.nonempty, found := found
        others := fun key other _ here => kept key other here
        reused := fun _ => ⟨submitted, kept _ _ found, reusable, start⟩
        replayed := fun fresh => by rw [reuse] at fresh; cases fresh }⟩
  | made fresh budget =>
      refine ⟨.fresh engine, {
        loaded := loaded, same := loaded, policy := rfl, check := checked
        tokens := fits.tokens, nonempty := fits.nonempty
        found := SortedMap.find?_insert_self _ _ _
        others := ?_
        reused := fun reuse => by rw [reuse] at fresh; cases fresh
        replayed := fun fresh => ⟨rfl, fits.replayed fresh⟩ }⟩
      intro key other ne here
      unfold Pool.put at here
      rw [SortedMap.find?_insert_of_ne _ (Ne.symm ne)] at here
      exact kept _ _ (makeRoom_fewer _ _ _ _ here)

/-- How a call may end. -/
theorem generateImpl_cases (ran : generateImpl r around pool = (out, pool', result)) :
    ((∃ what, result = .error what) ∧ Ended r out pool pool') ∨
    ∃ engine plan session pool₁, Ready engine r around plan session pool pool₁ ∧
      runGenerate engine r plan around pool₁ = (out, pool', result) := by
  have kept : Fewer (pool.pruneExpiredLocked around.pruneClock).sessions pool.sessions :=
    Fewer.filter _
  cases generateImpl_outcome ran with
  | refused => exact .inl ⟨⟨_, rfl⟩, .of_fewer rfl .refl⟩
  | pruned => exact .inl ⟨⟨_, rfl⟩, .of_fewer rfl kept⟩
  | emptied => exact .inl ⟨⟨_, rfl⟩, .of_fewer rfl ((makeRoom_fewer _ _).trans kept)⟩
  | @unused engine plan _ _ loaded checked planned obtained =>
      obtain ⟨session, ready⟩ := obtained.ready loaded checked planned
      refine .inl ⟨⟨_, rfl⟩, rfl, by rw [ready.same, loaded], fun key other here => ?_⟩
      by_cases own : key = r.sessionKey
      · subst own
        rw [ready.found] at here
        cases here
        cases reuse : plan.reuse with
        | true => exact .inl (ready.reused reuse).2.1
        | false => exact .inr ⟨engine, loaded, rfl, (ready.replayed reuse).1⟩
      · exact .inl (ready.others key other own here)
  | @ran engine plan pool₁ _ _ _ loaded checked planned obtained generated =>
      obtain ⟨session, ready⟩ := obtained.ready loaded checked planned
      exact .inr ⟨engine, plan, session, pool₁, ready, generated⟩

/-- The record a call leaves in its cache. -/
def written (r : Request) (plan : Plan) (streamed : List Token) (threw : Bool) : Generation where
  sessionKey := r.sessionKey
  history := r.history.map (·.texts)
  submitted := plan.submitted
  startPos := plan.startPos
  tokens := plan.tokens
  streamed := streamed
  threw := threw

/-- `session` after a generation that did not throw. -/
def SessionData.generated (session : SessionData) (engine : Gemma) (r : Request) (plan : Plan)
    (around : Surroundings) (order : Nat) : SessionData where
  kvCache := session.kvCache.record (written r plan around.stream false)
  absPos := plan.startPos + around.stream.length
  transcript := match r.history with
    | some history => history.texts ++ [engine.answer (around.stream.drop plan.tokens.length)]
    | none => []
  lastUsed := around.endClock
  accessOrder := order

/-- How a generation in `session` may end: it throws and loses its entry, or it leaves its
entry with what it streamed. -/
structure Generated (engine : Gemma) (r : Request) (plan : Plan) (around : Surroundings)
    (session : SessionData) (pool pool' : Pool) (out : List Obs) (result : Except String Unit) :
    Prop where
  shows : ∃ shown : List Bytes, out = .generate engine r plan session.kvCache :: shown.map .onToken
  same : pool'.gemma = pool.gemma
  policy : pool'.policy = pool.policy
  others : ∀ key, key ≠ r.sessionKey → pool'.sessions.find? key = pool.sessions.find? key
  failed : ∀ what, result = .error what → pool'.sessions.find? r.sessionKey = none
  succeeded : result = .ok () → pool'.sessions.find? r.sessionKey
    = some (session.generated engine r plan around (pool.accessOrder + 1))

theorem runGenerate_generated {session : SessionData}
    (found : pool.sessions.find? r.sessionKey = some session)
    (ran : runGenerate engine r plan around pool = (out, pool', result)) :
    Generated engine r plan around session pool pool' out result := by
  unfold runGenerate at ran
  rw [found] at ran
  dsimp only at ran
  rcases streamed : streamAll engine plan.tokens.length r.listens around {} around.stream
    with ⟨p, thrown⟩
  rw [streamed] at ran
  cases thrown with
  | some what =>
      cases ran
      refine ⟨⟨p.shown, rfl⟩, rfl, rfl, fun key ne => ?_, fun _ _ => ?_, nofun⟩
      · unfold Pool.erase Pool.put
        rw [SortedMap.find?_erase, if_neg (Ne.symm ne),
          SortedMap.find?_insert_of_ne _ (Ne.symm ne)]
      · unfold Pool.erase
        rw [SortedMap.find?_erase, if_pos rfl]
  | none =>
      cases ran
      obtain ⟨whole, answers⟩ := streamAll_answer streamed (by simp [Progress.Answers, Gemma.answer])
      rw [List.nil_append] at whole
      refine ⟨⟨p.shown, rfl⟩, rfl, rfl, fun key ne => ?_, nofun, fun _ => ?_⟩
      · unfold Pool.put
        dsimp only
        rw [SortedMap.find?_insert_of_ne _ (Ne.symm ne),
          SortedMap.find?_insert_of_ne _ (Ne.symm ne)]
      · have answer : p.answer = engine.answer (around.stream.drop plan.tokens.length) :=
          whole ▸ answers
        unfold Pool.put
        dsimp only
        rw [SortedMap.find?_insert_self]
        obtain ⟨streamed', answer', shown⟩ := p
        cases whole
        cases answer
        rfl

/-- The generation a call shows is its own. -/
theorem Generated.started {session : SessionData}
    (generated : Generated engine r plan around session pool pool' out result)
    {engine' : Gemma} {r' : Request} {plan' : Plan} {cache : KVCache}
    (started : .generate engine' r' plan' cache ∈ out) :
    engine' = engine ∧ r' = r ∧ plan' = plan ∧ cache = session.kvCache := by
  obtain ⟨shown, rfl⟩ := generated.shows
  rcases List.mem_cons.mp started with first | shows
  · cases first
    exact ⟨rfl, rfl, rfl, rfl⟩
  · obtain ⟨_, -, eq⟩ := List.mem_map.mp shows
    cases eq

/-- A successful generation takes the next number. -/
theorem runGenerate_accessOrder {session : SessionData}
    (found : pool.sessions.find? r.sessionKey = some session)
    (ran : runGenerate engine r plan around pool = (out, pool', result)) :
    pool'.accessOrder = match result with
      | .ok () => pool.accessOrder + 1
      | .error _ => pool.accessOrder := by
  unfold runGenerate at ran
  rw [found] at ran
  dsimp only at ran
  rcases streamed : streamAll engine plan.tokens.length r.listens around {} around.stream
    with ⟨p, thrown⟩
  rw [streamed] at ran
  cases thrown with
  | some what =>
      cases ran
      rfl
  | none =>
      cases ran
      rfl

end stages

/-! ## Steps and runs -/

/-- The prompt of a history call is its last text. -/
def Request.Canonical (r : Request) : Prop :=
  ∀ history, r.history = some history → history.texts = history.texts.dropLast ++ [r.prompt]

/-- A step without a generation. -/
structure Quiet (pool pool' : Pool) (out : List Obs) : Prop where
  silent : ∀ engine r plan cache, Obs.generate engine r plan cache ∉ out
  entries : ∀ key session, pool'.sessions.find? key = some session →
    (pool.sessions.find? key = some session ∧
      ∀ engine, pool.gemma = some engine → pool'.gemma = some engine) ∨
    ∃ engine, pool'.gemma = some engine ∧ session = .fresh engine

/-- A step with a generation. -/
structure Generates (engine : Gemma) (r : Request) (plan : Plan) (around : Surroundings)
    (session : SessionData) (pool pool₁ pool' : Pool) (out : List Obs)
    (result : Except String Unit) : Prop where
  canonical : r.Canonical
  ready : Ready engine r around plan session pool pool₁
  generated : Generated engine r plan around session pool₁ pool' out result

theorem Ended.quiet {r : Request} {pool pool' : Pool} {out : List Obs}
    (ended : Ended r out pool pool') : Quiet pool pool' out where
  silent engine r plan cache := by
    rw [ended.silent]
    exact List.not_mem_nil
  entries key session found := by
    rcases ended.fewer key session found with old | ⟨engine, loaded, -, fresh⟩
    · exact .inl ⟨old, fun engine loaded => by rw [ended.same, loaded]⟩
    · exact .inr ⟨engine, by rw [ended.same, loaded], fresh⟩

theorem Quiet.of_fewer {pool pool' : Pool} (same : pool.gemma = none ∨ pool'.gemma = pool.gemma)
    (fewer : Fewer pool'.sessions pool.sessions) : Quiet pool pool' [] where
  silent _ _ _ _ := List.not_mem_nil
  entries key session found := by
    refine .inl ⟨fewer key session found, fun engine loaded => ?_⟩
    rcases same with unloaded | same
    · rw [unloaded] at loaded
      cases loaded
    · rw [same, loaded]

section steps

variable {pool pool' : Pool} {out : List Obs} {result : Except String Unit}

theorem generateImpl_step {r : Request} {around : Surroundings}
    (canonical : r.check = .ok () → r.Canonical)
    (ran : generateImpl r around pool = (out, pool', result)) :
    Quiet pool pool' out ∨ ∃ engine r plan around session pool₁,
      Generates engine r plan around session pool pool₁ pool' out result := by
  rcases generateImpl_cases ran with ⟨-, ended⟩ | ⟨engine, plan, session, pool₁, ready, ran⟩
  · exact .inl ended.quiet
  · exact .inr ⟨engine, r, plan, around, session, pool₁, canonical ready.check, ready,
      runGenerate_generated ready.found ran⟩

/-- `initialize` changes nothing, or it loads a model with a policy that passed the check. -/
theorem initializePool_outcome {weightsPath tokenizerPath : Bytes} {policy : CachePolicy}
    {files : Bytes → FileState} {loads : Except String Gemma}
    (ran : initializePool weightsPath tokenizerPath policy files loads pool
      = (out, pool', result)) :
    out = [] ∧ (pool' = pool ∨ pool.gemma = none ∧ policy.check = .ok () ∧
      ∃ model, pool' = { pool with gemma := some model, policy := policy }) := by
  unfold initializePool at ran
  rw [Action.current_bind_eq] at ran
  cases loaded : pool.gemma with
  | some engine =>
      rw [loaded] at ran
      cases ran
      exact ⟨rfl, .inl rfl⟩
  | none =>
      rw [loaded] at ran
      dsimp only at ran
      rcases Action.bind_cases ran with ⟨e, failed, -⟩ | ⟨_, _, _, _, passed, afterCheck, rfl⟩
      · obtain ⟨rfl, rfl, -⟩ := Action.lift_cases failed
        exact ⟨rfl, .inl rfl⟩
      obtain ⟨rfl, rfl, checked⟩ := Action.lift_cases passed
      rcases Action.bind_cases afterCheck with ⟨e, failed, -⟩ | ⟨_, _, _, _, weights, afterWeights, rfl⟩
      · obtain ⟨rfl, rfl, -⟩ := Action.lift_cases failed
        exact ⟨rfl, .inl rfl⟩
      obtain ⟨rfl, rfl, -⟩ := Action.lift_cases weights
      have finish {out : List Obs} (ran : (do
          let model ← Action.lift loads
          Action.update fun pool => { pool with gemma := some model, policy := policy } :
            Action Pool Obs String Unit) pool = (out, pool', result)) :
          out = [] ∧ (pool' = pool ∨ (none : Option Gemma) = none ∧ policy.check = .ok () ∧
            ∃ model, pool' = { pool with gemma := some model, policy := policy }) := by
        rcases Action.bind_cases ran with ⟨e, failed, -⟩ | ⟨_, _, model, _, built, afterBuilt, rfl⟩
        · obtain ⟨rfl, rfl, -⟩ := Action.lift_cases failed
          exact ⟨rfl, .inl rfl⟩
        · obtain ⟨rfl, rfl, -⟩ := Action.lift_cases built
          cases afterBuilt
          exact ⟨rfl, .inr ⟨rfl, checked, model, rfl⟩⟩
      split at afterWeights
      · rcases Action.bind_cases afterWeights
          with ⟨e, failed, -⟩ | ⟨_, _, _, _, tokenizer, afterTokenizer, rfl⟩
        · obtain ⟨rfl, rfl, -⟩ := Action.lift_cases failed
          exact ⟨rfl, .inl rfl⟩
        · obtain ⟨rfl, rfl, -⟩ := Action.lift_cases tokenizer
          exact finish afterTokenizer
      · exact finish afterWeights

theorem Operation.action_cases {op : Operation} (ran : op.action pool = (out, pool', result)) :
    Quiet pool pool' out ∨ ∃ engine r plan around session pool₁,
      Generates engine r plan around session pool pool₁ pool' out result := by
  cases op with
  | generate => exact generateImpl_step (fun _ history same => by cases same) ran
  | generateFromHistory sessionKey history listens temperature maxTokens around =>
      refine generateImpl_step (fun checked => ?_) ran
      intro history' same
      cases same
      have nonempty : history ≠ [] := by
        rintro rfl
        simp only [Request.check, Option.any_some, List.isEmpty_nil, Bool.true_or, ite_true] at checked
        split at checked <;> cases checked
      have split : history.texts = history.texts.dropLast ++ [(history.getLast nonempty).1] := by
        have some : history.map Prod.fst ≠ [] := by simpa using nonempty
        unfold History.texts
        rw [← List.getLast_map some, List.dropLast_append_getLast]
      rw [List.getLast?_eq_some_getLast nonempty]
      exact split
  | clearSession sessionKey =>
      cases ran
      exact .inl (.of_fewer (.inr rfl) (Fewer.filter _))
  | shutdown =>
      cases ran
      exact .inl ⟨fun _ _ _ _ => List.not_mem_nil, nofun⟩
  | initializePool =>
      obtain ⟨rfl, rfl | ⟨unloaded, -, model, rfl⟩⟩ := initializePool_outcome ran
      · exact .inl (.of_fewer (.inr rfl) .refl)
      · exact .inl (.of_fewer (.inl unloaded) .refl)

end steps

theorem step_cases {pool pool' : Pool} {out : List Obs} (step : Step pool out pool') :
    ∃ out₁ ended result, out = out₁ ++ [ended] ∧ (∀ engine r plan cache,
        ended ≠ .generate engine r plan cache) ∧
      (∀ what, ended = .threw what → result = .error what) ∧
      (Quiet pool pool' out₁ ∨ ∃ engine r plan around session pool₁,
        Generates engine r plan around session pool pool₁ pool' out₁ result) := by
  cases step with
  | returns op ran => exact ⟨_, _, _, rfl, nofun, nofun, op.action_cases ran⟩
  | throws op ran =>
      refine ⟨_, _, _, rfl, nofun, fun what same => ?_, op.action_cases ran⟩
      cases same
      rfl

/-- A generation that is seen to start belongs to the step's request. -/
theorem started_generates {pool pool' : Pool} {out : List Obs} {engine : Gemma} {r : Request}
    {plan : Plan} {cache : KVCache} (step : Step pool out pool')
    (started : .generate engine r plan cache ∈ out) :
    ∃ around session pool₁ out₁ ended result, out = out₁ ++ [ended] ∧
      (∀ what, .threw what ∈ out → result = .error what) ∧
      Generates engine r plan around session pool pool₁ pool' out₁ result ∧
      cache = session.kvCache := by
  obtain ⟨out₁, ended, result, rfl, notStart, fails,
    quiet | ⟨engine', r', plan', around, session, pool₁, gen⟩⟩ := step_cases step
  · rcases List.mem_append.mp started with early | late
    · exact absurd early (quiet.silent _ _ _ _)
    · exact absurd (List.mem_singleton.mp late).symm (notStart _ _ _ _)
  have same : engine = engine' ∧ r = r' ∧ plan = plan' ∧ cache = session.kvCache := by
    rcases List.mem_append.mp started with early | late
    · exact gen.generated.started early
    · exact absurd (List.mem_singleton.mp late).symm (notStart _ _ _ _)
  obtain ⟨rfl, rfl, rfl, rfl⟩ := same
  refine ⟨around, session, pool₁, _, ended, result, rfl, fun what threw => fails what ?_, gen, rfl⟩
  obtain ⟨shown, rfl⟩ := gen.generated.shows
  rcases List.mem_append.mp threw with early | late
  · rcases List.mem_cons.mp early with first | shows
    · cases first
    · obtain ⟨_, -, eq⟩ := List.mem_map.mp shows
      cases eq
  · exact (List.mem_singleton.mp late).symm

/-- An operation that returns is a step. -/
theorem Step.ran (op : Operation) (pool : Pool) (fine : (op.action pool).2.2 = .ok ()) :
    Step pool ((op.action pool).1 ++ [.returned]) (op.action pool).2.1 :=
  .returns op (by rw [← fine])

/-- A property of entries that a fresh one has, and that a generation keeps, holds of the
entries of every run. -/
theorem entries {P : Gemma → Bytes → SessionData → Prop}
    (fresh : ∀ engine key, P engine key (.fresh engine))
    (generated : ∀ {engine r plan around session pool pool₁} (order : Nat), r.Canonical →
      Ready engine r around plan session pool pool₁ → P engine r.sessionKey session →
      P engine r.sessionKey (session.generated engine r plan around order))
    {tr : List Obs} {pool : Pool} (run : Run Step {} tr pool) {key : Bytes} {session : SessionData}
    (found : pool.sessions.find? key = some session) :
    ∃ engine, pool.gemma = some engine ∧ P engine key session := by
  refine run.invariant (I := fun pool _ => ∀ key session,
    pool.sessions.find? key = some session → ∃ engine, pool.gemma = some engine ∧
      P engine key session) (fun key session none => by cases none) ?_ key session found
  intro pool tr out pool' held step key session found
  obtain ⟨out₁, ended, result, -, -, -, quiet | ⟨engine, r, plan, around, used, pool₁, gen⟩⟩ :=
    step_cases step
  · rcases quiet.entries key session found with ⟨old, kept⟩ | ⟨engine, loaded, rfl⟩
    · obtain ⟨engine, loaded, holds⟩ := held key session old
      exact ⟨engine, kept engine loaded, holds⟩
    · exact ⟨engine, loaded, fresh engine key⟩
  · obtain ⟨canonical, ready, generates⟩ := gen
    refine ⟨engine, by rw [generates.same, ready.same], ?_⟩
    by_cases own : key = r.sessionKey
    · subst own
      cases result with
      | error what =>
          rw [generates.failed what rfl] at found
          cases found
      | ok =>
          rw [generates.succeeded rfl] at found
          cases found
          refine generated _ canonical ready ?_
          cases reuse : plan.reuse with
          | true =>
              obtain ⟨engine', loaded, holds⟩ := held _ _ (ready.reused reuse).2.1
              rw [ready.loaded] at loaded
              cases loaded
              exact holds
          | false =>
              rw [(ready.replayed reuse).1]
              exact fresh engine _
    · rw [generates.others key own] at found
      obtain ⟨engine', loaded, holds⟩ := held key session (ready.others key session own found)
      rw [ready.loaded] at loaded
      cases loaded
      exact holds

end AIService.Inference
