import AIService.Inference.Calls
import AIService.Inference.Context

/-!
# The token budget

`Pool.subtractions` lists the `size_t` subtractions of a request, each with its two operands, as
`Pool.counted` makes them; that code plans as `Pool.plan` does (`Pool.counts_counted`).  What
`validateBudget` lets pass fits the cache it was asked about (`validateBudget_fits`), and so the
position of a cached session never passes the end of its cache (`Budgeted`).
-/

namespace AIService.Inference

/-! ## The subtractions -/

/-- Code that shows the operands of its `size_t` subtractions. -/
abbrev Counted := Action Unit (Nat × Nat) String

def subtract (a b : Nat) : Counted Nat := do
  Action.emit (a, b)
  pure (sizeSub a b)

/-- `validateBudget`; the operands of `||` are evaluated in turn. -/
def countedBudget (start prompt generated capacity : Nat) : Counted Unit := do
  let exceeded : Counted Unit :=
    Action.fail "Gemma context token budget exceeded; shorten history or generation"
  if prompt = 0 ∨ capacity < start then exceeded
  else
    let room ← subtract capacity start
    if room < prompt then exceeded
    else
      let room ← subtract capacity start
      let left ← subtract room prompt
      if left < generated then exceeded else pure ()

section counting

variable (engine : Gemma) (policy : CachePolicy) (around : Surroundings) (startPos : Nat)

/-- `append`. -/
def countedAppend (turn : Nat) (tokens : List Token) (text : Bytes) (userTurn : Bool) :
    Counted (List Token) := do
  Action.lift (around.raise (.encode turn))
  match engine.turn (startPos + tokens.length) text userTurn with
  | none => Action.fail "Gemma tokenizer could not encode input"
  | some part =>
      Action.lift (if userTurn then around.raise (.wrap turn) else pure ())
      let room ← subtract policy.sequenceTokens.toNat tokens.length
      if room < part.length then Action.fail "Gemma context token budget exceeded; shorten history"
      else pure (tokens ++ part)

def countedHistory (i : Nat) (tokens : List Token) : List Bytes → Counted (List Token)
  | [] => pure tokens
  | text :: rest => do
      let tokens ← countedAppend engine policy around startPos i tokens text (i % 2 == 0)
      countedHistory (i + 1) tokens rest

end counting

/-- `generateImpl` between the expiry and `Generate`, without the changes of `sessions_`. -/
def Pool.counted (pool : Pool) (engine : Gemma) (r : Request) (around : Surroundings) :
    Counted Plan := do
  let found := (pool.sessions.find? r.sessionKey).filter (·.reusable r.history)
  let startPos := match found with
    | some session => session.absPos
    | none => 0
  let submitted := match r.history, found with
    | some history, none => history.texts
    | _, _ => [r.prompt]
  let tokens ← countedHistory engine pool.policy around startPos 0 [] submitted
  let capacity := match found with
    | some session => session.kvCache.seqLen
    | none => pool.policy.sequenceTokens.toNat
  countedBudget startPos tokens.length r.maxTokens.toNat capacity
  if found.isSome then pure ()
  else
    Action.lift (around.raise .allocate)
    countedBudget 0 tokens.length r.maxTokens.toNat engine.seqLen
  return { reuse := found.isSome, startPos := startPos, submitted := submitted, tokens := tokens }

/-- The subtractions of a request, from the pool after the expiry. -/
def Pool.subtractions (pool : Pool) (engine : Gemma) (r : Request) (around : Surroundings) :
    List (Nat × Nat) :=
  (pool.counted engine r around ()).1

/-- The second operand is at most the first. -/
def Covered (subtractions : List (Nat × Nat)) : Prop :=
  ∀ operands ∈ subtractions, operands.2 ≤ operands.1

theorem Covered.append {first second : List (Nat × Nat)} (one : Covered first)
    (two : Covered second) : Covered (first ++ second) := by
  intro operands member
  rcases List.mem_append.mp member with early | late
  · exact one operands early
  · exact two operands late

/-- Counted code computes `r`, and its subtractions do not wrap. -/
structure Counts {α : Type} (m : Counted α) (r : Except String α) : Prop where
  result : (m ()).2.2 = r
  covered : Covered (m ()).1

namespace Counts

variable {α β : Type}

protected theorem pure (a : α) : Counts (pure a) (.ok a) := ⟨rfl, nofun⟩

theorem lift (r : Except String α) : Counts (Action.lift r) r := ⟨rfl, nofun⟩

theorem fail (what : String) : Counts (Action.fail what : Counted α) (.error what) := ⟨rfl, nofun⟩

/-- What follows may use what the first part computed. -/
protected theorem bind {m : Counted α} {r : Except String α} {f : α → Counted β} {g : α → Except String β}
    (first : Counts m r) (second : ∀ a, r = .ok a → Counts (f a) (g a)) : Counts (m >>= f) (r >>= g) := by
  obtain ⟨result, covered⟩ := first
  cases ran : m () with
  | mk out rest =>
      obtain ⟨⟨⟩, r'⟩ := rest
      rw [ran] at result covered
      cases result
      cases r' with
      | error e =>
          constructor
          · rw [Action.bind_error ran]
            rfl
          · rw [Action.bind_error ran]
            exact covered
      | ok a =>
          obtain ⟨result', covered'⟩ := second a rfl
          constructor
          · rw [Action.bind_eq ran]
            exact result'
          · rw [Action.bind_eq ran]
            exact covered.append covered'

theorem subtract {a b : Nat} {f : Nat → Counted α} {r : Except String α} (covered : b ≤ a)
    (rest : Counts (f (sizeSub a b)) r) : Counts (subtract a b >>= f) r :=
  ⟨rest.result, List.forall_mem_cons.mpr ⟨covered, rest.covered⟩⟩

end Counts

theorem validateBudget_eq (start prompt generated capacity : Nat) :
    validateBudget start prompt generated capacity =
      let exceeded := .error "Gemma context token budget exceeded; shorten history or generation"
      if prompt = 0 ∨ capacity < start then exceeded
      else if sizeSub capacity start < prompt then exceeded
      else if sizeSub (sizeSub capacity start) prompt < generated then exceeded
      else .ok () := by
  unfold validateBudget
  grind

theorem counts_countedBudget (start prompt generated capacity : Nat) :
    Counts (countedBudget start prompt generated capacity)
      (validateBudget start prompt generated capacity) := by
  rw [validateBudget_eq, countedBudget]
  dsimp only
  split
  · exact .fail _
  · next early =>
      have starts : start ≤ capacity := Nat.le_of_not_lt (not_or.mp early).2
      apply Counts.subtract starts
      split
      · exact .fail _
      · next room =>
          refine .subtract starts (.subtract (Nat.le_of_not_lt room) ?_)
          split
          · exact .fail _
          · exact .pure ()

section appending

variable {engine : Gemma} {policy : CachePolicy} {around : Surroundings} {startPos : Nat}

/-- A part that is appended has room in the sequence. -/
theorem append_length {turn : Nat} {tokens tokens' : List Token} {text : Bytes} {userTurn : Bool}
    (covered : tokens.length ≤ policy.sequenceTokens.toNat)
    (ran : append engine policy around startPos turn tokens text userTurn = .ok tokens') :
    tokens'.length ≤ policy.sequenceTokens.toNat := by
  obtain ⟨_, -, ran⟩ := bind_eq_ok ran
  split at ran
  · cases ran
  · obtain ⟨_, -, ran⟩ := bind_eq_ok ran
    rw [sizeSub_eq covered] at ran
    split at ran
    · cases ran
    · next room =>
        cases ran
        rw [List.length_append]
        omega

theorem counts_countedAppend {turn : Nat} {tokens : List Token} {text : Bytes} {userTurn : Bool}
    (covered : tokens.length ≤ policy.sequenceTokens.toNat) :
    Counts (countedAppend engine policy around startPos turn tokens text userTurn)
      (append engine policy around startPos turn tokens text userTurn) := by
  refine (Counts.lift _).bind fun _ _ => ?_
  cases engine.turn (startPos + tokens.length) text userTurn with
  | none => exact .fail _
  | some part =>
      refine (Counts.lift _).bind fun _ _ => .subtract covered ?_
      split
      · exact .fail _
      · exact .pure _

theorem counts_countedHistory {i : Nat} {tokens : List Token} {texts : List Bytes}
    (covered : tokens.length ≤ policy.sequenceTokens.toNat) :
    Counts (countedHistory engine policy around startPos i tokens texts)
      (appendHistory engine policy around startPos i tokens texts) := by
  induction texts generalizing i tokens with
  | nil => exact .pure tokens
  | cons text rest ih =>
      exact (counts_countedAppend covered).bind fun tokens' appended => ih (append_length covered appended)

end appending

/-- The counted code plans as the pool does, and then checks the budget of a new cache. -/
theorem Pool.counts_counted (pool : Pool) (engine : Gemma) (r : Request) (around : Surroundings) :
    Counts (pool.counted engine r around) (do
      let plan ← pool.plan engine r around
      if plan.reuse then pure ()
      else
        around.raise .allocate
        validateBudget 0 plan.tokens.length r.maxTokens.toNat engine.seqLen
      return plan) := by
  unfold Pool.plan Pool.counted
  simp only [bind_assoc, pure_bind]
  refine (counts_countedHistory (Nat.zero_le _)).bind fun tokens _ => ?_
  refine (counts_countedBudget _ _ _ _).bind fun _ _ => ?_
  split
  · exact .pure _
  · refine (Counts.lift _).bind fun _ _ => ?_
    exact (counts_countedBudget _ _ _ _).bind fun _ _ => .pure _

/-! ## What fits -/

/-- What passes fits, over the integers. -/
theorem validateBudget_fits {start prompt generated capacity : Nat}
    (passed : validateBudget start prompt generated capacity = .ok ()) :
    start + prompt + generated ≤ capacity := by
  unfold validateBudget at passed
  split at passed
  · cases passed
  · next fits =>
      rw [not_or, not_or, not_or] at fits
      obtain ⟨-, starts, room, left⟩ := fits
      have starts : start ≤ capacity := Nat.le_of_not_lt starts
      rw [sizeSub_eq starts] at room left
      rw [sizeSub_eq (Nat.le_of_not_lt room)] at left
      omega

section stages

variable {engine : Gemma} {r : Request} {around : Surroundings} {plan : Plan} {session : SessionData}
  {pool pool₁ pool' : Pool} {out : List Obs} {result : Except String Unit}

/-- A plan that reuses an entry was checked against the entry's cache. -/
theorem Pool.plan_budget (planned : pool.plan engine r around = .ok plan) (reuse : plan.reuse = true)
    (found : pool.sessions.find? r.sessionKey = some session) :
    validateBudget plan.startPos plan.tokens.length r.maxTokens.toNat session.kvCache.seqLen
      = .ok () := by
  have reusable := Pool.plan_reuse planned
  rw [reuse, found] at reusable
  obtain ⟨other, kept⟩ := Option.isSome_iff_exists.mp reusable.symm
  have same := (Option.filter_eq_some_iff.mp kept).1
  cases same
  unfold Pool.plan at planned
  dsimp only at planned
  rw [found, kept] at planned
  obtain ⟨tokens, -, planned⟩ := bind_eq_ok planned
  obtain ⟨_, budget, planned⟩ := bind_eq_ok planned
  cases planned
  exact budget

/-- `Generate` is called with room for the prompt and for all it may generate. -/
theorem Obtained.fits
    (planned : (pool.pruneExpiredLocked around.pruneClock).plan engine r around = .ok plan)
    (obtained : Obtained engine r plan (pool.pruneExpiredLocked around.pruneClock) pool₁)
    (ready : Ready engine r around plan session pool pool₁) :
    plan.startPos + plan.tokens.length + r.maxTokens.toNat ≤ session.kvCache.seqLen := by
  cases obtained with
  | reused reuse => exact validateBudget_fits (Pool.plan_budget planned reuse ready.found)
  | made fresh budget =>
      obtain ⟨rfl, start, -⟩ := ready.replayed fresh
      rw [start]
      exact validateBudget_fits budget

/-- No entry is past the end of its cache. -/
def Budgeted (pool : Pool) : Prop :=
  ∀ key session, pool.sessions.find? key = some session → session.absPos ≤ session.kvCache.seqLen

theorem Budgeted.fewer (budgeted : Budgeted pool) (fewer : Fewer pool'.sessions pool.sessions) :
    Budgeted pool' :=
  fun key session found => budgeted key session (fewer key session found)

theorem Budgeted.ready (budgeted : Budgeted pool)
    (ready : Ready engine r around plan session pool pool₁) : Budgeted pool₁ := by
  intro key other found
  by_cases own : key = r.sessionKey
  · subst own
    rw [ready.found] at found
    cases found
    cases reuse : plan.reuse with
    | true => exact budgeted _ _ (ready.reused reuse).2.1
    | false =>
        rw [(ready.replayed reuse).1]
        exact Nat.zero_le _
  · exact budgeted key other (ready.others key other own found)

theorem Outcome.fits (outcome : Outcome r around pool out pool' result) {engine' : Gemma}
    {r' : Request} {plan' : Plan} {cache : KVCache}
    (started : .generate engine' r' plan' cache ∈ out) :
    plan'.startPos + plan'.tokens.length + r'.maxTokens.toNat ≤ cache.seqLen := by
  cases outcome with
  | refused => cases started
  | pruned => cases started
  | emptied => cases started
  | unused => cases started
  | ran loaded checked planned obtained ran =>
      obtain ⟨session, ready⟩ := obtained.ready loaded checked planned
      obtain ⟨-, rfl, rfl, rfl⟩ := (runGenerate_generated ready.found ran).started started
      exact obtained.fits planned ready

/-- The engine streams at most the prompt and what it may generate. -/
def StreamsWithin (r : Request) (around : Surroundings) (out : List Obs) : Prop :=
  ∀ engine plan cache, .generate engine r plan cache ∈ out →
    around.stream.length ≤ plan.tokens.length + r.maxTokens.toNat

theorem Budgeted.generated (budgeted : Budgeted pool₁)
    (fits : plan.startPos + plan.tokens.length + r.maxTokens.toNat ≤ session.kvCache.seqLen)
    (streams : around.stream.length ≤ plan.tokens.length + r.maxTokens.toNat)
    (generated : Generated engine r plan around session pool₁ pool' out result) : Budgeted pool' := by
  intro key other here
  by_cases own : key = r.sessionKey
  · subst own
    cases result with
    | error what =>
        rw [generated.failed what rfl] at here
        cases here
    | ok =>
        rw [generated.succeeded rfl] at here
        cases here
        change plan.startPos + around.stream.length ≤ session.kvCache.seqLen
        omega
  · rw [generated.others key own] at here
    exact budgeted key other here

theorem Outcome.budgeted (budgeted : Budgeted pool) (streams : StreamsWithin r around out)
    (outcome : Outcome r around pool out pool' result) : Budgeted pool' := by
  have pruned : Fewer (pool.pruneExpiredLocked around.pruneClock).sessions pool.sessions :=
    Fewer.filter _
  cases outcome with
  | refused => exact budgeted
  | pruned => exact budgeted.fewer pruned
  | emptied => exact budgeted.fewer ((makeRoom_fewer _ _).trans pruned)
  | unused loaded checked planned obtained =>
      obtain ⟨session, ready⟩ := obtained.ready loaded checked planned
      exact budgeted.ready ready
  | ran loaded checked planned obtained ran =>
      obtain ⟨session, ready⟩ := obtained.ready loaded checked planned
      have generated := runGenerate_generated ready.found ran
      obtain ⟨shown, rfl⟩ := generated.shows
      have fits := obtained.fits planned ready
      exact (budgeted.ready ready).generated fits (streams _ _ _ (.head _)) generated

end stages

/-- The engine keeps to the budget in a call. -/
def Called.StreamsWithin (c : Called) : Prop :=
  ∀ r around, c.op.request? = some (r, around) → Inference.StreamsWithin r around c.out

theorem Budgeted.calls {pool pool' : Pool} {c : Called} (budgeted : Budgeted pool)
    (streams : c.StreamsWithin) (ran : c.op.action pool = (c.out, pool', c.result)) :
    Budgeted pool' := by
  cases Called.ends ran with
  | asked asked outcome => exact outcome.budgeted budgeted (streams _ _ asked)
  | cleared _ _ after =>
      rw [after]
      exact budgeted.fewer (Fewer.filter _)
  | closed _ _ after =>
      rw [after]
      intro key session none
      cases none
  | unchanged _ _ after =>
      rw [after]
      exact budgeted
  | loaded _ _ _ _ after =>
      rw [after]
      exact budgeted

theorem budgeted_run {tr : List Called} {pool : Pool} (run : Run Calls {} tr pool)
    (streams : ∀ c ∈ tr, c.StreamsWithin) : Budgeted pool := by
  refine run.invariant (I := fun pool tr => (∀ c ∈ tr, c.StreamsWithin) → Budgeted pool)
    (fun _ key session none => by cases none) ?_ streams
  intro pool tr out pool' held call streams
  obtain ⟨c, rfl, ran⟩ := call.called
  rw [List.forall_mem_append] at streams
  exact (held streams.1).calls (streams.2 c (.head _)) ran

/-- No subtraction of a request wraps; `Generate` is called only with room for the prompt and
`max_tokens` in the cache it runs on; and while the engine keeps to that, no cached session is past
the end of its cache. -/
theorem token_budget {tr : List Called} {pool pool' : Pool} {c : Called} (run : Run Calls {} tr pool)
    (call : Calls pool [c] pool') :
    (∀ engine r around, pool.gemma = some engine → c.op.request? = some (r, around) →
      Covered ((pool.pruneExpiredLocked around.pruneClock).subtractions engine r around)) ∧
    (∀ engine r plan cache, .generate engine r plan cache ∈ c.out →
      plan.startPos + plan.tokens.length + r.maxTokens.toNat ≤ cache.seqLen) ∧
    ((∀ c' ∈ tr ++ [c], c'.StreamsWithin) → ∀ key session,
      pool'.sessions.find? key = some session → session.absPos ≤ session.kvCache.seqLen) := by
  refine ⟨fun engine r around _ _ => (Pool.counts_counted _ engine r around).covered, ?_,
    budgeted_run (run.tail call)⟩
  intro engine r plan cache started
  obtain ⟨_, same, ran⟩ := call.called
  cases same
  cases Called.ends ran with
  | asked _ outcome => exact outcome.fits started
  | cleared _ silent _ =>
      rw [silent] at started
      cases started
  | closed _ silent _ =>
      rw [silent] at started
      cases started
  | unchanged _ silent _ =>
      rw [silent] at started
      cases started
  | loaded _ silent _ _ _ =>
      rw [silent] at started
      cases started

section secondTurn

theorem StreamsWithin.one_token {engine : Gemma} {r : Request} {around : Surroundings} {cache : KVCache}
    {text : Bytes} (plan : Plan)
    (fits : around.stream.length ≤ plan.tokens.length + r.maxTokens.toNat) :
    StreamsWithin r around [.generate engine r plan cache, .onToken text] := by
  intro engine' plan' cache' started
  rcases List.mem_cons.mp started with first | shows
  · cases first
    exact fits
  · cases List.mem_singleton.mp shows

theorem afterFirstTurn_calls : ∃ tr, Run Calls {} tr afterFirstTurn ∧ ∀ c ∈ tr, c.StreamsWithin := by
  refine ⟨_, .tail (.single (.ran loadLetters {})) (.ran firstTurn _), ?_⟩
  intro c member
  rcases List.mem_cons.mp member with rfl | member
  · intro r around asked
    cases asked
  · cases List.mem_singleton.mp member
    intro r around asked
    cases asked
    exact .one_token ⟨false, 0, [[7]], [2, 7]⟩ (by decide)

/-- The second turn starts at position 4 of 64 with two tokens and may generate eight. -/
theorem token_budget_second_turn :
    Covered (afterFirstTurn.subtractions letters
      ⟨[1], [8], some [([7], 0), ([9], 0), ([8], 0)], true, some 0, 8⟩
      { pruneClock := 0, endClock := 0, stream := [3, 8, 9, 0] }) ∧
    4 + 2 + 8 ≤ firstCache.seqLen ∧
    ∀ key session, (secondTurn.action afterFirstTurn).2.1.sessions.find? key = some session →
      session.absPos ≤ session.kvCache.seqLen := by
  obtain ⟨tr, run, streams⟩ := afterFirstTurn_calls
  obtain ⟨covered, fits, kept⟩ := token_budget run (.ran secondTurn afterFirstTurn)
  refine ⟨covered letters _ _ rfl rfl, fits _ _ _ _ (.head _), kept ?_⟩
  rw [List.forall_mem_append, List.forall_mem_singleton]
  refine ⟨streams, ?_⟩
  intro r around asked
  cases asked
  exact .one_token ⟨true, 4, [[8]], [3, 8]⟩ (by decide)

end secondTurn

end AIService.Inference
