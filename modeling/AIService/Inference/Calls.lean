import AIService.Inference.Generate

/-!
# Calls of the pool

`Calls` is a call of the pool with its label: the operation, what it showed and how it ended;
`Called.Ends` says everything it can do.  `Serves` is a call at clock readings that never go back.
-/

namespace AIService.Inference

/-- The request of a generating operation, and what it meets. -/
def Operation.request? : Operation → Option (Request × Surroundings)
  | .generate sessionKey prompt listens temperature maxTokens around =>
      some (⟨sessionKey, prompt, none, listens, temperature, maxTokens⟩, around)
  | .generateFromHistory sessionKey history listens temperature maxTokens around =>
      some (⟨sessionKey, match history.getLast? with
        | some message => message.1
        | none => [], some history, listens, temperature, maxTokens⟩, around)
  | _ => none

/-- The operation reads the clock, if at all, between `now` and `later`. -/
def Operation.Reads (op : Operation) (now later : Instant) : Prop :=
  match op.request? with
  | some (_, around) =>
      now ≤ around.pruneClock ∧ around.pruneClock ≤ around.endClock ∧ around.endClock ≤ later
  | none => now ≤ later

/-- A call: the operation, what it shows and how it ends. -/
structure Called where
  op : Operation
  out : List Obs
  result : Except String Unit

/-- A call, with its label. -/
inductive Calls : Pool → List Called → Pool → Prop
  | call {pool pool' : Pool} {out : List Obs} {result : Except String Unit} (op : Operation) :
    op.action pool = (out, pool', result) → Calls pool [⟨op, out, result⟩] pool'

/-- The pool and a reading of the clock. -/
structure Clocked where
  pool : Pool := {}
  now : Instant := 0

/-- A call at clock readings that do not go back. -/
inductive Serves : Clocked → List Called → Clocked → Prop
  | call {s s' : Clocked} {c : Called} : Calls s.pool [c] s'.pool → c.op.Reads s.now s'.now →
    Serves s [c] s'

theorem Calls.ran (op : Operation) (pool : Pool) :
    Calls pool [⟨op, (op.action pool).1, (op.action pool).2.2⟩] (op.action pool).2.1 :=
  .call op rfl

theorem Calls.called {pool pool' : Pool} {out : List Called} (call : Calls pool out pool') :
    ∃ c, out = [c] ∧ c.op.action pool = (c.out, pool', c.result) := by
  cases call with
  | call op ran => exact ⟨_, rfl, ran⟩

theorem Serves.ran (op : Operation) (s : Clocked) (later : Instant) (reads : op.Reads s.now later) :
    Serves s [⟨op, (op.action s.pool).1, (op.action s.pool).2.2⟩] ⟨(op.action s.pool).2.1, later⟩ :=
  .call (.ran op s.pool) reads

theorem Serves.called {s s' : Clocked} {out : List Called} (call : Serves s out s') :
    ∃ c, out = [c] ∧ c.op.action s.pool = (c.out, s'.pool, c.result) ∧ c.op.Reads s.now s'.now := by
  cases call with
  | call call reads =>
      obtain ⟨c, same, ran⟩ := call.called
      cases same
      exact ⟨_, rfl, ran, reads⟩

theorem Operation.Reads.le {op : Operation} {now later : Instant} (reads : op.Reads now later) :
    now ≤ later := by
  unfold Operation.Reads at reads
  split at reads
  · exact Int.le_trans reads.1 (Int.le_trans reads.2.1 reads.2.2)
  · exact reads

/-- A generating operation is a call of `generateImpl`. -/
theorem Operation.action_request {op : Operation} {r : Request} {around : Surroundings}
    (asks : op.request? = some (r, around)) :
    op.action = generateImpl r around := by
  cases op <;> cases asks <;> rfl

/-- Everything a call can do to the pool. -/
inductive Called.Ends (c : Called) (pool pool' : Pool) : Prop
  | asked {r : Request} {around : Surroundings} : c.op.request? = some (r, around) →
    Outcome r around pool c.out pool' c.result → Called.Ends c pool pool'
  | cleared {key : Bytes} : c.op = .clearSession key → c.out = [] → pool' = pool.erase key →
    Called.Ends c pool pool'
  | closed : c.op = .shutdown → c.out = [] →
    pool' = { pool with gemma := none, sessions := .empty, accessOrder := 0 } →
    Called.Ends c pool pool'
  | unchanged {weightsPath tokenizerPath : Bytes} {policy : CachePolicy} {files : Bytes → FileState}
      {loads : Except String Gemma} :
    c.op = .initializePool weightsPath tokenizerPath policy files loads → c.out = [] → pool' = pool →
    Called.Ends c pool pool'
  | loaded {weightsPath tokenizerPath : Bytes} {policy : CachePolicy} {files : Bytes → FileState}
      {loads : Except String Gemma} {model : Gemma} :
    c.op = .initializePool weightsPath tokenizerPath policy files loads → c.out = [] →
    pool.gemma = none → policy.check = .ok () →
    pool' = { pool with gemma := some model, policy := policy } → Called.Ends c pool pool'

theorem Called.ends {c : Called} {pool pool' : Pool}
    (ran : c.op.action pool = (c.out, pool', c.result)) : c.Ends pool pool' := by
  cases asked : c.op.request? with
  | some request =>
      obtain ⟨r, around⟩ := request
      rw [Operation.action_request asked] at ran
      exact .asked asked (generateImpl_outcome ran)
  | none =>
      obtain ⟨op, out, result⟩ := c
      cases op with
      | generate => cases asked
      | generateFromHistory => cases asked
      | clearSession key =>
          cases ran
          exact .cleared rfl rfl rfl
      | shutdown =>
          cases ran
          exact .closed rfl rfl rfl
      | initializePool =>
          obtain ⟨silent, same | ⟨unloaded, checked, model, loaded⟩⟩ := initializePool_outcome ran
          · exact .unchanged rfl silent same
          · exact .loaded rfl silent unloaded checked loaded

end AIService.Inference
