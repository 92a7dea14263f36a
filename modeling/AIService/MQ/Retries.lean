import AIService.Data.FlatJson
import AIService.MQ.Durability
import Mathlib.Data.List.Chain

/-!
# Chains of retries

While the consumer answers `Retry`, each body is replaced by the next.  The count in `_attempt`
goes up with every replacement on the main queue (`incremented_count`), so there are at most five
(`chain_length`); the last body is quarantined as it is.
-/

namespace AIService.MQ

open Chat (ChatExchange)

/-- The consumer answers `Retry` to `body`, and when its timer fires `body'` is published to
`queue` in its place. -/
def Replaced (codec : JsonCodec) (queueName body queue body' : Bytes) : Prop :=
  ∃ (w w' : World) (d : Delivery) (t : Timer) (ticket : Nat) (watched : List Monitored)
      (built : Bool), w.handler.queueName = queueName ∧
    (w.completeDelivery codec d .retry body).2.timers = w.timers ++ [t] ∧
    (w'.fireTimer watched built t).2.calls =
      w'.calls ++ [⟨⟨queue, body', some d, ticket⟩, .checked⟩]

/-- The count of a body, as the handler reads it. -/
def count? (codec : JsonCodec) (body : Bytes) : Option Int :=
  ((codec.parse body).bind attemptOf).map Int32.toInt

/-- The values differ in `_attempt` only, and there by one. -/
def Incremented (codec : JsonCodec) (body body' : Bytes) : Prop :=
  ∃ fields n, codec.parse body = some (.obj fields) ∧ count? codec body = some n ∧ 0 ≤ n ∧ n < 5 ∧
    codec.parse body' = some (.obj (SortedMap.place (bytes "_attempt") (.int (n + 1)) fields))

/-- Parsing or rewriting the body fails, or its count is out of bounds. -/
def Unfit (codec : JsonCodec) (body : Bytes) : Prop :=
  ∀ job n, codec.parse body = some job → count? codec body = some n → 0 ≤ n → n < 5 →
    (job.setField? (bytes "_attempt") (.int (n + 1))).bind codec.dump = none

section

variable {codec : JsonCodec} {queueName body body' queue : Bytes}

theorem replaced_iff : Replaced codec queueName body queue body' ↔
    ∃ delay, replacement codec queueName .retry body = (queue, body', delay) := by
  constructor
  · rintro ⟨w, w', d, t, ticket, watched, built, rfl, armed, fired⟩
    have timer : t = .retries d (replacement codec w.handler.queueName .retry body).1
        (replacement codec w.handler.queueName .retry body).2.1
        (replacement codec w.handler.queueName .retry body).2.2 := by
      unfold World.completeDelivery at armed
      split at armed
      · simp at armed
      split at armed
      · simp at armed
      · exact (List.singleton_inj.mp (List.append_cancel_left armed)).symm
    rw [timer] at fired
    unfold World.fireTimer World.schedulePublish at fired
    dsimp only at fired
    split at fired
    · split at fired
      · have call := List.singleton_inj.mp (List.append_cancel_left fired)
        injection call with item
        injection item with sameQueue sameBody
        exact ⟨_, Prod.ext sameQueue (Prod.ext sameBody rfl)⟩
      · simp at fired
    · simp at fired
  · rintro ⟨delay, replaced⟩
    refine ⟨{ handler := { queueName, consumerChannel := some 0 } }, { handler := { queueName } },
      ⟨0, 0⟩, .retries ⟨0, 0⟩ queue body' delay, 0, [], false, rfl, ?_, rfl⟩
    change [Timer.retries _ (replacement codec queueName .retry body).1
      (replacement codec queueName .retry body).2.1
      (replacement codec queueName .retry body).2.2] = _
    rw [replaced]
    rfl

theorem count_eq {job : Json} {attempt : Int32} (parsed : codec.parse body = some job)
    (read : attemptOf job = some attempt) : count? codec body = some attempt.toInt := by
  rw [count?, parsed, Option.bind_some, read, Option.map_some]

/-- One replacement: a body that is fit has its count raised, any other is quarantined. -/
theorem replacement_retry (codec : JsonCodec) (queueName body : Bytes) :
    (Unfit codec body ∧ replacement codec queueName .retry body =
        (queueName ++ bytes ".dead", body, 0)) ∨
      ∃ job n body' delay, codec.parse body = some job ∧ count? codec body = some n ∧ 0 ≤ n ∧
        n < 5 ∧ (job.setField? (bytes "_attempt") (.int (n + 1))).bind codec.dump = some body' ∧
        replacement codec queueName .retry body = (queueName, body', delay) := by
  unfold replacement
  dsimp only
  rw [if_neg (not_not_intro rfl)]
  split
  next failed =>
    refine .inl ⟨fun job n parsed => ?_, rfl⟩
    rw [failed] at parsed
    cases parsed
  next job parsed =>
    split
    next failed =>
      refine .inl ⟨fun _ n _ counted => ?_, rfl⟩
      rw [count?, parsed, Option.bind_some, failed] at counted
      cases counted
    next attempt read =>
      have counted := count_eq parsed read
      have bounds : (0 ≤ attempt ∧ attempt < 5) ↔ 0 ≤ attempt.toInt ∧ attempt.toInt < 5 := by
        rw [Int32.le_iff_toInt_le, Int32.lt_iff_toInt_lt]
        rfl
      split
      next inside =>
        obtain ⟨low, high⟩ := bounds.mp inside
        split
        next failed =>
          refine .inl ⟨fun job' n parsed' counted' _ _ => ?_, rfl⟩
          rw [parsed] at parsed'
          rw [counted] at counted'
          cases parsed'
          cases counted'
          exact failed
        next body' written => exact .inr ⟨job, _, body', _, parsed, counted, low, high, written, rfl⟩
      next outside =>
        refine .inl ⟨fun _ n _ counted' low high => ?_, rfl⟩
        rw [counted] at counted'
        cases counted'
        exact absurd (bounds.mpr ⟨low, high⟩) outside

theorem Replaced.functional {queue₁ queue₂ body₁ body₂ : Bytes}
    (one : Replaced codec queueName body queue₁ body₁)
    (two : Replaced codec queueName body queue₂ body₂) : queue₁ = queue₂ ∧ body₁ = body₂ := by
  obtain ⟨_, one⟩ := replaced_iff.mp one
  obtain ⟨_, two⟩ := replaced_iff.mp two
  cases one.symm.trans two
  exact ⟨rfl, rfl⟩

theorem dead_ne (queueName : Bytes) : queueName ++ bytes ".dead" ≠ queueName := by
  intro same
  have five : (bytes ".dead").length = 5 := by decide
  have longer := congrArg List.length same
  rw [List.length_append] at longer
  omega

theorem unfit_replaced (unfit : Unfit codec body) : Replaced codec queueName body queue body' ↔
    queue = queueName ++ bytes ".dead" ∧ body' = body := by
  rcases replacement_retry codec queueName body with ⟨-, quarantined⟩ | ⟨_, _, _, _, parsed, counted,
    low, high, written, -⟩
  · rw [replaced_iff, quarantined]
    constructor
    · rintro ⟨_, same⟩
      cases same
      exact ⟨rfl, rfl⟩
    · rintro ⟨rfl, rfl⟩
      exact ⟨0, rfl⟩
  · rw [unfit _ _ parsed counted low high] at written
    cases written

/-- The value of a body that is written back is an object. -/
theorem incremented_of_written (lawful : codec.Lawful) {job : Json} {n : Int}
    (parsed : codec.parse body = some job) (counted : count? codec body = some n) (low : 0 ≤ n)
    (high : n < 5)
    (written : (job.setField? (bytes "_attempt") (.int (n + 1))).bind codec.dump = some body') :
    Incremented codec body body' := by
  obtain ⟨job', set, dumped⟩ := Option.bind_eq_some_iff.mp written
  have parsed' := lawful.parse_dump dumped
  cases job with
  | obj fields =>
      cases set
      exact ⟨fields, n, parsed, counted, low, high, parsed'⟩
  | _ =>
      rw [count?, parsed] at counted
      cases counted

theorem Replaced.cases (lawful : codec.Lawful) (replaced : Replaced codec queueName body queue body') :
    (Unfit codec body ∧ queue = queueName ++ bytes ".dead" ∧ body' = body) ∨
      (queue = queueName ∧ Incremented codec body body' ∧ Reattempted codec body body') := by
  rcases replacement_retry codec queueName body with ⟨unfit, -⟩ | ⟨_, _, _, _, parsed, counted,
    low, high, written, retried⟩
  · exact .inl ⟨unfit, (unfit_replaced unfit).mp replaced⟩
  · obtain ⟨rfl, rfl⟩ := replaced.functional (replaced_iff.mpr ⟨_, retried⟩)
    exact .inr ⟨rfl, incremented_of_written lawful parsed counted low high written, _, _, parsed,
      written⟩

theorem incremented_count (again : Incremented codec body body') :
    ∃ n, count? codec body = some n ∧ 0 ≤ n ∧ n < 5 ∧ count? codec body' = some (n + 1) := by
  obtain ⟨fields, n, -, counted, low, high, parsed'⟩ := again
  refine ⟨n, counted, low, high, ?_⟩
  have read : attemptOf (.obj (SortedMap.place (bytes "_attempt") (.int (n + 1)) fields)) =
      some (Int32.ofInt (n + 1)) := by
    rw [attemptOf, SortedMap.lookup_place, if_pos rfl]
    rfl
  rw [count_eq parsed' read, Int32.toInt_ofInt_of_le (by omega) (by omega)]

end

/-! ## Chains -/

/-- Each body replaces the one before it on the main queue. -/
abbrev RetryChain (codec : JsonCodec) (queueName : Bytes) : List Bytes → Prop :=
  List.IsChain fun body body' => Replaced codec queueName body queueName body'

section

variable {codec : JsonCodec} {queueName body : Bytes} {bodies : List Bytes}

theorem Replaced.incremented (lawful : codec.Lawful) {body' : Bytes}
    (replaced : Replaced codec queueName body queueName body') :
    Incremented codec body body' ∧ Reattempted codec body body' := by
  rcases replaced.cases lawful with ⟨-, dead, -⟩ | ⟨-, again⟩
  · exact absurd dead.symm (dead_ne queueName)
  · exact again

/-- The count of the first body bounds what follows it. -/
theorem chain_count (lawful : codec.Lawful) (chain : RetryChain codec queueName (body :: bodies)) :
    bodies = [] ∨ ∃ n, count? codec body = some n ∧ 0 ≤ n ∧ n + bodies.length ≤ 5 := by
  induction bodies generalizing body with
  | nil => exact .inl rfl
  | cons body' rest ih =>
      obtain ⟨first, later⟩ := List.isChain_cons_cons.mp chain
      obtain ⟨n, counted, low, high, next⟩ := incremented_count (first.incremented lawful).1
      refine .inr ⟨n, counted, low, ?_⟩
      rw [List.length_cons]
      rcases ih later with rfl | ⟨m, counted', -, bound⟩
      · simp only [List.length_nil]
        omega
      · rw [next] at counted'
        cases counted'
        omega

theorem chain_length (lawful : codec.Lawful) (chain : RetryChain codec queueName (body :: bodies)) :
    bodies.length ≤ 5 := by
  rcases chain_count lawful chain with rfl | ⟨n, -, low, bound⟩
  · exact Nat.zero_le 5
  · omega

theorem chain_alike (lawful : codec.Lawful) (chain : RetryChain codec queueName (body :: bodies)) :
    ∀ body' ∈ body :: bodies, Alike codec body body' := by
  induction bodies generalizing body with
  | nil =>
      intro body' member
      rw [List.mem_singleton.mp member]
  | cons next rest ih =>
      obtain ⟨first, later⟩ := List.isChain_cons_cons.mp chain
      intro body' member
      rcases List.mem_cons.mp member with rfl | member
      · exact .refl
      · exact .head (first.incremented lawful).2 (ih later body' member)

/-- A chain goes on until its last body is quarantined. -/
theorem chain_ends (lawful : codec.Lawful) (chain : RetryChain codec queueName (body :: bodies)) :
    ∃ more last, RetryChain codec queueName (body :: (bodies ++ more)) ∧
      (body :: (bodies ++ more)).getLast? = some last ∧
      Replaced codec queueName last (queueName ++ bytes ".dead") last := by
  -- what is left of the bound decreases
  induction left : 5 - bodies.length using Nat.strong_induction_on generalizing bodies with
  | _ left ih =>
      obtain ⟨last, ends⟩ : ∃ last, (body :: bodies).getLast? = some last := ⟨_, List.getLast?_cons⟩
      rcases replacement_retry codec queueName last with ⟨-, quarantined⟩ | ⟨_, _, body', _, _, _, _, _,
        _, retried⟩
      · refine ⟨[], last, ?_, ?_, replaced_iff.mpr ⟨_, quarantined⟩⟩
        · rw [List.append_nil]
          exact chain
        · rw [List.append_nil]
          exact ends
      · have longer : RetryChain codec queueName (body :: (bodies ++ [body'])) := by
          rw [← List.cons_append]
          apply chain.append (.singleton _)
          intro x here y next
          rw [ends] at here
          cases here
          cases next
          exact replaced_iff.mpr ⟨_, retried⟩
        have bound := chain_length lawful longer
        rw [List.length_append, List.length_singleton] at bound
        obtain ⟨more, last', all⟩ := ih _ (by
          rw [List.length_append, List.length_singleton]
          omega) longer rfl
        rw [List.append_assoc] at all
        exact ⟨body' :: more, last', all⟩

end

/-- A body that is fit is replaced on the main queue by one with a raised count, any other is
quarantined unchanged; at most five replacements come before that, and the consumer reads the same
exchange in all of them. -/
theorem retries_bounded {codec : JsonCodec} (lawful : codec.Lawful) (queueName body : Bytes) :
    (∀ bodies, RetryChain codec queueName (body :: bodies) → bodies.length ≤ 5 ∧
      (∃ more last, RetryChain codec queueName (body :: (bodies ++ more)) ∧
        (bodies ++ more).length ≤ 5 ∧ (body :: (bodies ++ more)).getLast? = some last ∧
        Replaced codec queueName last (queueName ++ bytes ".dead") last) ∧
      ∀ last queue body', (body :: bodies).getLast? = some last →
        Replaced codec queueName last queue body' →
        ChatExchange.parse codec body' = ChatExchange.parse codec body) ∧
    (∃! replaced : Bytes × Bytes, Replaced codec queueName body replaced.1 replaced.2) ∧
    (∀ body', Replaced codec queueName body queueName body' → Incremented codec body body') ∧
    (∀ queue body', Replaced codec queueName body queue body' →
      (queue = queueName ++ bytes ".dead" ↔ Unfit codec body) ∧
        (queue = queueName ∨ queue = queueName ++ bytes ".dead")) ∧
    (Unfit codec body → Replaced codec queueName body (queueName ++ bytes ".dead") body) := by
  refine ⟨fun bodies chain => ⟨chain_length lawful chain, ?_, fun last queue body' ends replaced => ?_⟩,
    ⟨((replacement codec queueName .retry body).1, (replacement codec queueName .retry body).2.1),
      replaced_iff.mpr ⟨_, rfl⟩, fun other replaced => ?_⟩,
    fun body' replaced => (replaced.incremented lawful).1, fun queue body' replaced => ?_,
    fun unfit => (unfit_replaced unfit).mpr ⟨rfl, rfl⟩⟩
  · obtain ⟨more, last, longer, ends, dead⟩ := chain_ends lawful chain
    exact ⟨more, last, longer, chain_length lawful longer, ends, dead⟩
  · have alike := chain_alike lawful chain last (List.mem_of_getLast? ends)
    rw [← parse_alike lawful alike]
    rcases replaced.cases lawful with ⟨-, -, rfl⟩ | ⟨-, -, again⟩
    · rfl
    · exact parse_reattempted lawful again
  · obtain ⟨queue, same⟩ := replaced.functional (replaced_iff.mpr ⟨_, rfl⟩)
    exact Prod.ext queue same
  · rcases replaced.cases lawful with ⟨unfit, rfl, -⟩ | ⟨rfl, again, -⟩
    · exact ⟨iff_of_true rfl unfit, .inr rfl⟩
    · refine ⟨iff_of_false (dead_ne queue).symm fun unfit => ?_, .inl rfl⟩
      exact dead_ne queue ((unfit_replaced unfit).mp replaced).1.symm

/-- A count of three leaves two retries. -/
theorem retries_bounded_three : ∃ last,
    RetryChain flatCodec (bytes "q") [bytes "\x7b\"_attempt\":3\x7d", bytes "\x7b\"_attempt\":4\x7d", last] ∧
      ChatExchange.parse flatCodec last = ChatExchange.parse flatCodec (bytes "\x7b\"_attempt\":3\x7d") := by
  have one : Replaced flatCodec (bytes "q") (bytes "\x7b\"_attempt\":3\x7d") (bytes "q")
      (bytes "\x7b\"_attempt\":4\x7d") := replaced_iff.mpr ⟨8, by decide +kernel⟩
  have two : Replaced flatCodec (bytes "q") (bytes "\x7b\"_attempt\":4\x7d") (bytes "q")
      (bytes "\x7b\"_attempt\":5\x7d") := replaced_iff.mpr ⟨16, by decide +kernel⟩
  have chain : RetryChain flatCodec (bytes "q") [bytes "\x7b\"_attempt\":3\x7d",
      bytes "\x7b\"_attempt\":4\x7d"] := List.isChain_cons_cons.mpr ⟨one, .singleton _⟩
  exact ⟨_, List.isChain_cons_cons.mpr ⟨one, List.isChain_cons_cons.mpr ⟨two, .singleton _⟩⟩,
    ((retries_bounded flatCodec_lawful (bytes "q") (bytes "\x7b\"_attempt\":3\x7d")).1 _ chain).2.2 _ _ _ rfl
      two⟩

end AIService.MQ
