import AIService.Chat.History
import AIService.Data.FlatJson

/-!
# Exchanges are atomic

Over any interleaving of `chat`, `chatStream` and `GetHistorySnapshot` calls, the history
of a helper is what the exchanges accepted by the queue append to the history it started
with (`exchange_atomicity`).
-/

namespace AIService.Chat

open AIService.Action

/-! ## What a trace says -/

def Effect.began? : Effect → Option (Bool × Call)
  | .began streaming call => some (streaming, call)
  | _ => none

/-- Whether a result came through a callback, and its answer unless it is a failure. -/
def Effect.result? : Effect → Option (Bool × Option Bytes)
  | .returned answer => some (false, some answer)
  | .threw _ => some (false, none)
  | .onDone answer => some (true, some answer)
  | .onError _ => some (true, none)
  | _ => none

def Effect.token? : Effect → Option Bytes
  | .onToken delta => some delta
  | _ => none

/-- The exchange that the queue accepted. -/
def Effect.accepted? (codec : JsonCodec) : Effect → Option ChatExchange
  | .published _ body true => ChatExchange.parse codec body
  | _ => none

/-- The exchanges that the queue accepted, in order. -/
def accepted (codec : JsonCodec) (tr : List Obs) : List ChatExchange :=
  tr.filterMap fun o => o.2.accepted? codec

def effectsOf (n : Nat) (tr : List Obs) : List Effect :=
  tr.filterMap fun o => if o.1 = n then some o.2 else none

/-- The history that a trace leaves, from the queue's point of view. -/
def historyAfter (codec : JsonCodec) (start : AIHelper) (tr : List Obs) : AIHelper :=
  (accepted codec tr).foldl .append start

/-- What `GetHistorySnapshot` should show. -/
def AIHelper.shown (helper : AIHelper) : List HistoryMessage :=
  (helper.messages.zip helper.messageRoles_).map fun (message, isUser) =>
    ⟨message.1, message.2, isUser⟩

/-- Requests and snapshots show the history: each message under its stored role, and in a
request one more user turn. -/
def Effect.Fits (helper : AIHelper) : Effect → Prop
  | .asked payload =>
      ∃ prompt, sentMessages payload = some (labelled (helper.turns ++ [(true, prompt)]))
  | .generated _ history => ∃ question, history = helper.messages ++ [(question, 0)]
  | .snapshot history => history = helper.shown
  | _ => True

/-- One call of `chat` or `chatStream`, by its effects.  It has one result when it is over,
and none before; it succeeded exactly when the queue accepted its exchange. -/
structure Conducted (codec : JsonCodec) (streaming : Bool) (call : Call) (finished : Prop)
    (fx : List Effect) : Prop where
  ended : finished → ∃ answer, fx.filterMap Effect.result? = [(streaming, answer)]
  running : ¬ finished → fx.filterMap Effect.result? = []
  once : (fx.filterMap (Effect.accepted? codec)).length ≤ 1
  succeeded : ∀ answer, (streaming, some answer) ∈ fx.filterMap Effect.result? →
    ∃ x, fx.filterMap (Effect.accepted? codec) = [x] ∧ x.answer = answer
  failed : (streaming, none) ∈ fx.filterMap Effect.result? →
    fx.filterMap (Effect.accepted? codec) = []
  deltas : ∀ answer, .onDone answer ∈ fx → (fx.filterMap Effect.token?).flatten = answer
  written : ∀ queue body verdict, .published queue body verdict ∈ fx →
    queue = bytes "sql_queue" ∧ ∃ x, Written codec call body x

/-! ## Tallies -/

/-- What the effects of one call add up to. -/
structure Tally (codec : JsonCodec) (call : Call) (fx : List Effect) (began : List (Bool × Call))
    (results : List (Bool × Option Bytes)) (tokens : List Bytes) (taken : List ChatExchange) :
    Prop where
  began : fx.filterMap Effect.began? = began
  results : fx.filterMap Effect.result? = results
  tokens : fx.filterMap Effect.token? = tokens
  accepted : fx.filterMap (Effect.accepted? codec) = taken
  written : ∀ queue body verdict, .published queue body verdict ∈ fx →
    queue = bytes "sql_queue" ∧ ∃ x, Written codec call body x
  noOverflow : .overflow ∉ fx

section

variable {codec : JsonCodec} {call : Call} {fx fx' out : List Effect} {helper helper' : AIHelper}
  {began began' : List (Bool × Call)} {results results' : List (Bool × Option Bytes)}
  {tokens tokens' : List Bytes} {taken taken' : List ChatExchange}

theorem Tally.append (tally : Tally codec call fx began results tokens taken)
    (tally' : Tally codec call fx' began' results' tokens' taken') :
    Tally codec call (fx ++ fx') (began ++ began') (results ++ results') (tokens ++ tokens')
      (taken ++ taken') where
  began := by rw [List.filterMap_append, tally.began, tally'.began]
  results := by rw [List.filterMap_append, tally.results, tally'.results]
  tokens := by rw [List.filterMap_append, tally.tokens, tally'.tokens]
  accepted := by rw [List.filterMap_append, tally.accepted, tally'.accepted]
  written queue body verdict member := by
    rcases List.mem_append.mp member with early | late
    · exact tally.written queue body verdict early
    · exact tally'.written queue body verdict late
  noOverflow member := (List.mem_append.mp member).elim tally.noOverflow tally'.noOverflow

/-- A call that starts. -/
theorem Tally.start (streaming : Bool) :
    Tally codec call [.began streaming call] [(streaming, call)] [] [] [] :=
  ⟨rfl, rfl, rfl, rfl, by simp, by simp⟩

/-- The result of a call. -/
theorem Tally.result {e : Effect} {r : Bool × Option Bytes} (isResult : e.result? = some r) :
    Tally codec call [e] [] [r] [] [] := by
  cases e <;> cases isResult <;> exact ⟨rfl, rfl, rfl, rfl, by simp, by simp⟩

theorem Tally.requests (fits : ∀ e ∈ fx, Preparatory helper e) :
    Tally codec call fx [] [] [] [] := by
  induction fx with
  | nil => exact ⟨rfl, rfl, rfl, rfl, by simp, by simp⟩
  | cons e rest ih =>
      have one : Tally codec call [e] [] [] [] [] := by
        have fine := fits e List.mem_cons_self
        cases e with
        | asked | generated => exact ⟨rfl, rfl, rfl, rfl, by simp, by simp⟩
        | _ => exact fine.elim
      exact one.append (ih fun e member => fits e (List.mem_cons_of_mem _ member))

theorem Tally.onTokens (tokens : List Bytes) :
    Tally codec call (tokens.map .onToken) [] [] tokens [] := by
  induction tokens with
  | nil => exact ⟨rfl, rfl, rfl, rfl, by simp, by simp⟩
  | cons delta rest ih =>
      have one : Tally codec call [.onToken delta] [] [] [delta] [] :=
        ⟨rfl, rfl, rfl, rfl, by simp, by simp⟩
      exact one.append ih

theorem Sent.tally {x : Option ChatExchange} (sent : Sent codec call x out) :
    Tally codec call out [] [] [] x.toList := by
  cases sent with
  | nothing => exact ⟨rfl, rfl, rfl, rfl, by simp, by simp⟩
  | refused written =>
      refine ⟨rfl, rfl, rfl, rfl, fun queue body verdict member => ?_, by simp⟩
      cases List.mem_singleton.mp member
      exact ⟨rfl, _, written⟩
  | accepted written =>
      refine ⟨rfl, rfl, rfl, ?_, fun queue body verdict member => ?_, by simp⟩
      · simp [Effect.accepted?, written.writtenAs.parsed]
      · cases List.mem_singleton.mp member
        exact ⟨rfl, _, written⟩

theorem Shape.tally {x : Option ChatExchange} (shape : Shape codec call helper tokens x out) :
    Tally codec call out [] [] tokens x.toList := by
  obtain ⟨asked, sent, rfl, fits, sends⟩ := shape
  simpa using ((Tally.requests fits).append (.onTokens tokens)).append sends.tally

end

/-! ## The phases of a call -/

/-- The effects of a call that has reached a phase. -/
inductive CallInv (codec : JsonCodec) : Phase → List Effect → Prop
  | idle : CallInv codec .idle []
  | unlocked {call : Call} {fx : List Effect} : Tally codec call fx [(true, call)] [] [] [] →
    CallInv codec (.unlocked call) fx
  | answered {call : Call} {fx : List Effect} {x : ChatExchange} :
    Tally codec call fx [(true, call)] [] [] [x] → CallInv codec (.answered x.answer) fx
  | failing {call : Call} {fx : List Effect} {tokens : List Bytes} {what : Bytes} :
    Tally codec call fx [(true, call)] [] tokens [] → CallInv codec (.failing what) fx
  | committed {call : Call} {fx : List Effect} {tokens : List Bytes} {x : ChatExchange}
      {streaming : Bool} :
    Tally codec call fx [(streaming, call)] [(streaming, some x.answer)] tokens [x] →
    (streaming = true → tokens.flatten = x.answer) → CallInv codec .over fx
  | refused {call : Call} {fx : List Effect} {tokens : List Bytes} {streaming : Bool} :
    Tally codec call fx [(streaming, call)] [(streaming, none)] tokens [] → CallInv codec .over fx
  | looked {fx : List Effect} :
    fx.filterMap Effect.began? = [] → .overflow ∉ fx → CallInv codec .over fx

section

variable {codec : JsonCodec} {fx : List Effect} {phase : Phase}

theorem CallInv.noOverflow (inv : CallInv codec phase fx) : .overflow ∉ fx := by
  cases inv with
  | idle => exact List.not_mem_nil
  | unlocked tally | answered tally | failing tally | committed tally | refused tally =>
      exact tally.noOverflow
  | looked _ none => exact none

theorem CallInv.of_unlocked {call : Call} (inv : CallInv codec (.unlocked call) fx) :
    Tally codec call fx [(true, call)] [] [] [] := by
  cases inv with
  | unlocked tally => exact tally

theorem CallInv.of_answered {answer : Bytes} (inv : CallInv codec (.answered answer) fx) :
    ∃ call x, x.answer = answer ∧ Tally codec call fx [(true, call)] [] [] [x] := by
  cases inv with
  | answered tally => exact ⟨_, _, rfl, tally⟩

theorem CallInv.of_failing {what : Bytes} (inv : CallInv codec (.failing what) fx) :
    ∃ call tokens, Tally codec call fx [(true, call)] [] tokens [] := by
  cases inv with
  | failing tally => exact ⟨_, _, tally⟩

/-- A call whose tally has the right result for what the queue accepted. -/
theorem Tally.conducted {streaming : Bool} {call : Call} {finished : Prop} {tokens : List Bytes}
    {taken : List ChatExchange} {results : List (Bool × Option Bytes)}
    (tally : Tally codec call fx [(streaming, call)] results tokens taken)
    (ended : finished → ∃ answer, results = [(streaming, answer)]) (running : ¬ finished → results = [])
    (once : taken.length ≤ 1)
    (succeeded : ∀ s answer, (s, some answer) ∈ results →
      (∃ x, taken = [x] ∧ x.answer = answer) ∧ (s = true → tokens.flatten = answer))
    (failed : (streaming, none) ∈ results → taken = []) :
    Conducted codec streaming call finished fx where
  ended := by rwa [tally.results]
  running := by rwa [tally.results]
  once := by rwa [tally.accepted]
  succeeded answer member := by
    rw [tally.results] at member
    rw [tally.accepted]
    exact (succeeded streaming answer member).1
  failed := by rwa [tally.results, tally.accepted]
  deltas answer member := by
    have result : (true, some answer) ∈ fx.filterMap Effect.result? :=
      List.mem_filterMap.mpr ⟨_, member, rfl⟩
    rw [tally.results] at result
    rw [tally.tokens]
    exact (succeeded true answer result).2 rfl
  written := tally.written

theorem Tally.same_call {streaming streaming' : Bool} {call call' : Call} {tokens : List Bytes}
    {taken : List ChatExchange} {results : List (Bool × Option Bytes)}
    (tally : Tally codec call fx [(streaming, call)] results tokens taken)
    (began : .began streaming' call' ∈ fx) : streaming' = streaming ∧ call' = call := by
  have started : (streaming', call') ∈ fx.filterMap Effect.began? :=
    List.mem_filterMap.mpr ⟨_, began, rfl⟩
  rw [tally.began] at started
  cases List.mem_singleton.mp started
  exact ⟨rfl, rfl⟩

theorem CallInv.conducted {streaming : Bool} {call : Call} (inv : CallInv codec phase fx)
    (began : .began streaming call ∈ fx) :
    Conducted codec streaming call (phase = .over) fx := by
  cases inv with
  | idle => cases began
  | unlocked tally | failing tally =>
      obtain ⟨rfl, rfl⟩ := tally.same_call began
      exact tally.conducted nofun (fun _ => rfl) (by simp) (by simp) (by simp)
  | answered tally =>
      obtain ⟨rfl, rfl⟩ := tally.same_call began
      exact tally.conducted nofun (fun _ => rfl) (by simp) (by simp) (by simp)
  | @committed _ _ tokens x _ tally deltas =>
      obtain ⟨rfl, rfl⟩ := tally.same_call began
      refine tally.conducted (fun _ => ⟨_, rfl⟩) (absurd rfl) (by simp) (fun s answer member => ?_)
        (by simp)
      cases List.mem_singleton.mp member
      exact ⟨⟨x, rfl, rfl⟩, deltas⟩
  | refused tally =>
      obtain ⟨rfl, rfl⟩ := tally.same_call began
      exact tally.conducted (fun _ => ⟨_, rfl⟩) (absurd rfl) (by simp) (by simp) (by simp)
  | looked none _ =>
      have started : (streaming, call) ∈ fx.filterMap Effect.began? :=
        List.mem_filterMap.mpr ⟨_, began, rfl⟩
      rw [none] at started
      cases started

end

/-! ## The invariant -/

section

variable {codec : JsonCodec} {start : AIHelper} {tr : List Obs}

theorem effectsOf_append (n m : Nat) (out : List Effect) :
    effectsOf n (tr ++ out.map (m, ·)) = effectsOf n tr ++ if m = n then out else [] := by
  unfold effectsOf
  rw [List.filterMap_append]
  by_cases same : m = n <;> simp [List.filterMap_map, same]

theorem accepted_append (m : Nat) (out : List Effect) :
    accepted codec (tr ++ out.map (m, ·)) =
      accepted codec tr ++ out.filterMap (Effect.accepted? codec) := by
  simp [accepted, List.filterMap_append, List.filterMap_map]

/-- A step of call `n` is a step of no other call. -/
theorem World.advance_calls {w : World} (helper : AIHelper) {n : Nat} {phase : Phase}
    {out : List Effect} {P : Phase → List Effect → Prop}
    (calls : ∀ m, P (w.phase m) (effectsOf m tr)) (call : P phase (effectsOf n tr ++ out)) (m : Nat) :
    P ((w.advance helper n phase).phase m) (effectsOf m (tr ++ out.map (n, ·))) := by
  rw [effectsOf_append]
  by_cases here : n = m
  · subst here
    simpa [World.advance] using call
  · simpa [World.advance, here, Function.update_of_ne (Ne.symm here)] using calls m

theorem World.advance_idle {w : World} (helper : AIHelper) {n m next : Nat} {phase : Phase}
    (fresh : ∀ m, w.nextCall ≤ m → w.phase m = .idle) (later : w.nextCall ≤ next) (known : n < next)
    (high : next ≤ m) : (w.advance helper n phase).phase m = .idle := by
  have other : m ≠ n := by omega
  have idle := fresh m (later.trans high)
  simpa [World.advance, Function.update_of_ne other] using idle

/-- The helper against the trace. -/
structure Inv (codec : JsonCodec) (start : AIHelper) (w : World) (tr : List Obs) : Prop where
  history : w.helper.history = (historyAfter codec start tr).history
  canonical : w.helper.Canonical
  calls : ∀ n, CallInv codec (w.phase n) (effectsOf n tr)
  fresh : ∀ n, w.nextCall ≤ n → w.phase n = .idle
  growing : ∀ before x after, accepted codec tr = before ++ x :: after →
    x.Valid ∧ ∀ message ∈ (before.foldl .append start).messages, message.2 < x.ts

theorem Inv.initial (canonical : start.Canonical) : Inv codec start { helper := start } [] where
  history := rfl
  canonical := canonical
  calls _ := .idle
  fresh _ _ := rfl
  growing before x after split := by cases before <;> cases split

variable {w : World} {helper : AIHelper} {n : Nat} {phase : Phase} {out : List Effect}

theorem AIHelper.append_history {helper' : AIHelper} (same : helper.history = helper'.history)
    (x : ChatExchange) : (helper.append x).history = (helper'.append x).history := by
  have messages : helper.messages = helper'.messages := congrArg (·.messages) same
  have roles : helper.messageRoles_ = helper'.messageRoles_ := congrArg (·.messageRoles_) same
  simp only [AIHelper.append, AIHelper.history, messages, roles]

theorem Appended.valid {call : Call} {tokens : List Bytes} {x : ChatExchange} {helper' : AIHelper}
    (appended : Appended codec call helper tokens x out helper') : x.Valid := by
  obtain ⟨asked, sent, -, -, sends⟩ := appended.effects
  cases sends with
  | accepted written => exact written.writtenAs.valid

/-- A canonical history can be shown. -/
theorem AIHelper.Canonical.getHistorySnapshot_eq (canonical : helper.Canonical) :
    AIHelper.getHistorySnapshot helper = ([], helper, .ok helper.shown) := by
  have sizes : helper.messages.length = helper.messageRoles_.length := by
    simp [canonical.roles]
  unfold AIHelper.getHistorySnapshot
  rw [current_bind_eq, if_neg (not_not.mpr sizes)]
  rfl

/-- A step of call `n`: it appends what the queue accepted, at most one exchange. -/
theorem Inv.advance {f : List Effect} (inv : Inv codec start w tr)
    (moved : helper.history = w.helper.history ∧ f.filterMap (Effect.accepted? codec) = [] ∨
      ∃ x, helper.history = (w.helper.append x).history ∧ x.Valid ∧
        (∀ message ∈ w.helper.messages, message.2 < x.ts) ∧
        f.filterMap (Effect.accepted? codec) = [x])
    (call : CallInv codec phase (effectsOf n tr ++ f)) {next : Nat} (later : w.nextCall ≤ next)
    (known : n < next) :
    Inv codec start { w.advance helper n phase with nextCall := next } (tr ++ f.map (n, ·)) where
  history := by
    rcases moved with ⟨same, none⟩ | ⟨x, appended, -, -, one⟩
    · rw [historyAfter, accepted_append, none, List.append_nil]
      exact same.trans inv.history
    · rw [historyAfter, accepted_append, one, List.foldl_append]
      exact appended.trans (AIHelper.append_history inv.history x)
  canonical := by
    rcases moved with ⟨same, -⟩ | ⟨x, appended, valid, past, -⟩
    · exact inv.canonical.of_history same
    · exact (inv.canonical.append valid past).of_history appended
  calls := World.advance_calls helper inv.calls call
  fresh _ high := World.advance_idle helper inv.fresh later known high
  growing before x after split := by
    rcases moved with ⟨-, none⟩ | ⟨new, -, valid, past, one⟩
    · rw [accepted_append, none, List.append_nil] at split
      exact inv.growing before x after split
    · rw [accepted_append, one] at split
      rcases List.append_eq_append_iff.mp split with ⟨between, rfl, tail⟩ | ⟨between, eq, tail⟩
      · cases between with
        | nil =>
            cases tail
            rw [List.append_nil]
            refine ⟨valid, ?_⟩
            have messages : w.helper.messages = (historyAfter codec start tr).messages :=
              congrArg (·.messages) inv.history
            rw [messages] at past
            exact past
        | cons y rest =>
            cases rest <;> cases tail
      · cases between with
        | nil =>
            cases tail
            rw [List.append_nil] at eq
            have messages : w.helper.messages = (historyAfter codec start tr).messages :=
              congrArg (·.messages) inv.history
            rw [messages, historyAfter, eq] at past
            exact ⟨valid, past⟩
        | cons y rest =>
            obtain ⟨rfl, -⟩ := List.cons.inj tail
            exact inv.growing before x rest eq

variable {w' : World} {o : List Obs}

theorem Inv.step (lawful : codec.Lawful) (inv : Inv codec start w tr) (step : Step codec w o w') :
    Inv codec start w' (tr ++ o) := by
  have fresh : effectsOf w.nextCall tr = [] := by
    have quiet := inv.calls w.nextCall
    rw [inv.fresh _ le_rfl] at quiet
    generalize effectsOf w.nextCall tr = fx at quiet
    cases quiet
    rfl
  have known {n : Nat} (busy : w.phase n ≠ .idle) : n < w.nextCall := by
    by_contra unknown
    exact busy (inv.fresh n (not_lt.mp unknown))
  cases step with
  | chat call env clock ran =>
      rcases chat_spec lawful inv.canonical clock ran with ⟨⟨what, rfl⟩, kept⟩ | ⟨x, rfl, appended⟩
      · have tally := ((Tally.start false).append kept.effects.tally).append
          (show Tally codec call [.threw what] [] _ [] [] from .result rfl)
        refine inv.advance (.inl ⟨kept.history, tally.accepted⟩) ?_ (Nat.le_succ _) (Nat.lt_succ_self _)
        rw [fresh]
        exact .refused tally
      · have tally := ((Tally.start false).append appended.effects.tally).append
          (show Tally codec call [.returned x.answer] [] _ [] [] from .result rfl)
        refine inv.advance (.inr ⟨x, appended.history, appended.valid, appended.later, tally.accepted⟩)
          ?_ (Nat.le_succ _) (Nat.lt_succ_self _)
        rw [fresh]
        exact .committed tally nofun
  | chatStream call env clock ran ended =>
      rcases chatStream_spec lawful inv.canonical clock ran with
        ⟨what, tokens, rfl, kept⟩ | ⟨rfl, kept⟩ | ⟨x, tokens, before, rfl, rfl, told, appended⟩
      · cases ended
        have tally := (Tally.start true).append kept.effects.tally
        refine inv.advance (.inl ⟨kept.history, ?_⟩) ?_ (Nat.le_succ _) (Nat.lt_succ_self _)
        · simpa using tally.accepted
        · rw [fresh]
          exact .failing (by simpa using tally)
      · cases ended
        have tally := (Tally.start true).append kept.effects.tally
        refine inv.advance (.inl ⟨kept.history, ?_⟩) ?_ (Nat.le_succ _) (Nat.lt_succ_self _)
        · simpa using tally.accepted
        · rw [fresh]
          exact .unlocked (by simpa using tally)
      · cases ended
        have tally := ((Tally.start true).append appended.effects.tally).append
          (show Tally codec call [.onDone x.answer] [] _ [] [] from .result rfl)
        refine inv.advance (.inr ⟨x, appended.history, appended.valid, appended.later, ?_⟩)
          ?_ (Nat.le_succ _) (Nat.lt_succ_self _)
        · simpa using tally.accepted
        · rw [fresh]
          exact .committed (by simpa using tally) fun _ => told.symm
  | @resume n call _ _ _ _ _ env unlocked clock ran ended =>
      have earlier := (unlocked ▸ inv.calls n).of_unlocked
      have known : n < w.nextCall := known (unlocked ▸ nofun)
      rcases chat_spec lawful inv.canonical clock ran with ⟨⟨what, rfl⟩, kept⟩ | ⟨x, rfl, appended⟩
      · cases ended
        refine inv.advance (.inl ⟨kept.history, ?_⟩) ?_ le_rfl known
        · simpa using kept.effects.tally.accepted
        · exact .failing (by simpa using earlier.append kept.effects.tally)
      · cases ended
        refine inv.advance (.inr ⟨x, appended.history, appended.valid, appended.later, ?_⟩) ?_ le_rfl known
        · simpa using appended.effects.tally.accepted
        · exact .answered (by simpa using earlier.append appended.effects.tally)
  | @callBack n answer answered =>
      obtain ⟨call, x, rfl, earlier⟩ := (answered ▸ inv.calls n).of_answered
      have tally := (earlier.append (.onTokens [x.answer])).append
        (show Tally codec call [.onDone x.answer] [] _ [] [] from .result rfl)
      refine inv.advance (f := [.onToken x.answer, .onDone x.answer]) (.inl ⟨rfl, rfl⟩) ?_ le_rfl
        (known (answered ▸ nofun))
      exact .committed (by simpa using tally) fun _ => by simp
  | @report n what failing =>
      obtain ⟨call, tokens, earlier⟩ := (failing ▸ inv.calls n).of_failing
      have tally := earlier.append
        (show Tally codec call [.onError what] [] _ [] [] from .result rfl)
      refine inv.advance (f := [.onError what]) (.inl ⟨rfl, rfl⟩) ?_ le_rfl (known (failing ▸ nofun))
      exact .refused (by simpa using tally)
  | @getHistorySnapshot helper out history ran =>
      rw [inv.canonical.getHistorySnapshot_eq] at ran
      cases ran
      refine inv.advance (f := [.snapshot w.helper.shown]) (.inl ⟨rfl, rfl⟩) ?_ (Nat.le_succ _)
        (Nat.lt_succ_self _)
      rw [fresh]
      exact .looked rfl (by simp)
  | refuseSnapshot ran =>
      rw [inv.canonical.getHistorySnapshot_eq] at ran
      cases ran

/-! ## Requests and snapshots -/

/-- In `out`, what shows a history comes before the acceptance, and fits the history before. -/
theorem fits_of_split {requests rest pre post : List Effect} {e : Effect}
    (fits : ∀ e ∈ requests, e.Fits helper ∧ e.accepted? codec = none)
    (other : ∀ e ∈ rest, ∀ helper, e.Fits helper) (split : requests ++ rest = pre ++ e :: post) :
    (e.Fits helper ∧ pre.filterMap (Effect.accepted? codec) = []) ∨ ∀ helper, e.Fits helper := by
  rcases List.append_eq_append_iff.mp split with ⟨between, rfl, tail⟩ | ⟨between, eq, tail⟩
  · exact .inr (other e (tail ▸ by simp))
  · cases between with
    | nil => exact .inr (other e ((show e :: post = rest from tail) ▸ List.mem_cons_self))
    | cons y later =>
        obtain ⟨rfl, -⟩ := List.cons.inj tail
        refine .inl ⟨(fits e (eq ▸ by simp)).1, List.filterMap_eq_nil_iff.mpr fun e' member => ?_⟩
        exact (fits e' (eq ▸ List.mem_append_left _ member)).2

theorem Preparatory.fits {e : Effect} {helper' : AIHelper} (fine : Preparatory helper'.history e)
    (canonical : helper'.Canonical) (same : helper'.history = helper.history) :
    e.Fits helper ∧ e.accepted? codec = none := by
  have messages : helper'.messages = helper.messages := congrArg (·.messages) same
  have roles : helper'.messageRoles_ = helper.messageRoles_ := congrArg (·.messageRoles_) same
  have turns : helper'.turns = helper.turns := by rw [AIHelper.turns, roles, messages]; rfl
  cases e with
  | asked payload =>
      have canonical' : helper'.history.Canonical := canonical.of_history (Eq.refl helper'.history)
      obtain ⟨prompt, sent⟩ := fine canonical'
      exact ⟨⟨prompt, sent.trans (by rw [← turns]; rfl)⟩, rfl⟩
  | generated key history =>
      obtain ⟨question, eq⟩ := fine
      exact ⟨⟨question, eq.trans (by rw [← messages]; rfl)⟩, rfl⟩
  | _ => exact fine.elim

theorem Shape.fits_of_split {call : Call} {tokens : List Bytes} {x : Option ChatExchange}
    {helper' : AIHelper} {head last pre post : List Effect} {e : Effect}
    (shape : Shape codec call helper' tokens x out) (canonical : helper'.Canonical)
    (same : helper'.history = helper.history)
    (start : ∀ e ∈ head, (∀ helper, e.Fits helper) ∧ e.accepted? codec = none)
    (result : ∀ e ∈ last, ∀ helper, e.Fits helper)
    (split : head ++ out ++ last = pre ++ e :: post) :
    (e.Fits helper ∧ pre.filterMap (Effect.accepted? codec) = []) ∨ ∀ helper, e.Fits helper := by
  obtain ⟨asked, sent, rfl, fits, sends⟩ := shape
  have split : (head ++ asked) ++ (tokens.map .onToken ++ sent ++ last) = pre ++ e :: post := by
    simpa using split
  refine AIService.Chat.fits_of_split (fun e member => ?_) (fun e member => ?_) split
  · rcases List.mem_append.mp member with began | request
    · exact ⟨(start e began).1 helper, (start e began).2⟩
    · exact (fits e request).fits canonical same
  · rcases List.mem_append.mp member with earlier | final
    · rcases List.mem_append.mp earlier with token | published
      · obtain ⟨delta, -, rfl⟩ := List.mem_map.mp token
        exact fun _ => trivial
      · cases sends with
        | nothing => cases published
        | refused | accepted =>
            cases List.mem_singleton.mp published
            exact fun _ => trivial
    · exact result e final

/-- Each effect of a step fits the history before it. -/
theorem Inv.step_fits (lawful : codec.Lawful) (inv : Inv codec start w tr) (step : Step codec w o w')
    {pre post : List Obs} {e : Obs} (split : o = pre ++ e :: post) :
    e.2.Fits (historyAfter codec start (tr ++ pre)) := by
  have shows {n : Nat} {f : List Effect} (all : o = f.map (n, ·))
      (fine : ∀ pre e post, f = pre ++ e :: post →
        (e.Fits (historyAfter codec start tr) ∧ pre.filterMap (Effect.accepted? codec) = []) ∨
          ∀ helper, e.Fits helper) : e.2.Fits (historyAfter codec start (tr ++ pre)) := by
    rw [all] at split
    obtain ⟨pre, rest, rfl, rfl, tail⟩ := List.map_eq_append_iff.mp split
    obtain ⟨e, post, rfl, rfl, -⟩ := List.map_eq_cons_iff.mp tail
    rcases fine pre e post rfl with ⟨fits, none⟩ | always
    · rw [historyAfter, accepted_append, none, List.append_nil]
      exact fits
    · exact always _
  have begins (streaming : Bool) (call : Call) : ∀ e ∈ [Effect.began streaming call],
      (∀ helper, e.Fits helper) ∧ e.accepted? codec = none := by
    intro e member
    cases List.mem_singleton.mp member
    exact ⟨fun _ => trivial, rfl⟩
  cases step with
  | @chat _ _ r call env clock ran =>
      have result : ∀ e ∈ [chatResult r], ∀ helper, e.Fits helper := by
        intro e member helper
        cases List.mem_singleton.mp member
        rcases r with (_ | _) | _ <;> trivial
      refine shows rfl fun pre e post split => ?_
      rcases chat_spec lawful inv.canonical clock ran with ⟨-, kept⟩ | ⟨x, -, appended⟩
      · exact kept.effects.fits_of_split inv.canonical inv.history (begins false call) result split
      · exact appended.effects.fits_of_split inv.canonical inv.history (begins false call) result split
  | chatStream call env clock ran ended =>
      refine shows rfl fun pre e post split => ?_
      rcases chatStream_spec lawful inv.canonical clock ran with
        ⟨what, tokens, rfl, kept⟩ | ⟨rfl, kept⟩ | ⟨x, tokens, before, rfl, rfl, told, appended⟩
      · cases ended
        exact kept.effects.fits_of_split inv.canonical inv.history (begins true call) (by simp) split
      · cases ended
        exact kept.effects.fits_of_split inv.canonical inv.history (begins true call) (by simp) split
      · cases ended
        have result : ∀ e ∈ [Effect.onDone x.answer], ∀ helper, e.Fits helper := by
          intro e member helper
          cases List.mem_singleton.mp member
          trivial
        exact appended.effects.fits_of_split inv.canonical inv.history (begins true call) result
          (by simpa using split)
  | @resume n call _ _ _ _ _ env unlocked clock ran ended =>
      refine shows rfl fun pre e post split => ?_
      rcases chat_spec lawful inv.canonical clock ran with ⟨⟨what, rfl⟩, kept⟩ | ⟨x, rfl, appended⟩
      · cases ended
        exact kept.effects.fits_of_split inv.canonical inv.history (List.forall_mem_nil _)
          (by simp) split
      · cases ended
        exact appended.effects.fits_of_split inv.canonical inv.history (List.forall_mem_nil _)
          (by simp) split
  | @callBack n answer answered =>
      refine shows (f := [.onToken answer, .onDone answer]) rfl fun pre e post split => .inr ?_
      have member : e ∈ [.onToken answer, .onDone answer] := split ▸ by simp
      simp only [List.mem_cons, List.not_mem_nil, or_false] at member
      rcases member with rfl | rfl <;> exact fun _ => trivial
  | @report n what failing =>
      refine shows (f := [.onError what]) rfl fun pre e post split => .inr ?_
      have member : e ∈ [.onError what] := split ▸ by simp
      cases List.mem_singleton.mp member
      exact fun _ => trivial
  | @getHistorySnapshot helper out history ran =>
      rw [inv.canonical.getHistorySnapshot_eq] at ran
      cases ran
      refine shows (f := [.snapshot w.helper.shown]) rfl fun pre e post split => .inl ?_
      obtain ⟨rfl, eq⟩ | ⟨_, -, impossible⟩ := List.cons_eq_append_iff.mp split
      · cases eq
        have messages : w.helper.messages = (historyAfter codec start tr).messages :=
          congrArg (·.messages) inv.history
        have roles : w.helper.messageRoles_ = (historyAfter codec start tr).messageRoles_ :=
          congrArg (·.messageRoles_) inv.history
        exact ⟨by rw [AIHelper.shown, messages, roles]; rfl, rfl⟩
      · exact absurd impossible.symm (by simp)
  | refuseSnapshot ran =>
      rw [inv.canonical.getHistorySnapshot_eq] at ran
      cases ran

/-- Over any interleaving of calls on a helper with a canonical history: the history is
what it was with the exchanges that the queue accepted appended in order, each past every
earlier message; no addition overflows; each call has one result, succeeds exactly when the
queue accepted its exchange, and then streamed its answer; and every request and snapshot
shows the history of its moment, each message under its stored role. -/
theorem exchange_atomicity (lawful : codec.Lawful) (canonical : start.Canonical)
    (run : Run (Step codec) { helper := start } tr w) :
    w.helper.history = (historyAfter codec start tr).history ∧ w.helper.Canonical ∧
    (∀ before x after, accepted codec tr = before ++ x :: after →
      x.Valid ∧ ∀ message ∈ (before.foldl .append start).messages, message.2 < x.ts) ∧
    (∀ n, (n, .overflow) ∉ tr) ∧
    (∀ n streaming call, (n, .began streaming call) ∈ tr →
      Conducted codec streaming call (w.phase n = .over) (effectsOf n tr)) ∧
    ∀ before o after, tr = before ++ o :: after → o.2.Fits (historyAfter codec start before) := by
  have safe {tr w} (run : Run (Step codec) { helper := start } tr w) : Inv codec start w tr :=
    run.invariant (I := fun w tr => Inv codec start w tr) (.initial canonical) (Inv.step lawful)
  have inv := safe run
  have member {n : Nat} {e : Effect} (shown : (n, e) ∈ tr) : e ∈ effectsOf n tr :=
    List.mem_filterMap.mpr ⟨_, shown, if_pos rfl⟩
  refine ⟨inv.history, inv.canonical, inv.growing, fun n fault => ?_, fun n streaming call began => ?_,
    fun before o after split => ?_⟩
  · exact (inv.calls n).noOverflow (member fault)
  · exact (inv.calls n).conducted (member began)
  · exact run.observed (E := fun before o => o.2.Fits (historyAfter codec start before))
      (fun earlier step pre e post split => (safe earlier).step_fits lawful step split) split

end

theorem exchange_atomicity_first_chat : ∃ tr w, Run (Step flatCodec) { helper := {} } tr w ∧
    w.helper.messages = [(bytes "hi", 5), (bytes "yo", 6)] ∧
    w.helper.history = (historyAfter flatCodec {} tr).history := by
  have canonical : ({} : AIHelper).Canonical := ⟨rfl, rfl, by simp, .nil⟩
  have ran (result : List Effect × AIHelper × Except Fault Bytes) :
      result = (result.1, result.2.1, result.2.2) := rfl
  have run : Run (Step flatCodec) { helper := {} } _ _ :=
    .single (.chat firstCall firstEnvironment (by decide) (ran _))
  exact ⟨_, _, run, by decide +kernel, (exchange_atomicity flatCodec_lawful canonical run).1⟩

end AIService.Chat
