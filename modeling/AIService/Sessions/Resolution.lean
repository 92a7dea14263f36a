import AIService.Sessions.Identity
import Mathlib.Data.List.TakeWhile

/-!
# What `getSession` answers

For every run: a cookie resolves exactly while its session is alive, a call that finds
nothing ends in a fresh session with its own cookie or in a 503, and an identity that
was once found dead stays dead.
-/

namespace AIService.Sessions

open Http

/-! ## The look-up -/

theorem afterFirst_append {needle : Bytes} (nonempty : needle ≠ []) (rest : Bytes) :
    afterFirst needle (needle ++ rest) = some rest := by
  cases needle with
  | nil => exact absurd rfl nonempty
  | cons b needle => simp [afterFirst]

theorem getSessionIdFromCookie_own (c : Bytes) :
    getSessionIdFromCookie (bytes "sessionId=" ++ c) = c.takeWhile (· ≠ semicolon) := by
  rw [getSessionIdFromCookie, afterFirst_append (by decide)]

/-- A cookie resolves to a session exactly while it is alive. -/
theorem Inv.lookup_iff {maxAge : Time} {w : World} {tr : List Obs} (inv : Inv maxAge w tr)
    {cookie : Bytes} {now : Time} {ref : Ref} (later : w.clock ≤ now) :
    (w.lookup cookie now).1 = some ref ↔
      Alive maxAge tr (getSessionIdFromCookie cookie) ref now := by
  rw [alive_iff inv.once]
  constructor
  · intro resolved
    obtain ⟨found, young, -⟩ := lookup_some (Prod.ext resolved rfl)
    obtain ⟨last, named, expiry⟩ := inv.stored _ ref found
    exact ⟨last, named, expiry ▸ young⟩
  · rintro ⟨last, named, soon⟩
    have found : w.storage.sessions.find? (getSessionIdFromCookie cookie) = some ref := by
      rcases inv.kept _ ref last named with found | old
      · exact found
      · exact absurd soon (Nat.not_lt.mpr (old.trans later))
    obtain ⟨last', named', expiry⟩ := inv.stored _ ref found
    rw [named] at named'
    cases named'
    obtain ⟨draws, own⟩ := inv.status_generated named
    cases looked : w.lookup cookie now with
    | mk answer w' =>
        cases answer with
        | some r =>
            rw [(lookup_some looked).1] at found
            exact found
        | none =>
            obtain ⟨storage, t, -, pruned, absent, -⟩ := lookup_none later looked
            obtain ⟨rfl, gone⟩ := absent (own ▸ generateSessionId_ne_nil draws)
            rcases pruned.expired _ ref found with still | old
            · rw [gone] at still
              cases still
            · rw [expiry] at old
              exact absurd soon (Nat.not_lt.mpr old)

/-- A living session is named by its whole id. -/
theorem Inv.alive_own {maxAge : Time} {w : World} {tr : List Obs} (inv : Inv maxAge w tr)
    {c : Bytes} {now : Time} {ref : Ref} :
    Alive maxAge tr (c.takeWhile (· ≠ semicolon)) ref now ∧ (w.heap ref).sessionId = c ↔
      Alive maxAge tr c ref now := by
  constructor
  · rintro ⟨alive, own⟩
    obtain ⟨last, named, -⟩ := (alive_iff inv.once).mp alive
    rw [← (inv.status_named named).2.symm.trans own]
    exact alive
  · intro alive
    obtain ⟨last, named, -⟩ := (alive_iff inv.once).mp alive
    obtain ⟨draws, rfl⟩ := inv.status_generated named
    have whole : (generateSessionId draws).takeWhile (· ≠ semicolon) = generateSessionId draws := by
      rw [List.takeWhile_eq_self_iff]
      intro b member
      have other : b ≠ semicolon := by
        rintro rfl
        exact semicolon_not_mem_generateSessionId draws member
      exact decide_eq_true other
    rw [whole]
    exact ⟨alive, (inv.status_named named).2⟩

/-! ## The calls of `getSession` -/

def Obs.resumesCall (n : Nat) : Obs → Bool
  | .resumed m .. => m == n
  | _ => false

def Obs.missesCall (n : Nat) : Obs → Bool
  | .missed m .. => m == n
  | _ => false

/-- A call that missed has returned a new session or thrown. -/
def Obs.endsCall (n : Nat) : Obs → Bool
  | .issued m .. | .refused m _ => m == n
  | _ => false

/-- A call looks up once, and what it missed it is still making good or has ended. -/
structure Ledger (w : World) (tr : List Obs) : Prop where
  balanced : ∀ n, tr.countP (Obs.missesCall n) =
    tr.countP (Obs.endsCall n) + w.calls.countP (·.number = n)
  single : ∀ n, tr.countP (Obs.resumesCall n) + tr.countP (Obs.missesCall n) ≤
    if n < w.nextCall then 1 else 0
  /-- A call still has the response that it was given. -/
  given : ∀ call ∈ w.calls, ∃ id at_, .missed call.number id at_ call.resp ∈ tr

theorem Ledger.initial (capacity : Nat) (start : Time) : Ledger (.initial capacity start) [] where
  balanced := fun _ => rfl
  single := fun _ => Nat.zero_le _
  given := fun _ member => absurd member List.not_mem_nil

section ledger

variable {maxAge : Time} {w w' : World} {tr : List Obs}

/-- Steps that start and end no call. -/
theorem Ledger.idle (ledger : Ledger w tr) (calls : w'.calls = w.calls)
    (nextCall : w'.nextCall = w.nextCall) : Ledger w' tr where
  balanced := fun n => calls ▸ ledger.balanced n
  single := fun n => nextCall ▸ ledger.single n
  given := fun call member => ledger.given call (calls ▸ member)

theorem Ledger.given_later (ledger : Ledger w tr) (out : List Obs) {call : Call}
    (member : call ∈ w.calls) : ∃ id at_, .missed call.number id at_ call.resp ∈ tr ++ out := by
  obtain ⟨id, at_, observed⟩ := ledger.given call member
  exact ⟨id, at_, List.mem_append_left out observed⟩

theorem Ledger.ends (ledger : Ledger w tr) {call : Call} {calls : List Call} {o : Obs}
    (running : w.calls.Perm (call :: calls)) (own : ∀ n, o.endsCall n = (call.number == n))
    (misses : ∀ n, o.missesCall n = false) (resumes : ∀ n, o.resumesCall n = false)
    (left : w'.calls = calls) (nextCall : w'.nextCall = w.nextCall) :
    Ledger w' (tr ++ [o]) where
  balanced := fun n => by
    have balanced := ledger.balanced n
    rw [running.countP_eq, List.countP_cons] at balanced
    rw [List.countP_append, List.countP_append, List.countP_singleton, List.countP_singleton,
      left, own, misses, balanced]
    simp only [beq_iff_eq, decide_eq_true_eq, Bool.false_eq_true, if_false]
    omega
  single := fun n => by
    rw [List.countP_append, List.countP_append, List.countP_singleton, List.countP_singleton,
      misses, resumes, nextCall]
    exact ledger.single n
  given := fun call' member =>
    ledger.given_later [o] (running.mem_iff.mpr (List.mem_cons_of_mem call (left ▸ member)))

theorem Ledger.step (ledger : Ledger w tr) {out : List Obs} (step : Step maxAge w out w') :
    Ledger w' (tr ++ out) := by
  cases step with
  | @resume w' ref cookie resp now later looked =>
      obtain ⟨-, -, rfl⟩ := lookup_some looked
      refine ⟨fun n => ?_, fun n => ?_, fun call member => ledger.given_later _ member⟩
      · simpa [List.countP_append, Obs.missesCall, Obs.endsCall] using ledger.balanced n
      · have single := ledger.single n
        simp only [List.countP_append, List.countP_singleton, Obs.resumesCall, Obs.missesCall,
          beq_iff_eq, Bool.false_eq_true, if_false]
        split at single <;> split <;> split <;> omega
  | @miss w' cookie resp now later looked =>
      obtain ⟨storage, t, -, -, -, rfl⟩ := lookup_none later looked
      refine ⟨fun n => ?_, fun n => ?_, fun call member => ?_⟩
      · have balanced := ledger.balanced n
        simp only [List.countP_append, List.countP_cons, List.countP_nil, Obs.missesCall,
          Obs.endsCall, beq_iff_eq, Bool.false_eq_true, if_false, decide_eq_true_eq]
        omega
      · have single := ledger.single n
        simp only [List.countP_append, List.countP_singleton, Obs.resumesCall, Obs.missesCall,
          beq_iff_eq, Bool.false_eq_true, if_false]
        split at single <;> split <;> split <;> omega
      · rcases List.mem_cons.mp member with rfl | earlier
        · exact ⟨_, _, List.mem_append_right tr (List.mem_singleton_self _)⟩
        · exact ledger.given_later _ earlier
  | construct draws running later unused =>
      rw [List.append_nil]
      refine ⟨fun n => ?_, ledger.single, fun call member => ?_⟩
      · have balanced := ledger.balanced n
        rw [running.countP_eq, List.countP_cons] at balanced
        rw [balanced, List.countP_cons]
      · rcases List.mem_cons.mp member with rfl | other
        · exact ledger.given ⟨_, _, .missed⟩ (running.mem_iff.mpr List.mem_cons_self)
        · exact ledger.given call (running.mem_iff.mpr (List.mem_cons_of_mem _ other))
  | issue running later inTime admitted =>
      exact ledger.ends running (fun _ => rfl) (fun _ => rfl) (fun _ => rfl) rfl rfl
  | refuse running later inTime refused =>
      exact ledger.ends running (fun _ => rfl) (fun _ => rfl) (fun _ => rfl) rfl rfl
  | getValue key below =>
      refine ⟨fun n => ?_, fun n => ?_, fun call member => ledger.given_later _ member⟩
      · simpa [List.countP_append, Obs.missesCall, Obs.endsCall] using ledger.balanced n
      · simpa [List.countP_append, Obs.missesCall, Obs.resumesCall] using ledger.single n
  | destroySession id =>
      refine ⟨fun n => ?_, fun n => ?_, fun call member => ledger.given_later _ member⟩
      · simpa [List.countP_append, Obs.missesCall, Obs.endsCall] using ledger.balanced n
      · simpa [List.countP_append, Obs.missesCall, Obs.resumesCall] using ledger.single n
  | setValue | autoSave | updateSession | removeValue | clear | cleanExpiredSessions =>
      rw [List.append_nil]
      exact ledger.idle rfl rfl

end ledger

/-! ## Whole runs -/

/-- What an observation means, after the observations `before` it. -/
def Answered (maxAge : Time) (before : List Obs) : Obs → Prop
  | .resumed _ c at_ ref given resp => Alive maxAge before c ref at_ ∧ resp = given
  | .missed _ c at_ _ => ∀ ref, ¬ Alive maxAge before c ref at_
  | .issued call c ref _ resp => ¬ Issued before c ∧ (∀ o ∈ before, o.issues ref = false) ∧
      ∃ id at_ given, .missed call id at_ given ∈ before ∧
        resp = { given with
          headers := given.headers.insert (bytes "Set-Cookie")
            (bytes "sessionId=" ++ c ++ bytes "; Path=/; HttpOnly") }
  | .refused _ thrown => thrown.statusCode = 503
  | .destroyed _ | .gotValue .. => True

/-- A step shows at most one observation. -/
theorem Step.single_observation {maxAge : Time} {w w' : World} {out pre post : List Obs} {o : Obs}
    (step : Step maxAge w out w') (shown : out = pre ++ o :: post) :
    out = [o] ∧ pre = [] ∧ post = [] := by
  have short : out.length ≤ 1 := by
    cases step <;> simp
  subst shown
  rw [List.length_append, List.length_cons] at short
  have noPre : pre = [] := List.eq_nil_of_length_eq_zero (by omega)
  have noPost : post = [] := List.eq_nil_of_length_eq_zero (by omega)
  subst noPre noPost
  exact ⟨rfl, rfl, rfl⟩

section runs

variable {capacity : Nat} {maxAge start : Time} {w : World} {tr : List Obs}

theorem inv_of_run (run : Run (Step maxAge) (.initial capacity start) tr w) : Inv maxAge w tr :=
  run.invariant (.initial maxAge capacity start) fun inv step => inv.step step

theorem ledger_of_run (run : Run (Step maxAge) (.initial capacity start) tr w) : Ledger w tr :=
  run.invariant (.initial capacity start) fun ledger step => ledger.step step

theorem Inv.answered {before : List Obs} {o : Obs} {w' : World} (inv : Inv maxAge w before)
    (ledger : Ledger w before) (step : Step maxAge w [o] w') : Answered maxAge before o := by
  have after := inv.step step
  cases step with
  | resume cookie resp later looked =>
      exact ⟨(inv.lookup_iff later).mp (congrArg Prod.fst looked), rfl⟩
  | miss cookie resp later looked =>
      intro ref alive
      have resolved := (inv.lookup_iff later).mpr alive
      rw [looked] at resolved
      cases resolved
  | @issue number resp ref born calls storage mid now reading running later inTime admitted =>
      have held : ⟨number, resp, .constructed ref born⟩ ∈ w.calls :=
        running.mem_iff.mpr List.mem_cons_self
      obtain ⟨id, at_, given⟩ := ledger.given _ held
      refine ⟨fun ⟨call, r, born', resp', member⟩ => ?_, fun o member => ?_, id, at_, resp, given, rfl⟩
      · obtain ⟨front, back, rfl⟩ := List.append_of_mem member
        refine after.once front call r born' resp' _ (List.append_assoc ..) ?_
        exact ⟨number, ref, born, _, List.mem_append_right _ (List.mem_singleton_self _)⟩
      · obtain ⟨-, unissued⟩ := inv.not_issued_of_holds ref held (beq_self_eq_true ref)
        rw [Bool.eq_false_iff]
        exact List.countP_eq_zero.mp unissued o member
  | refuse => rfl
  | destroySession => trivial
  | getValue => trivial

/-- A look-up that missed an identity breaks its chain of accesses for good. -/
theorem not_alive_after_miss {before after : List Obs} {call : Nat} {c : Bytes} {at_ : Time}
    {given : HttpResponse}
    (issued : Issued before c) (dead : ∀ ref, ¬ Alive maxAge before c ref at_)
    (once : ∀ front call' r born resp back,
      before ++ .missed call c at_ given :: after = front ++ .issued call' c r born resp :: back →
        ¬ Issued back c) (ref : Ref) (now : Time) :
    ¬ Alive maxAge (before ++ .missed call c at_ given :: after) c ref now := by
  rintro ⟨front, call', born, resp, back, split, kept, unbroken⟩
  obtain ⟨call'', r, born'', resp'', member⟩ := issued
  rcases List.append_eq_append_iff.mp split with ⟨mid, rfl, cut⟩ | ⟨mid, rfl, cut⟩
  · -- the issue would come after the miss, and so after another issue
    obtain ⟨front', mid', rfl⟩ := List.append_of_mem member
    refine once front' call'' r born'' resp'' (mid' ++ .missed call c at_ given :: after) (by simp) ?_
    rw [cut]
    exact ⟨call', ref, born, resp, by simp⟩
  · cases mid with
    | nil =>
        cases cut
    | cons o rest =>
        obtain ⟨rfl, rfl⟩ := List.cons.inj cut
        refine dead ref ⟨front, call', born, resp, rest, rfl, fun gone => kept ?_, ?_⟩
        · exact List.mem_append_left _ gone
        · refine List.IsChain.prefix unbroken ?_
          simp [accessTimes, List.filterMap_append]

/-- In every reachable state: a `Cookie` header `sessionId=c` resolves to the session
admitted under `c` exactly while that session is alive; a call that resolves keeps its
response as it is, and a call that does not ends at most once, with a fresh session and the
response it was given, with the new cookie, or with a 503; a dead identity never resolves again. -/
theorem identity_lifetime (run : Run (Step maxAge) (.initial capacity start) tr w) :
    (∀ c now ref, w.clock ≤ now →
      ((w.lookup (bytes "sessionId=" ++ c) now).1 = some ref ∧ (w.heap ref).sessionId = c ↔
        Alive maxAge tr c ref now)) ∧
    (∀ before o after, tr = before ++ o :: after → Answered maxAge before o) ∧
    (∀ n, tr.countP (Obs.missesCall n) =
        tr.countP (Obs.endsCall n) + w.calls.countP (·.number = n) ∧
      tr.countP (Obs.resumesCall n) + tr.countP (Obs.missesCall n) ≤ 1) ∧
    (∀ before call c at_ given after, tr = before ++ .missed call c at_ given :: after → Issued before c →
      ∀ cookie now, getSessionIdFromCookie cookie = c → w.clock ≤ now →
        (w.lookup cookie now).1 = none) := by
  have inv := inv_of_run run
  have ledger := ledger_of_run run
  have answered : ∀ before o after, tr = before ++ o :: after → Answered maxAge before o := by
    intro before o after split
    refine run.observed (fun earlier step pre o post shown => ?_) split
    obtain ⟨rfl, rfl, rfl⟩ := step.single_observation shown
    rw [List.append_nil]
    exact (inv_of_run earlier).answered (ledger_of_run earlier) step
  refine ⟨fun c now ref later => ?_, answered, fun n => ⟨ledger.balanced n, ?_⟩, ?_⟩
  · rw [inv.lookup_iff later, getSessionIdFromCookie_own]
    exact inv.alive_own
  · exact (ledger.single n).trans (by split <;> omega)
  · intro before call c at_ given after split issued cookie now own later
    rw [Option.eq_none_iff_forall_ne_some]
    intro ref resolved
    have alive := (inv.lookup_iff later).mp resolved
    rw [own, split] at alive
    exact not_alive_after_miss issued (answered before _ after split)
      (fun front call' r born resp back same => inv.once _ _ _ _ _ _ (split.trans same)) ref now
      alive

/-- A visitor without a cookie gets a session, and nine ticks later its cookie resolves. -/
theorem identity_lifetime_first_visit : ∃ tr w id, Run (Step 10) (.initial 1 100) tr w ∧
    (w.lookup (bytes "sessionId=" ++ id) 109).1 = some 0 ∧ Alive 10 tr id 0 109 := by
  let draws : Vector (Fin 16) 32 := Vector.replicate 32 7
  have missed : Run (Step 10) (.initial 1 100) _ _ :=
    .single (.miss (w := .initial 1 100) [] (HttpResponse.new false) (Nat.le_refl 100) rfl)
  have constructed := missed.tail (.construct draws (.refl _) (Nat.le_refl 100)
    fun ref below => absurd below (Nat.not_lt_zero ref))
  have issued := constructed.tail (@Step.issue 10 _ 0 _ 0 100 [] _ 100 100 (fun _ => 100)
    (.refl _) (Nat.le_refl 100) (fun _ => ⟨Nat.le_refl 100, Nat.le_refl 100⟩) rfl)
  have resolves := (identity_lifetime issued).1 (generateSessionId draws) 109 0 (by decide)
  refine ⟨_, _, _, issued, ?_, resolves.mp ⟨?_, rfl⟩⟩ <;> decide

end runs

end AIService.Sessions
