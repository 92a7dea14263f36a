import AIService.Sessions.Login

/-!
# After a logout

A logout clears its session and takes it out of the storage.  `Traced` follows what the manager
shows under the requests; from it `logout_final` says that no request gets the session again, whatever
runs beside the logout, and who may still act on it.
-/

namespace AIService.Login

open Sessions

/-! ## What the manager shows under the requests -/

/-- The manager's run under a state, and that every session in use was issued in it. -/
structure Traced (maxAge : Time) (capacity : Nat) (start : Time) (s : Serving) (shown : List Obs) :
    Prop where
  run : Run (Sessions.Step maxAge) (.initial capacity start) shown s.sessions
  held : ∀ n ref p, s.requests n = some (ref, p) →
    ∃ call id born resp, .issued call id ref born resp ∈ shown

section traced

variable {maxAge : Time} {capacity : Nat} {start : Time} {allowed : Serving → Nat → Prop}
  {s s' : Serving} {shown : List Obs} {out tr : List Event} {n : Nat} {ref : Ref} {p p' : Position}

theorem Traced.inv (traced : Traced maxAge capacity start s shown) : Inv maxAge s.sessions shown :=
  inv_of_run traced.run

theorem Traced.below (traced : Traced maxAge capacity start s shown)
    (stands : s.requests n = some (ref, p)) : ref < s.sessions.nextRef := by
  obtain ⟨call, id, born, resp, member⟩ := traced.held n ref p stands
  exact (traced.inv.issued call id ref born resp member).1

theorem Traced.initial : Traced maxAge capacity start (.initial capacity start) [] where
  run := .refl
  held n ref p here := by
    rw [initial_requests] at here
    cases here

/-- Request `n` goes on after a step of the manager's on its session. -/
theorem Traced.act (traced : Traced maxAge capacity start s shown) {sessions : World} {more : List Obs}
    (step : Sessions.Step maxAge s.sessions more sessions) (stands : s.requests n = some (ref, p)) :
    Traced maxAge capacity start ({ s with sessions := sessions }.moveTo n ref p') (shown ++ more) where
  run := traced.run.tail step
  held m r q here := by
    have held {m r q} (stood : s.requests m = some (r, q)) :
        ∃ call id born resp, .issued call id r born resp ∈ shown ++ more := by
      obtain ⟨call, id, born, resp, member⟩ := traced.held m r q stood
      exact ⟨call, id, born, resp, List.mem_append_left _ member⟩
    rw [requests_moveTo] at here
    split at here
    · cases here
      exact held stands
    · exact held here

/-- Request `n` goes on without a step of the manager's. -/
theorem Traced.moveTo (traced : Traced maxAge capacity start s shown)
    (stands : s.requests n = some (ref, p)) :
    Traced maxAge capacity start (s.moveTo n ref p') shown where
  run := traced.run
  held m r q here := by
    rw [requests_moveTo] at here
    split at here
    · cases here
      exact traced.held n ref p stands
    · exact traced.held m r q here

theorem Traced.setValue (traced : Traced maxAge capacity start s shown) (key value : Bytes)
    (stands : s.requests n = some (ref, p)) :
    Traced maxAge capacity start ((s.setValue ref key value).moveTo n ref p') shown := by
  rw [← List.append_nil shown]
  exact traced.act (.setValue key value (traced.below stands)) stands

theorem Traced.advance (traced : Traced maxAge capacity start s shown) (n : Nat) :
    ∃ more, Traced maxAge capacity start (s.advance n).2 (shown ++ more) := by
  have silent {s' : Serving} (traced : Traced maxAge capacity start s' shown) :
      ∃ more, Traced maxAge capacity start s' (shown ++ more) := ⟨[], by rwa [List.append_nil]⟩
  unfold Serving.advance
  cases stands : s.requests n with
  | none => exact silent traced
  | some request =>
      obtain ⟨ref, p⟩ := request
      cases p with
      | setUserId account => exact silent (traced.setValue _ _ stands)
      | setUsername account => exact silent (traced.setValue _ _ stands)
      | setIsLoggedIn account => exact silent (traced.setValue _ _ stands)
      | logout =>
          dsimp only
          split <;> exact silent (traced.moveTo stands)
      | clear => exact ⟨_, traced.act (.clear (traced.below stands)) stands⟩
      | destroy => exact ⟨_, traced.act (.destroySession _) stands⟩
      | check =>
          dsimp only
          split <;> exact silent (traced.moveTo stands)
      | readUserId =>
          dsimp only
          split <;> exact silent (traced.moveTo stands)
      | readUsername userId => exact silent (traced.moveTo stands)
      | done => exact silent traced

/-- A session comes from the manager as its observation says. -/
theorem Traced.step (traced : Traced maxAge capacity start s shown)
    (step : Step maxAge allowed s out s') :
    ∃ more, Traced maxAge capacity start s' (shown ++ more) ∧
      ∀ m ref position, .entered m ref position ∈ out →
        ∃ o, more = [o] ∧ returned o = some ref ∧ Answered maxAge shown o := by
  cases step with
  | @manage shows sessions step same =>
      refine ⟨shows, ⟨traced.run.tail step, fun m r q here => ?_⟩, fun m ref position member => by cases member⟩
      obtain ⟨call, id, born, resp, member⟩ := traced.held m r q here
      exact ⟨call, id, born, resp, List.mem_append_left _ member⟩
  | @enter o sessions ref position step returns enters =>
      have answered := traced.inv.answered (ledger_of_run traced.run) step
      have issued : ∃ call id born resp, .issued call id ref born resp ∈ shown ++ [o] := by
        cases o with
        | resumed call id at_ r given resp =>
            cases returns
            obtain ⟨⟨before, call, born, resp, after, same, -⟩, -⟩ := answered
            exact ⟨call, id, born, resp, by simp [same]⟩
        | issued call id r born resp =>
            cases returns
            exact ⟨call, id, born, resp, by simp⟩
        | _ => cases returns
      refine ⟨[o], ⟨traced.run.tail step, fun m r q here => ?_⟩, fun m r q member => ?_⟩
      · dsimp only at here
        rw [Function.update_apply] at here
        split at here
        · cases here
          exact issued
        · obtain ⟨call, id, born, resp, member⟩ := traced.held m r q here
          exact ⟨call, id, born, resp, List.mem_append_left _ member⟩
      · cases List.mem_singleton.mp member
        exact ⟨o, rfl, returns, answered⟩
  | request n permitted =>
      obtain ⟨more, traced'⟩ := traced.advance n
      refine ⟨more, traced', fun m ref position member => ?_⟩
      unfold Serving.advance at member
      cases stands : s.requests n with
      | none => simp [stands] at member
      | some request =>
          obtain ⟨r, p⟩ := request
          rw [stands] at member
          cases p with
          | readUsername userId => cases List.mem_singleton.mp member
          | logout | check | readUserId =>
              dsimp only at member
              split at member <;> cases member
          | _ => cases member

theorem Traced.run_later (traced : Traced maxAge capacity start s shown)
    (later : Run (Step maxAge allowed) s tr s') :
    ∃ more, Traced maxAge capacity start s' (shown ++ more) ∧
      ∀ m ref position, .entered m ref position ∈ tr →
        ∃ before o after, more = before ++ o :: after ∧ returned o = some ref ∧
          Answered maxAge (shown ++ before) o := by
  induction later with
  | refl => exact ⟨[], by rwa [List.append_nil], fun m ref position member => by cases member⟩
  | tail _ step ih =>
      obtain ⟨more, traced', entered⟩ := ih
      obtain ⟨more', traced'', enters⟩ := traced'.step step
      rw [List.append_assoc] at traced''
      refine ⟨more ++ more', traced'', fun m ref position member => ?_⟩
      rcases List.mem_append.mp member with early | late
      · obtain ⟨before, o, after, rfl, returns, answered⟩ := entered m ref position early
        exact ⟨before, o, after ++ more', by simp, returns, answered⟩
      · obtain ⟨o, rfl, returns, answered⟩ := enters m ref position late
        exact ⟨more, o, [], rfl, returns, answered⟩

end traced

/-! ## A destroyed session does not come back -/

section gone

variable {maxAge : Time} {w : World} {shown more : List Obs} {call : Nat} {id : Bytes} {ref : Ref}
  {born : Time} {resp : Http.HttpResponse}

/-- Once a session was issued and then destroyed, no call of `getSession` returns it. -/
theorem not_returned_after_destroy (inv : Inv maxAge w (shown ++ .destroyed id :: more))
    (issued : .issued call id ref born resp ∈ shown) {before after : List Obs} {o : Obs}
    (split : more = before ++ o :: after)
    (answered : Answered maxAge (shown ++ .destroyed id :: before) o) : returned o ≠ some ref := by
  intro returns
  have once := inv.fresh ref
  have below := (inv.issued call id ref born resp (List.mem_append_left _ issued))
  rw [if_pos below.1] at once
  have first : 0 < shown.countP (Obs.issues ref) :=
    List.countP_pos_iff.mpr ⟨_, issued, beq_self_eq_true ref⟩
  cases o with
  | issued call' id' r born' resp' =>
      cases returns
      obtain ⟨-, unissued, -⟩ := answered
      have never := unissued _ (List.mem_append_left _ issued)
      simp [Obs.issues] at never
  | resumed call' id' at_ r given' resp' =>
      cases returns
      obtain ⟨⟨front, call'', born'', resp'', back, same, kept, -⟩, -⟩ := answered
      have again : .issued call'' id' ref born'' resp'' ∈ shown ++ .destroyed id :: before := by
        rw [same]
        exact List.mem_append_right _ List.mem_cons_self
      have again' : .issued call'' id' ref born'' resp'' ∈ shown ++ .destroyed id :: more := by
        subst split
        rw [← List.cons_append, ← List.append_assoc]
        exact List.mem_append_left _ again
      obtain rfl : id = id' := below.2.symm.trans (inv.issued call'' id' ref born'' resp'' again').2
      rcases List.append_eq_append_iff.mp same with ⟨between, -, cut⟩ | ⟨between, rfl, cut⟩
      · cases between with
        | nil => cases cut
        | cons o' between =>
            obtain ⟨rfl, rest⟩ := List.cons.inj cut
            have member : .issued call'' id ref born'' resp'' ∈ before := by
              rw [rest]
              exact List.mem_append_right _ List.mem_cons_self
            have second : 0 < before.countP (Obs.issues ref) :=
              List.countP_pos_iff.mpr ⟨_, member, beq_self_eq_true ref⟩
            subst split
            rw [List.countP_append, List.countP_cons, List.countP_append] at once
            omega
      · cases between with
        | nil => cases cut
        | cons o' between =>
            obtain ⟨-, rfl⟩ := List.cons.inj cut
            exact kept (List.mem_append_right _ List.mem_cons_self)
  | _ => cases returns

end gone

/-! ## Who is left on it -/

/-- The request has still to write a value of a login. -/
def Position.LogsIn : Position → Prop
  | .setUserId _ | .setUsername _ | .setIsLoggedIn _ => True
  | _ => False

/-- Nobody is logged in on the session, is about to be, or has passed the check. -/
structure LoggedOut (s : Serving) (ref : Ref) : Prop where
  value : s.getValue ref (bytes "isLoggedIn") ≠ bytes "true"
  idle : ∀ n p, s.requests n = some (ref, p) → ¬ p.LogsIn ∧ ¬ p.Reading

section left

variable {maxAge : Time} {allowed : Serving → Nat → Prop} {s₀ s s' : Serving} {out : List Event}
  {n : Nat} {ref r : Ref} {p p' : Position}

theorem LoggedOut.moveTo (logged : LoggedOut s ref) (idle : r = ref → ¬ p'.LogsIn ∧ ¬ p'.Reading) :
    LoggedOut (s.moveTo n r p') ref where
  value := logged.value
  idle m q here := by
    rw [requests_moveTo] at here
    split at here
    · cases here
      exact idle rfl
    · exact logged.idle m q here

theorem LoggedOut.setValue (logged : LoggedOut s ref) (key value : Bytes) (other : r ≠ ref) :
    LoggedOut (s.setValue r key value) ref where
  value := by
    rw [getValue_setValue, if_neg fun here => other here.1.symm]
    exact logged.value
  idle := logged.idle

theorem LoggedOut.clear (logged : LoggedOut s ref) (r : Ref) : LoggedOut (s.clear r) ref where
  value := by
    rw [getValue_clear]
    split
    · decide
    · exact logged.value
  idle := logged.idle

theorem LoggedOut.advance (logged : LoggedOut s ref) (n : Nat) : LoggedOut (s.advance n).2 ref := by
  unfold Serving.advance
  cases stands : s.requests n with
  | none => exact logged
  | some request =>
      obtain ⟨r, p⟩ := request
      have idle {p} (here : s.requests n = some (r, p)) (same : r = ref) : ¬ p.LogsIn ∧ ¬ p.Reading :=
        logged.idle n p (same ▸ here)
      cases p with
      | setUserId account =>
          have other : r ≠ ref := fun same => (idle stands same).1 trivial
          exact (logged.setValue _ _ other).moveTo fun same => absurd same other
      | setUsername account =>
          have other : r ≠ ref := fun same => (idle stands same).1 trivial
          exact (logged.setValue _ _ other).moveTo fun same => absurd same other
      | setIsLoggedIn account =>
          have other : r ≠ ref := fun same => (idle stands same).1 trivial
          exact (logged.setValue _ _ other).moveTo fun same => absurd same other
      | logout =>
          dsimp only
          split <;> exact logged.moveTo fun _ => ⟨id, id⟩
      | clear => exact (logged.clear r).moveTo fun _ => ⟨id, id⟩
      | destroy =>
          have removed : LoggedOut (s.destroySession r) ref := ⟨logged.value, logged.idle⟩
          exact removed.moveTo fun _ => ⟨id, id⟩
      | check =>
          dsimp only
          split
          · next flag =>
              refine logged.moveTo fun same => absurd flag ?_
              rw [same]
              exact logged.value
          · exact logged.moveTo fun _ => ⟨id, id⟩
      | readUserId =>
          have other : r ≠ ref := fun same => (idle stands same).2 trivial
          dsimp only
          split <;> exact logged.moveTo fun same => absurd same other
      | readUsername userId => exact logged.moveTo fun _ => ⟨id, id⟩
      | done => exact logged

/-- Only a request that gets the session can log in on it again. -/
theorem LoggedOut.step (logged : LoggedOut s ref) (step : Step maxAge allowed s out s')
    (closed : ∀ m position, .entered m ref position ∉ out) : LoggedOut s' ref := by
  cases step with
  | manage _ same =>
      refine ⟨?_, logged.idle⟩
      rw [Serving.getValue, same]
      exact logged.value
  | @enter o sessions r position step returns enters =>
      have other : r ≠ ref := by
        rintro rfl
        exact closed _ _ (List.mem_singleton_self _)
      refine ⟨?_, fun m q here => ?_⟩
      · rw [Serving.getValue, returned_data step returns]
        exact logged.value
      · dsimp only at here
        rw [Function.update_apply] at here
        split at here
        · cases here
          exact absurd rfl other
        · exact logged.idle m q here
  | request n permitted => exact logged.advance n

theorem requests_advance {m : Nat} (n : Nat) (here : (s.advance n).2.requests m = some (ref, p)) :
    ∃ q, s.requests m = some (ref, q) := by
  have moved {s' : Serving} {r : Ref} {p₀ p' : Position} (stands : s.requests n = some (r, p₀))
      (same : s'.requests = s.requests)
      (here : (s'.moveTo n r p').requests m = some (ref, p)) : ∃ q, s.requests m = some (ref, q) := by
    rw [requests_moveTo, same] at here
    split at here
    · next own =>
        cases here
        exact ⟨p₀, own ▸ stands⟩
    · exact ⟨p, here⟩
  unfold Serving.advance at here
  cases stands : s.requests n with
  | none =>
      rw [stands] at here
      exact ⟨p, here⟩
  | some request =>
      obtain ⟨r, p₀⟩ := request
      rw [stands] at here
      cases p₀ with
      | logout | check | readUserId =>
          dsimp only at here
          split at here <;> exact moved stands rfl here
      | done => exact ⟨p, here⟩
      | _ => exact moved stands rfl here

/-- A request is on the session it entered. -/
theorem requests_step {m : Nat} (step : Step maxAge allowed s out s')
    (closed : ∀ m position, .entered m ref position ∉ out) (here : s'.requests m = some (ref, p)) :
    ∃ q, s.requests m = some (ref, q) := by
  cases step with
  | manage => exact ⟨p, here⟩
  | enter step returns enters =>
      dsimp only at here
      rw [Function.update_apply] at here
      split at here
      · cases here
        exact absurd (List.mem_singleton_self _) (closed _ _)
      · exact ⟨p, here⟩
  | request n permitted => exact requests_advance n here

end left

/-! ## After a logout -/

section logout

variable {maxAge : Time} {capacity : Nat} {start : Time} {allowed : Serving → Nat → Prop}
  {tr tr' : List Event} {s s' : Serving} {n : Nat} {ref : Ref}

/-- A session that a logout destroyed is given to no request, in whatever order the requests and the
manager go on. -/
theorem closed_after_logout (run : Run (Step maxAge allowed) (.initial capacity start) tr s)
    (stands : s.requests n = some (ref, .destroy))
    (later : Run (Step maxAge allowed) (s.advance n).2 tr' s') :
    ∀ m position, .entered m ref position ∉ tr' := by
  intro m position member
  obtain ⟨shown, traced, -⟩ := Traced.run_later .initial run
  rw [List.nil_append] at traced
  obtain ⟨call, id, born, resp, issued⟩ := traced.held n ref _ stands
  have named := (traced.inv.issued call id ref born resp issued).2
  have destroyed : Traced maxAge capacity start (s.advance n).2 (shown ++ [.destroyed id]) := by
    rw [Serving.advance, stands, ← named]
    exact traced.act (.destroySession _) stands
  obtain ⟨more, traced', entered⟩ := destroyed.run_later later
  obtain ⟨before, o, after, split, returns, answered⟩ := entered m ref position member
  rw [List.append_assoc] at traced' answered
  exact not_returned_after_destroy traced'.inv issued split answered returns

theorem left_after_logout (run : Run (Step maxAge allowed) (.initial capacity start) tr s)
    (stands : s.requests n = some (ref, .destroy))
    (later : Run (Step maxAge allowed) (s.advance n).2 tr' s') :
    (∀ m p, s'.requests m = some (ref, p) → ∃ q, s.requests m = some (ref, q)) ∧
      (LoggedOut s ref → LoggedOut s' ref) := by
  have closed := closed_after_logout run stands later
  clear run stands
  induction later with
  | refl => exact ⟨fun m p here => requests_advance n here, fun logged => logged.advance n⟩
  | tail _ step ih =>
      obtain ⟨inside, logged⟩ := ih fun m position member =>
        closed m position (List.mem_append_left _ member)
      have closed' := fun m position member => closed m position (List.mem_append_right _ member)
      refine ⟨fun m p here => ?_, fun before => (logged before).step step closed'⟩
      obtain ⟨q, stood⟩ := requests_step step closed' here
      exact inside m q stood

/-- Once a logout has destroyed its session, no request gets that session again.  Whoever acts on it
had got it before, and nobody does if no login and no check on it was then under way and nobody had
logged in since it was cleared. -/
theorem logout_final (run : Run (Step maxAge allowed) (.initial capacity start) tr s)
    (stands : s.requests n = some (ref, .destroy))
    (later : Run (Step maxAge allowed) (s.advance n).2 tr' s') :
    (∀ m position, .entered m ref position ∉ tr') ∧
    ∀ m userId username, .identified m ref userId username ∈ tr' →
      (∃ p, s.requests m = some (ref, p)) ∧ ¬ LoggedOut s ref := by
  refine ⟨closed_after_logout run stands later, fun m userId username member => ?_⟩
  let Left (_ : List Event) (e : Event) : Prop :=
    ∀ m userId username, e = .identified m ref userId username →
      (∃ p, s.requests m = some (ref, p)) ∧ ¬ LoggedOut s ref
  obtain ⟨before, after, split⟩ := List.append_of_mem member
  refine later.observed (E := Left) (fun {_ s₁ _ _} earlier step pre e post shown => ?_) split _ _ _ rfl
  rintro m userId username rfl
  obtain ⟨inside, logged⟩ := left_after_logout run stands earlier
  obtain ⟨reads, -⟩ := step.identified shown
  exact ⟨inside m _ reads, fun before => ((logged before).idle m _ reads).2 trivial⟩

/-- Ann logs out while a chat request of hers has read her id: it still acts, with no name. -/
theorem logout_final_ann : ∃ tr s tr' s', Run (Step 10 fun _ _ => True) (.initial 1 100) tr s ∧
    s.requests 1 = some (0, .destroy) ∧ Run (Step 10 fun _ _ => True) (s.advance 1).2 tr' s' ∧
    .identified 2 0 7 [] ∈ tr' ∧ ∃ p, s.requests 2 = some (0, p) := by
  have visited : ∃ tr s, Run (Step 10 fun _ _ => True) (.initial 1 100) tr s ∧
      s.requests 1 = some (0, .destroy) ∧ .identified 2 0 7 [] ∈ ((s.advance 1).2.advance 2).1 := by
    have run₁ := save ((entered_run (fun _ _ => True) ann).tail (.request 0 trivial)) rfl
    have run₂ := save (run₁.tail (.request 0 trivial)) rfl
    have run₃ := save (run₂.tail (.request 0 trivial)) rfl
    have run₄ := visit run₃ .logout trivial (by decide +kernel)
    have run₅ := visit run₄ .check trivial (by decide +kernel)
    have run₆ := (run₅.tail (.request 2 trivial)).tail (.request 2 trivial)
    have run₇ := (run₆.tail (.request 1 trivial)).tail (.request 1 trivial)
    exact ⟨_, _, run₇, by decide +kernel, by decide +kernel⟩
  obtain ⟨tr, s, run, stands, acts⟩ := visited
  have later : Run (Step 10 fun _ _ => True) (s.advance 1).2 _ _ := .single (.request 2 trivial)
  exact ⟨tr, s, _, _, run, stands, later, acts, ((logout_final run stands later).2 2 7 [] acts).1⟩

end logout

end AIService.Login
