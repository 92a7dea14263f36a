import AIService.Run
import Mathlib.Data.List.Nodup
import Mathlib.Data.List.Induction

/-!
# A bounded publisher with a window

Items are admitted under a bound, wait in a queue, and are published in its order under
consecutive tags; at most `size` published items are unconfirmed at a time.  A confirm
retires an item; a restart puts the unconfirmed items back in front of the queue and starts
the tags anew.

`Kept` says what holds after every run: the count is exact (`count`, `bound`), every accepted
item is in one place until it is retired (`accepted`, `live`), and the items published since
the last restart are those that were unconfirmed at it, then the later admissions, in order
and under the tags 1, 2, … (`sent`, `window`).
-/

namespace AIService

structure Ledger (α : Type) where
  /-- Admissions that are counted but not yet queued. -/
  reserved : Nat := 0
  queued : List α := []
  waiting : List α := []
  /-- The unconfirmed items under their tags. -/
  window : List (Nat × α) := []
  nextTag : Nat := 1
  count : Nat := 0

namespace Ledger

inductive Event (α : Type)
  | accept (a : α)
  | enter (a : α)
  | publish (tag : Nat) (a : α)
  | retire (tag : Nat) (a : α)
  | restart
deriving DecidableEq

variable {α : Type}

inductive Move (capacity size : Nat) : Ledger α → List (Event α) → Ledger α → Prop
  | reserve {l : Ledger α} : l.count < capacity →
    Move capacity size l [] { l with reserved := l.reserved + 1, count := l.count + 1 }
  | accept {l : Ledger α} {n : Nat} (a : α) : l.reserved = n + 1 →
    Move capacity size l [.accept a] { l with reserved := n, queued := l.queued ++ [a] }
  | enter {l : Ledger α} {a : α} {rest : List α} : l.queued = a :: rest →
    Move capacity size l [.enter a] { l with queued := rest, waiting := l.waiting ++ [a] }
  | publish {l : Ledger α} {a : α} {rest : List α} : l.waiting = a :: rest →
    l.window.length < size →
    Move capacity size l [.publish l.nextTag a]
      { l with
        waiting := rest
        window := l.window ++ [(l.nextTag, a)]
        nextTag := l.nextTag + 1 }
  | retire {l : Ledger α} {tag : Nat} {a : α} : (tag, a) ∈ l.window →
    Move capacity size l [.retire tag a]
      { l with window := l.window.filter fun entry => entry.1 ≠ tag, count := l.count - 1 }
  | restart {l : Ledger α} :
    Move capacity size l [.restart]
      { l with waiting := l.window.map Prod.snd ++ l.waiting, window := [], nextTag := 1 }

/-! ## What a trace says -/

namespace Event

@[simp] def accepted? : Event α → List α
  | .accept a => [a]
  | _ => []

@[simp] def admitted? : Event α → List α
  | .enter a => [a]
  | _ => []

@[simp] def published? : Event α → List (Nat × α)
  | .publish tag a => [(tag, a)]
  | _ => []

@[simp] def retired? : Event α → List α
  | .retire _ a => [a]
  | _ => []

end Event

section traces

variable (tr tr' : List (Event α)) (e : Event α)

def accepted : List α := tr.flatMap Event.accepted?

def admitted : List α := tr.flatMap Event.admitted?

def published : List (Nat × α) := tr.flatMap Event.published?

def retired : List α := tr.flatMap Event.retired?

/-- The admitted items that are not retired, in the order of their admission. -/
def live [DecidableEq α] : List α := (admitted tr).filter (· ∉ retired tr)

@[simp] theorem accepted_append : accepted (tr ++ tr') = accepted tr ++ accepted tr' :=
  List.flatMap_append

@[simp] theorem admitted_append : admitted (tr ++ tr') = admitted tr ++ admitted tr' :=
  List.flatMap_append

@[simp] theorem published_append : published (tr ++ tr') = published tr ++ published tr' :=
  List.flatMap_append

@[simp] theorem retired_append : retired (tr ++ tr') = retired tr ++ retired tr' :=
  List.flatMap_append

@[simp] theorem accepted_singleton : accepted [e] = e.accepted? := List.flatMap_singleton _ _

@[simp] theorem admitted_singleton : admitted [e] = e.admitted? := List.flatMap_singleton _ _

@[simp] theorem published_singleton : published [e] = e.published? := List.flatMap_singleton _ _

@[simp] theorem retired_singleton : retired [e] = e.retired? := List.flatMap_singleton _ _

end traces

/-- `tr` is a whole number of generations: it is empty or its last event is a restart. -/
def Boundary (tr : List (Event α)) : Prop := tr = [] ∨ ∃ earlier, tr = earlier ++ [.restart]

/-- The events since the last restart. -/
structure Since (tr before after : List (Event α)) : Prop where
  split : tr = before ++ after
  boundary : Boundary before
  one : .restart ∉ after

theorem Since.nil : Since ([] : List (Event α)) [] [] := ⟨rfl, .inl rfl, List.not_mem_nil⟩

theorem Since.append {tr before after : List (Event α)} (since : Since tr before after)
    {out : List (Event α)} (none : .restart ∉ out) : Since (tr ++ out) before (after ++ out) where
  split := by rw [since.split, List.append_assoc]
  boundary := since.boundary
  one member := (List.mem_append.mp member).elim since.one none

theorem Since.restart (tr : List (Event α)) : Since (tr ++ [.restart]) (tr ++ [.restart]) [] :=
  ⟨by simp, .inr ⟨tr, rfl⟩, List.not_mem_nil⟩

/-- There is one way to cut a trace at its last restart. -/
theorem Since.unique {tr before after before' after' : List (Event α)}
    (since : Since tr before after) (since' : Since tr before' after') :
    before = before' ∧ after = after' := by
  have longer {b a b' a' : List (Event α)} (one : .restart ∉ a) (boundary : Boundary b')
      (mid : List (Event α)) (whole : b' = b ++ mid) (cut : a = mid ++ a') : mid = [] := by
    rcases boundary with none | ⟨earlier, last⟩
    · exact (List.append_eq_nil_iff.mp (whole ▸ none)).2
    · rcases List.eq_nil_or_concat mid with none | ⟨m, e, same⟩
      · exact none
      · rw [List.concat_eq_append] at same
        rw [whole, same, ← List.append_assoc] at last
        have restart := (List.append_inj' last rfl).2
        cases List.cons.inj restart |>.1
        exact absurd (by rw [cut, same]; simp) one
  have cut := since.split.symm.trans since'.split
  rcases List.append_eq_append_iff.mp cut with ⟨mid, whole, rest⟩ | ⟨mid, whole, rest⟩
  · have none := longer since.one since'.boundary mid whole rest
    subst none
    simpa using And.intro whole.symm rest
  · have none := longer since'.one since.boundary mid whole rest
    subst none
    simpa using And.intro whole rest.symm

/-- What holds of a ledger after the events `tr`; the items it accepted are distinct. -/
structure Kept [DecidableEq α] (capacity size : Nat) (l : Ledger α) (tr : List (Event α)) :
    Prop where
  count : l.count = l.reserved + l.queued.length + l.waiting.length + l.window.length
  bound : l.count ≤ capacity
  room : l.window.length ≤ size
  accepted : accepted tr = admitted tr ++ l.queued
  live : l.window.map Prod.snd ++ l.waiting = live tr
  sent : ∃ before after, Since tr before after ∧
    (published after).map Prod.snd ++ l.waiting = Ledger.live before ++ admitted after ∧
    (published after).map Prod.fst = List.range' 1 (published after).length ∧
    l.nextTag = (published after).length + 1 ∧
    l.window = (published after).filter (fun entry => .retire entry.1 entry.2 ∉ after) ∧
    ∀ tag a, .retire tag a ∈ after → (tag, a) ∈ published after
  retired : ∀ a ∈ retired tr, a ∈ admitted tr
  once : (Ledger.retired tr).Nodup

section kept

variable [DecidableEq α] {capacity size : Nat} {l l' : Ledger α} {tr out : List (Event α)}

/-- Dropping the entry under one key of a list with distinct keys. -/
theorem filter_ne {β γ : Type} [DecidableEq γ] (f : β → γ) {pre post : List β} {b : β}
    (nodup : ((pre ++ b :: post).map f).Nodup) :
    (pre ++ b :: post).filter (fun x => f x ≠ f b) = pre ++ post := by
  rw [List.map_append, List.map_cons, List.nodup_append] at nodup
  obtain ⟨-, later, apart⟩ := nodup
  obtain ⟨absent, -⟩ := List.nodup_cons.mp later
  rw [List.filter_append, List.filter_cons_of_neg (by simp), List.filter_eq_self.mpr,
    List.filter_eq_self.mpr]
  · intro x member
    refine decide_eq_true fun same => absent ?_
    rw [← same]
    exact List.mem_map_of_mem member
  · intro x member
    exact decide_eq_true fun same => apart (f x) (List.mem_map_of_mem member) (f b) (.head _) same

namespace Kept

theorem initial : Kept capacity size ({} : Ledger α) [] where
  count := rfl
  bound := Nat.zero_le _
  room := Nat.zero_le _
  accepted := rfl
  live := rfl
  sent := ⟨[], [], .nil, rfl, rfl, rfl, rfl, fun _ _ member => nomatch member⟩
  retired _ member := nomatch member
  once := .nil

theorem live_nodup (kept : Kept capacity size l tr) (nodup : (Ledger.accepted tr).Nodup) :
    (Ledger.live tr).Nodup := by
  rw [kept.accepted] at nodup
  exact (List.nodup_append.mp nodup).1.filter _

/-- The tags of the window are distinct. -/
theorem tags_nodup (kept : Kept capacity size l tr) : (l.window.map Prod.fst).Nodup := by
  obtain ⟨before, after, -, -, tags, -, window, -⟩ := kept.sent
  rw [window]
  refine (List.filter_sublist.map Prod.fst).nodup ?_
  rw [tags]
  exact List.nodup_range'

/-- A window entry was published since the last restart. -/
theorem window_lt (kept : Kept capacity size l tr) {entry : Nat × α} (member : entry ∈ l.window) :
    entry.1 < l.nextTag := by
  obtain ⟨before, after, -, -, tags, next, window, -⟩ := kept.sent
  rw [window] at member
  have tag := List.mem_map_of_mem (f := Prod.fst) (List.mem_filter.mp member).1
  rw [tags, List.mem_range'] at tag
  obtain ⟨i, below, same⟩ := tag
  omega

/-- An accepted item is in one place until it is retired. -/
theorem places (kept : Kept capacity size l tr) (nodup : (Ledger.accepted tr).Nodup) :
    (l.queued ++ l.waiting ++ l.window.map Prod.snd).Nodup ∧
      ∀ a, a ∈ l.queued ++ l.waiting ++ l.window.map Prod.snd ↔
        a ∈ Ledger.accepted tr ∧ a ∉ Ledger.retired tr := by
  have moved : (l.queued ++ l.waiting ++ l.window.map Prod.snd).Perm (Ledger.live tr ++ l.queued) := by
    rw [← kept.live, List.append_assoc]
    exact List.perm_append_comm.trans (List.perm_append_comm.append_right _)
  have part : (Ledger.live tr ++ l.queued).Sublist (Ledger.accepted tr) := by
    rw [kept.accepted]
    exact List.filter_sublist.append_right _
  refine ⟨moved.nodup_iff.mpr (part.nodup nodup), fun a => ?_⟩
  rw [moved.mem_iff, kept.accepted, List.mem_append, List.mem_append]
  rw [kept.accepted, List.nodup_append] at nodup
  constructor
  · intro place
    rcases place with alive | queued
    · obtain ⟨admitted, fresh⟩ := List.mem_filter.mp alive
      exact ⟨.inl admitted, of_decide_eq_true fresh⟩
    · exact ⟨.inr queued, fun gone => nodup.2.2 a (kept.retired a gone) a queued rfl⟩
  · intro held
    obtain ⟨admitted | queued, fresh⟩ := held
    · exact .inl (List.mem_filter.mpr ⟨admitted, decide_eq_true fresh⟩)
    · exact .inr queued

theorem reserve (kept : Kept capacity size l tr) (room : l.count < capacity) :
    Kept capacity size { l with reserved := l.reserved + 1, count := l.count + 1 } tr where
  count := by
    have exact_ := kept.count
    simp only
    omega
  bound := room
  room := kept.room
  accepted := kept.accepted
  live := kept.live
  sent := kept.sent
  retired := kept.retired
  once := kept.once

theorem accept (kept : Kept capacity size l tr) {n : Nat} (a : α) (held : l.reserved = n + 1) :
    Kept capacity size { l with reserved := n, queued := l.queued ++ [a] } (tr ++ [.accept a]) where
  count := by
    have exact_ := kept.count
    simp only [List.length_append, List.length_cons, List.length_nil]
    omega
  bound := kept.bound
  room := kept.room
  accepted := by simp [kept.accepted]
  live := by simp [kept.live, Ledger.live]
  sent := by
    obtain ⟨before, after, since, order, tags, next, window, gone⟩ := kept.sent
    exact ⟨before, after ++ [.accept a], since.append (by simp), by simpa using order,
      by simpa using tags, by simpa using next, by simpa using window, by simpa using gone⟩
  retired b gone := by simpa using kept.retired b (by simpa using gone)
  once := by simpa using kept.once

theorem enter (kept : Kept capacity size l tr) (nodup : (Ledger.accepted tr).Nodup) {a : α}
    {rest : List α} (first : l.queued = a :: rest) :
    Kept capacity size { l with queued := rest, waiting := l.waiting ++ [a] } (tr ++ [.enter a]) where
  count := by
    have exact_ := kept.count
    rw [first] at exact_
    simp only [List.length_append, List.length_cons, List.length_nil] at exact_ ⊢
    omega
  bound := kept.bound
  room := kept.room
  accepted := by simp [kept.accepted, first]
  live := by
    have fresh : a ∉ Ledger.retired tr := by
      intro gone
      rw [kept.accepted, first, List.nodup_append] at nodup
      exact nodup.2.2 a (kept.retired a gone) a (.head _) rfl
    rw [← List.append_assoc, kept.live]
    simp [Ledger.live, List.filter_append, fresh]
  sent := by
    obtain ⟨before, after, since, order, tags, next, window, gone⟩ := kept.sent
    refine ⟨before, after ++ [.enter a], since.append (by simp), ?_, by simpa using tags,
      by simpa using next, by simpa using window, by simpa using gone⟩
    simp only [published_append, admitted_append, published_singleton, Event.published?,
      List.append_nil, admitted_singleton, Event.admitted?]
    rw [← List.append_assoc, order, List.append_assoc]
  retired b gone := by
    rw [admitted_append]
    exact List.mem_append_left _ (kept.retired b (by simpa using gone))
  once := by simpa using kept.once

theorem publish (kept : Kept capacity size l tr) {a : α} {rest : List α}
    (first : l.waiting = a :: rest) (room : l.window.length < size) :
    Kept capacity size
      { l with
        waiting := rest
        window := l.window ++ [(l.nextTag, a)]
        nextTag := l.nextTag + 1 } (tr ++ [.publish l.nextTag a]) where
  count := by
    have exact_ := kept.count
    rw [first] at exact_
    simp only [List.length_append, List.length_cons, List.length_nil] at exact_ ⊢
    omega
  bound := kept.bound
  room := by
    rw [List.length_append, List.length_singleton]
    exact room
  accepted := by simp [kept.accepted]
  live := by
    have order := kept.live
    rw [first] at order
    simpa [Ledger.live] using order
  sent := by
    obtain ⟨before, after, since, order, tags, next, window, gone⟩ := kept.sent
    have sent : published (after ++ [.publish l.nextTag a]) = published after ++ [(l.nextTag, a)] := by
      simp
    refine ⟨before, after ++ [.publish l.nextTag a], since.append (by simp), ?_, ?_, ?_, ?_, ?_⟩
    · rw [sent, List.map_append, admitted_append, List.append_assoc]
      rw [first] at order
      simpa using order
    · rw [sent, List.map_append, tags, List.length_append, List.length_singleton, List.range'_concat,
        next]
      simp [Nat.add_comm]
    · simp [next]
    · -- The new tag is past the tags of all retired entries.
      have alive : Event.retire l.nextTag a ∉ after := by
        intro retired
        have tag := List.mem_map_of_mem (f := Prod.fst) (gone _ _ retired)
        rw [tags, List.mem_range'] at tag
        obtain ⟨i, below, same⟩ := tag
        omega
      rw [sent, List.filter_append, window]
      simp [alive]
    · intro tag b retired
      rw [sent]
      refine List.mem_append_left _ (gone tag b ?_)
      simpa using retired
  retired b gone := by simpa using kept.retired b (by simpa using gone)
  once := by simpa using kept.once

/-- An item of the window is not retired. -/
theorem fresh (kept : Kept capacity size l tr) {entry : Nat × α} (member : entry ∈ l.window) :
    entry.2 ∈ Ledger.admitted tr ∧ entry.2 ∉ Ledger.retired tr := by
  have alive : entry.2 ∈ Ledger.live tr := by
    rw [← kept.live]
    exact List.mem_append_left _ (List.mem_map_of_mem member)
  obtain ⟨admitted, fresh⟩ := List.mem_filter.mp alive
  exact ⟨admitted, of_decide_eq_true fresh⟩

theorem retire (kept : Kept capacity size l tr) (nodup : (Ledger.accepted tr).Nodup) {tag : Nat}
    {a : α} (member : (tag, a) ∈ l.window) :
    Kept capacity size
      { l with window := l.window.filter fun entry => entry.1 ≠ tag, count := l.count - 1 }
      (tr ++ [.retire tag a]) := by
  obtain ⟨pre, post, cut⟩ := List.append_of_mem member
  have tags := kept.tags_nodup
  rw [cut] at tags
  have left : l.window.filter (fun entry => entry.1 ≠ tag) = pre ++ post := by
    rw [cut]
    exact filter_ne Prod.fst tags
  constructor
  case count =>
    have exact_ := kept.count
    rw [cut] at exact_
    rw [left]
    simp only [List.length_append, List.length_cons] at exact_ ⊢
    omega
  case bound => exact Nat.le_trans (Nat.sub_le _ _) kept.bound
  case room => exact Nat.le_trans (List.length_filter_le _ _) kept.room
  case accepted => simp [kept.accepted]
  case live =>
    have whole := kept.live
    have distinct := kept.live_nodup nodup
    rw [← whole, cut] at distinct
    simp only [List.map_append, List.map_cons, List.append_assoc, List.cons_append] at distinct
    have apart : ((pre.map Prod.snd ++ a :: (post.map Prod.snd ++ l.waiting)).map id).Nodup := by
      simpa using distinct
    have dropped := filter_ne id apart
    rw [left, List.map_append, List.append_assoc, ← dropped]
    have again : pre.map Prod.snd ++ a :: (post.map Prod.snd ++ l.waiting) = Ledger.live tr := by
      rw [← whole, cut]
      simp
    rw [again]
    simp [Ledger.live, List.filter_filter, and_comm]
  case sent =>
    obtain ⟨before, after, since, order, tags, next, window, gone⟩ := kept.sent
    refine ⟨before, after ++ [.retire tag a], since.append (by simp), by simpa using order,
      by simpa using tags, by simpa using next, ?_, ?_⟩
    · -- An entry under this tag is the entry that was retired.
      have here : (tag, a) ∈ published after := by
        rw [window] at member
        exact (List.mem_filter.mp member).1
      have only : ∀ entry ∈ published after, entry.1 = tag → entry = (tag, a) := by
        intro entry listed same
        have distinct : ((published after).map Prod.fst).Nodup := tags ▸ List.nodup_range'
        exact List.inj_on_of_nodup_map distinct listed here same
      rw [window, List.filter_filter, published_append]
      simp only [published_singleton, Event.published?, List.append_nil]
      refine List.filter_congr fun entry listed => ?_
      have same : (entry.1 = tag) ↔ Event.retire entry.1 entry.2 = .retire tag a := by
        constructor
        · intro eq
          rw [only entry listed eq]
        · intro eq
          exact (Event.retire.inj eq).1
      have apart : decide (entry.1 ≠ tag) =
          decide (¬ Event.retire entry.1 entry.2 = .retire tag a) :=
        decide_eq_decide.mpr (not_congr same)
      simp only [List.mem_append, List.mem_singleton, not_or, Bool.decide_and]
      rw [apart]
      exact Bool.and_comm _ _
    · intro tag' b retired
      rw [published_append]
      refine List.mem_append_left _ ?_
      rcases List.mem_append.mp retired with old | new
      · exact gone tag' b old
      · cases List.mem_singleton.mp new
        rw [window] at member
        exact (List.mem_filter.mp member).1
  case retired =>
    intro b gone
    simp only [retired_append, retired_singleton, Event.retired?, List.mem_append,
      List.mem_singleton] at gone
    rw [admitted_append]
    refine List.mem_append_left _ ?_
    rcases gone with old | rfl
    · exact kept.retired b old
    · exact (kept.fresh member).1
  case once =>
    rw [retired_append, List.nodup_append]
    refine ⟨kept.once, List.nodup_singleton a, fun b old c new => ?_⟩
    rw [List.mem_singleton.mp new]
    intro same
    exact (kept.fresh member).2 (same ▸ old)

theorem restart (kept : Kept capacity size l tr) :
    Kept capacity size
      { l with waiting := l.window.map Prod.snd ++ l.waiting, window := [], nextTag := 1 }
      (tr ++ [.restart]) where
  count := by
    have exact_ := kept.count
    simp only [List.length_append, List.length_map, List.length_nil]
    omega
  bound := kept.bound
  room := Nat.zero_le _
  accepted := by simp [kept.accepted]
  live := by simp [kept.live, Ledger.live]
  sent := by
    refine ⟨tr ++ [.restart], [], .restart tr, ?_, rfl, rfl, rfl, fun _ _ member => nomatch member⟩
    change l.window.map Prod.snd ++ l.waiting = Ledger.live (tr ++ [.restart]) ++ []
    simp [kept.live, Ledger.live]
  retired b gone := by simpa using kept.retired b (by simpa using gone)
  once := by simpa using kept.once

theorem step {out : List (Event α)} (kept : Kept capacity size l tr)
    (nodup : (Ledger.accepted tr).Nodup) (move : Move capacity size l out l') :
    Kept capacity size l' (tr ++ out) := by
  cases move with
  | reserve room =>
      rw [List.append_nil]
      exact kept.reserve room
  | accept a held => exact kept.accept a held
  | enter first => exact kept.enter nodup first
  | publish first room => exact kept.publish first room
  | retire member => exact kept.retire nodup member
  | restart => exact kept.restart

end Kept

/-- A run that accepts distinct items keeps its ledger. -/
theorem kept_of_run (run : Run (Move capacity size) {} tr l) (nodup : (accepted tr).Nodup) :
    Kept capacity size l tr := by
  refine run.invariant (I := fun l tr => (accepted tr).Nodup → Kept capacity size l tr)
    (fun _ => .initial) ?_ nodup
  intro l tr out l' held move nodup
  rw [accepted_append] at nodup
  have earlier := (List.nodup_append.mp nodup).1
  exact (held earlier).step earlier move

omit [DecidableEq α] in
/-- A run can be stopped after any of its events. -/
theorem run_of_prefix {start : Ledger α} {tr' : List (Event α)}
    (run : Run (Move capacity size) start (tr ++ tr') l) : ∃ l', Run (Move capacity size) start tr l' := by
  generalize whole : tr ++ tr' = all at run
  induction run generalizing tr' with
  | refl =>
      obtain ⟨rfl, -⟩ := List.append_eq_nil_iff.mp whole
      exact ⟨start, .refl⟩
  | @tail earlier out l l' run move ih =>
      rcases List.append_eq_append_iff.mp whole with ⟨mid, first, -⟩ | ⟨mid, rfl, cut⟩
      · exact ih first.symm
      · have few : out.length ≤ 1 := by cases move <;> simp
        rw [cut, List.length_append] at few
        cases mid with
        | nil =>
            rw [List.append_nil]
            exact ⟨l, run⟩
        | cons e rest =>
            have none : tr' = [] := List.eq_nil_of_length_eq_zero (by
              rw [List.length_cons] at few
              omega)
            subst none
            rw [List.append_nil] at cut
            exact ⟨l', cut ▸ run.tail move⟩

/-- What is published between two restarts. -/
theorem published_between {before after rest : List (Event α)}
    (run : Run (Move capacity size) {} (before ++ after ++ rest) l)
    (nodup : (accepted (before ++ after ++ rest)).Nodup) (boundary : Boundary before)
    (one : .restart ∉ after) :
    (published after).map Prod.snd <+: live before ++ admitted after ∧
      (published after).map Prod.fst = List.range' 1 (published after).length := by
  obtain ⟨l', run'⟩ := run_of_prefix run
  rw [accepted_append] at nodup
  have kept := kept_of_run run' (List.nodup_append.mp nodup).1
  obtain ⟨before', after', since, order, tags, -⟩ := kept.sent
  have cut : Since (before ++ after) before after := ⟨rfl, boundary, one⟩
  obtain ⟨rfl, rfl⟩ := cut.unique since
  exact ⟨⟨l'.waiting, order⟩, tags⟩

end kept

end Ledger

end AIService
