import AIService.Sessions.Manager
import Mathlib.Data.List.Chain

/-!
# How long an identity is meant to live

The specification side: from the trace alone, `Alive` says which session a cookie value
names at a given time.  `status` is the same as a fold over the trace, with the time of
the last access as its only memory; `alive_iff` connects the two.
-/

namespace AIService.Sessions

/-- The times at which some `getSession` looked `c` up. -/
def accessTimes (c : Bytes) (tr : List Obs) : List Time :=
  tr.filterMap fun
    | .resumed _ id at_ .. => if id = c then some at_ else none
    | .missed _ id at_ _ => if id = c then some at_ else none
    | _ => none

/-- Each access comes less than `maxAge` after the one before. -/
abbrev Unbroken (maxAge : Time) : List Time → Prop :=
  List.IsChain fun earlier later => later < earlier + maxAge

/-- At time `now` the cookie value `c` names `ref`: it was issued for `ref`, it was not
destroyed since, and no gap between consecutive accesses, the one at `now` included,
reached `maxAge`. -/
def Alive (maxAge : Time) (tr : List Obs) (c : Bytes) (ref : Ref) (now : Time) : Prop :=
  ∃ before call born resp after, tr = before ++ .issued call c ref born resp :: after ∧
    .destroyed c ∉ after ∧ Unbroken maxAge (born :: accessTimes c after ++ [now])

/-- `c` is issued in `tr`. -/
def Issued (tr : List Obs) (c : Bytes) : Prop :=
  ∃ call ref born resp, .issued call c ref born resp ∈ tr

/-- The session `c` names and its last access, after one more observation. -/
def observe (maxAge : Time) (c : Bytes) (st : Option (Ref × Time)) : Obs → Option (Ref × Time)
  | .issued _ id ref born _ => if id = c then some (ref, born) else st
  | .resumed _ id at_ .. | .missed _ id at_ _ =>
      if id = c then st.bind fun (ref, last) =>
        if at_ < last + maxAge then some (ref, at_) else none
      else st
  | .destroyed id => if id = c then none else st
  | .refused .. | .gotValue .. => st

def status (maxAge : Time) (c : Bytes) (tr : List Obs) : Option (Ref × Time) :=
  tr.foldl (observe maxAge c) none

theorem status_append_singleton (maxAge : Time) (c : Bytes) (tr : List Obs) (o : Obs) :
    status maxAge c (tr ++ [o]) = observe maxAge c (status maxAge c tr) o := by
  rw [status, List.foldl_append]
  rfl

/-- Before `c` is issued it names nothing. -/
theorem foldl_observe_none {maxAge : Time} {c : Bytes} {tr : List Obs} (never : ¬ Issued tr c) :
    tr.foldl (observe maxAge c) none = none := by
  induction tr with
  | nil => rfl
  | cons o rest ih =>
      have later : ¬ Issued rest c := by
        rintro ⟨call, ref, born, resp, member⟩
        exact never ⟨call, ref, born, resp, List.mem_cons_of_mem _ member⟩
      have still : observe maxAge c none o = none := by
        cases o with
        | issued call id ref born resp =>
            refine if_neg fun same => never ?_
            subst same
            exact ⟨call, ref, born, resp, List.mem_cons_self⟩
        | resumed | missed | destroyed => exact ite_self _
        | refused | gotValue => rfl
      rw [List.foldl_cons, still]
      exact ih later

/-- After `c` was issued, what it names is decided by its accesses and its destruction. -/
theorem foldl_observe_some {maxAge : Time} {c : Bytes} {ref ref' : Ref} {last last' : Time}
    {tr : List Obs} (never : ¬ Issued tr c) :
    tr.foldl (observe maxAge c) (some (ref, last)) = some (ref', last') ↔
      ref' = ref ∧ .destroyed c ∉ tr ∧ Unbroken maxAge (last :: accessTimes c tr) ∧
        (last :: accessTimes c tr).getLast (List.cons_ne_nil _ _) = last' := by
  induction tr generalizing last with
  | nil => simp [accessTimes, eq_comm]
  | cons o rest ih =>
      have later : ¬ Issued rest c := by
        rintro ⟨call, ref, born, resp, member⟩
        exact never ⟨call, ref, born, resp, List.mem_cons_of_mem _ member⟩
      have dead : rest.foldl (observe maxAge c) none = none := foldl_observe_none later
      rw [List.foldl_cons]
      cases o with
      | issued call id r born resp =>
          have other : id ≠ c := by
            rintro rfl
            exact never ⟨call, r, born, resp, List.mem_cons_self⟩
          rw [observe, if_neg other, ih later]
          simp [accessTimes]
      | resumed call id at_ r given resp =>
          by_cases same : id = c
          · subst same
            by_cases soon : at_ < last + maxAge
            · simp [observe, soon, ih later, accessTimes]
            · simp [observe, soon, dead, accessTimes]
          · rw [observe, if_neg same, ih later]
            simp [accessTimes, same]
      | missed call id at_ given =>
          by_cases same : id = c
          · subst same
            by_cases soon : at_ < last + maxAge
            · simp [observe, soon, ih later, accessTimes]
            · simp [observe, soon, dead, accessTimes]
          · rw [observe, if_neg same, ih later]
            simp [accessTimes, same]
      | destroyed id =>
          by_cases same : id = c
          · subst same
            simp [observe, dead]
          · rw [observe, if_neg same, ih later]
            simp [accessTimes, Ne.symm same]
      | refused | gotValue =>
          rw [observe, ih later]
          simp [accessTimes]

/-- In a trace that issues `c` at most once, `Alive` is decided by `status`. -/
theorem alive_iff {maxAge : Time} {c : Bytes} {ref : Ref} {now : Time} {tr : List Obs}
    (once : ∀ before call r born resp after,
      tr = before ++ .issued call c r born resp :: after → ¬ Issued after c) :
    Alive maxAge tr c ref now ↔
      ∃ last, status maxAge c tr = some (ref, last) ∧ now < last + maxAge := by
  have chain (born : Time) (after : List Obs) :
      Unbroken maxAge (born :: accessTimes c after ++ [now]) ↔
        Unbroken maxAge (born :: accessTimes c after) ∧
          now < (born :: accessTimes c after).getLast (List.cons_ne_nil _ _) +
            maxAge := by
    rw [Unbroken, List.isChain_append]
    simp [List.getLast?_eq_some_getLast]
  constructor
  · rintro ⟨before, call, born, resp, after, rfl, kept, unbroken⟩
    obtain ⟨gaps, soon⟩ := (chain born after).mp unbroken
    refine ⟨_, ?_, soon⟩
    rw [status, List.foldl_append, List.foldl_cons, observe, if_pos rfl]
    exact (foldl_observe_some (once _ _ _ _ _ _ rfl)).mpr ⟨rfl, kept, gaps, rfl⟩
  · rintro ⟨last, named, soon⟩
    have issued : Issued tr c := by
      by_contra never
      rw [status, foldl_observe_none never] at named
      cases named
    obtain ⟨call, r, born, resp, member⟩ := issued
    obtain ⟨before, after, rfl⟩ := List.append_of_mem member
    rw [status, List.foldl_append, List.foldl_cons, observe, if_pos rfl] at named
    obtain ⟨rfl, kept, gaps, rfl⟩ := (foldl_observe_some (once _ _ _ _ _ _ rfl)).mp named
    exact ⟨before, call, born, resp, after, rfl, kept, (chain born after).mpr ⟨gaps, soon⟩⟩

end AIService.Sessions
