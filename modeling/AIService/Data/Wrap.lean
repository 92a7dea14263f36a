import Mathlib.Data.List.Basic

/-!
# Lines of a fixed width

`wrap sep n s` puts `sep` into `s` after every `n` items, as long as more items follow.
-/

namespace AIService

variable {α : Type} {sep : α} {n room : Nat} {s : List α}

/-- `room` items fit on the line that is being written. -/
def wrapFrom (sep : α) (n : Nat) : Nat → List α → List α
  | _, [] => []
  | 0, a :: rest => sep :: a :: wrapFrom sep n (n - 1) rest
  | room + 1, a :: rest => a :: wrapFrom sep n room rest

def wrap (sep : α) (n : Nat) (s : List α) : List α := wrapFrom sep n n s

@[simp] theorem wrapFrom_nil : wrapFrom sep n room [] = [] := by
  unfold wrapFrom
  rfl

/-- One line at a time. -/
theorem wrapFrom_eq (wide : 0 < n) : wrapFrom sep n room s =
    if room < s.length then s.take room ++ sep :: wrap sep n (s.drop room) else s := by
  induction s generalizing room with
  | nil => simp
  | cons a rest ih =>
      cases room with
      | zero =>
          obtain ⟨m, rfl⟩ := Nat.exists_eq_add_one_of_ne_zero (Nat.pos_iff_ne_zero.mp wide)
          simp [wrapFrom, wrap]
      | succ room =>
          rw [wrapFrom, ih]
          by_cases more : room < rest.length
          · simp [more]
          · simp [more]

theorem wrap_eq (wide : 0 < n) : wrap sep n s =
    if n < s.length then s.take n ++ sep :: wrap sep n (s.drop n) else s :=
  wrapFrom_eq wide

/-- Without the separators the text is back. -/
theorem filter_wrapFrom [DecidableEq α] (plain : sep ∉ s) :
    (wrapFrom sep n room s).filter (· ≠ sep) = s := by
  induction s generalizing room with
  | nil => simp
  | cons a rest ih =>
      obtain ⟨other, later⟩ := not_or.mp (mt List.mem_cons.mpr plain)
      have kept : a ≠ sep := Ne.symm other
      cases room with
      | zero =>
          rw [wrapFrom]
          simpa [kept] using ih later
      | succ room =>
          rw [wrapFrom]
          simpa [kept] using ih later

/-- The separators stand at the end of each full line and nowhere else. -/
theorem getElem?_wrapFrom (wide : 0 < n) (plain : sep ∉ s) (fits : room ≤ n) {i : Nat} :
    (wrapFrom sep n room s)[i]? = some sep ↔
      i < (wrapFrom sep n room s).length ∧ (i + (n - room)) % (n + 1) = n := by
  induction s generalizing room i with
  | nil => simp
  | cons a rest ih =>
      obtain ⟨other, later⟩ := not_or.mp (mt List.mem_cons.mpr plain)
      cases room with
      | zero =>
          rw [wrapFrom]
          match i with
          | 0 => simp
          | 1 =>
              simp only [List.getElem?_cons_succ, List.getElem?_cons_zero, Option.some.injEq, Nat.sub_zero]
              have wraps : (1 + n) % (n + 1) = 0 := by rw [Nat.add_comm, Nat.mod_self]
              rw [wraps]
              exact ⟨fun same => absurd same.symm other, fun at_ => by omega⟩
          | i + 2 =>
              have position : (i + 2 + (n - 0)) % (n + 1) = (i + (n - (n - 1))) % (n + 1) := by
                rw [show i + 2 + (n - 0) = i + (n - (n - 1)) + (n + 1) by omega, Nat.add_mod_right]
              simp only [List.getElem?_cons_succ, List.length_cons, position]
              rw [ih later (Nat.sub_le n 1)]
              omega
      | succ room =>
          rw [wrapFrom]
          match i with
          | 0 =>
              simp only [List.getElem?_cons_zero, Option.some.injEq]
              have early : (0 + (n - (room + 1))) % (n + 1) = n - (room + 1) := by
                rw [Nat.zero_add]
                exact Nat.mod_eq_of_lt (by omega)
              rw [early]
              exact ⟨fun same => absurd same.symm other, fun at_ => by omega⟩
          | i + 1 =>
              have position : i + 1 + (n - (room + 1)) = i + (n - room) := by omega
              simp only [List.getElem?_cons_succ, List.length_cons, position]
              rw [ih later (by omega)]
              omega

theorem wrapFrom_ne_nil (some_ : s ≠ []) : wrapFrom sep n room s ≠ [] := by
  cases s with
  | nil => exact absurd rfl some_
  | cons a rest => cases room <;> exact List.cons_ne_nil _ _

/-- The last line is not empty. -/
theorem getLast?_wrapFrom : (wrapFrom sep n room s).getLast? = s.getLast? := by
  induction s generalizing room with
  | nil => simp
  | cons a rest ih =>
      cases rest with
      | nil => cases room <;> simp [wrapFrom]
      | cons b later =>
          cases room <;>
            simp only [wrapFrom, List.getLast?_cons_of_ne_nil (wrapFrom_ne_nil (List.cons_ne_nil b later)),
              List.getLast?_cons_of_ne_nil (List.cons_ne_nil _ _), ih]

end AIService
