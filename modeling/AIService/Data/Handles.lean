import Mathlib.Data.List.Basic

/-!
# Handles

The handles of a library: each is opened, used while it is open and closed.  `stillOpen` replays
what some code does with them; it stops where a handle is opened twice, used or closed while it is
not open.
-/

namespace AIService

/-- What code does with a handle. -/
inductive Use (α : Type)
  | opened (h : α)
  | used (h : α)
  | closed (h : α)

variable {α : Type} [DecidableEq α]

def Use.apply : Use α → List α → Option (List α)
  | .opened h, open_ => if h ∈ open_ then none else some (h :: open_)
  | .used h, open_ => if h ∈ open_ then some open_ else none
  | .closed h, open_ => if h ∈ open_ then some (open_.erase h) else none

/-- The handles that are open afterwards. -/
def stillOpen (open_ : List α) : List (Use α) → Option (List α)
  | [] => some open_
  | use :: rest => (use.apply open_).bind (stillOpen · rest)

theorem stillOpen_append (open_ : List α) (uses uses' : List (Use α)) :
    stillOpen open_ (uses ++ uses') = (stillOpen open_ uses).bind (stillOpen · uses') := by
  induction uses generalizing open_ with
  | nil => rfl
  | cons use rest ih =>
      rw [List.cons_append, stillOpen, stillOpen, Option.bind_assoc]
      exact congrArg _ (funext ih)

/-- The code leaves nothing open that it opened. -/
def Releases (uses : List (Use α)) : Prop :=
  ∀ open_, (∀ h, .opened h ∈ uses → h ∉ open_) → stillOpen open_ uses = some open_

theorem Releases.nil : Releases ([] : List (Use α)) := fun _ _ => rfl

theorem Releases.append {uses uses' : List (Use α)} (first : Releases uses) (second : Releases uses') :
    Releases (uses ++ uses') := by
  intro open_ fresh
  rw [stillOpen_append, first open_ fun h member => fresh h (List.mem_append_left _ member)]
  exact second open_ fun h member => fresh h (List.mem_append_right _ member)

theorem Releases.flatMap {β : Type} {f : β → List (Use α)} {xs : List β} (each : ∀ x ∈ xs, Releases (f x)) :
    Releases (xs.flatMap f) := by
  induction xs with
  | nil => exact .nil
  | cons x rest ih =>
      rw [List.flatMap_cons]
      exact (each x List.mem_cons_self).append (ih fun y member => each y (List.mem_cons_of_mem _ member))

end AIService
