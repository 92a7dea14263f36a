import AIService.Data.Digits
import AIService.Data.Text

/-!
# Views into a string

`std::string_view` over a string `s`, with every read checked.  `Window s v text` says that the
view `v` shows `text`; what the operations do is then said in terms of `text`, and none of them
leaves the view.
-/

namespace AIService

inductive ViewFault
  /-- A read beyond the view, or a view beyond the string. -/
  | outside
  /-- `std::out_of_range`. -/
  | outOfRange
deriving DecidableEq

structure View where
  start : Nat
  length : Nat

namespace View

variable (s : Bytes) (v : View)

/-- `string_view(s.data() + start, length)`. -/
def make (start length : Nat) : Except ViewFault View :=
  if start + length ≤ s.length then .ok ⟨start, length⟩ else .error .outside

/-- `v[i]`. -/
def read (i : Nat) : Except ViewFault UInt8 :=
  if i < v.length then
    match s[v.start + i]? with
    | some b => .ok b
    | none => .error .outside
  else .error .outside

/-- The search of `find` from `i` on, with `left` bytes to go. -/
def findFrom (ch : UInt8) : Nat → Nat → Except ViewFault (Option Nat)
  | 0, _ => .ok none
  | left + 1, i =>
      (v.read s i).bind fun b => if b = ch then .ok (some i) else findFrom ch left (i + 1)

def find (ch : UInt8) : Except ViewFault (Option Nat) := v.findFrom s ch v.length 0

def removePrefix (n : Nat) : Except ViewFault View :=
  if n ≤ v.length then .ok ⟨v.start + n, v.length - n⟩ else .error .outside

/-- `substr(pos, count)`; without `count`, up to the end. -/
def substr (pos : Nat) (count : Option Nat) : Except ViewFault View :=
  if pos ≤ v.length then .ok ⟨v.start + pos, min (count.getD v.length) (v.length - pos)⟩
  else .error .outOfRange

/-- The digits from `i` on, at most `left`: their value after `value`, and where they end. -/
def digitsFrom : Nat → Nat → Nat → Except ViewFault (Nat × Nat)
  | 0, i, value => .ok (value, i)
  | left + 1, i, value =>
      (v.read s i).bind fun b =>
        if isDigit b then digitsFrom left (i + 1) (value * 10 + (b - 48).toNat) else .ok (value, i)

/-- `std::from_chars(v.data(), v.data() + last, n)` for an `int`: the number, unless there is an
error, and where it ends. -/
def fromChars (last : Nat) : Except ViewFault (Option Int × Nat) :=
  (if 0 < last then (v.read s 0).map (· == 45) else .ok false).bind fun negative =>
    let first := if negative then 1 else 0
    (v.digitsFrom s (last - first) first 0).bind fun (value, ptr) =>
      let signed : Int := if negative then -value else value
      if ptr = first then .ok (none, 0)
      else if signed < -2147483648 ∨ 2147483647 < signed then .ok (none, ptr)
      else .ok (some signed, ptr)

end View

/-! ## Windows -/

/-- The view shows `text`. -/
def Window (s : Bytes) (v : View) (text : Bytes) : Prop :=
  ∃ front back, s = front ++ text ++ back ∧ front.length = v.start ∧ text.length = v.length

namespace Window

variable {s text : Bytes} {v : View}

theorem make (front text : Bytes) : ∃ v, View.make (front ++ text) front.length text.length = .ok v ∧
    Window (front ++ text) v text := by
  refine ⟨⟨front.length, text.length⟩, if_pos ?_, front, [], ?_, rfl, rfl⟩
  · rw [List.length_append]
  · rw [List.append_nil]

theorem length (window : Window s v text) : text.length = v.length := by
  obtain ⟨_, _, -, -, length⟩ := window
  exact length

theorem read (window : Window s v text) {i : Nat} {b : UInt8} (here : text[i]? = some b) :
    v.read s i = .ok b := by
  obtain ⟨front, back, rfl, start, length⟩ := window
  have inside : i < text.length := (List.getElem?_eq_some_iff.mp here).1
  have there : (front ++ text ++ back)[v.start + i]? = some b := by
    rw [List.append_assoc, ← start, List.getElem?_append_right (by omega), Nat.add_sub_cancel_left,
      List.getElem?_append_left inside, here]
  rw [View.read, if_pos (length ▸ inside), there]

/-- The byte after the first bytes of the text. -/
theorem read_append {done : Bytes} {b : UInt8} {rest : Bytes} (window : Window s v (done ++ b :: rest)) :
    v.read s done.length = .ok b := by
  apply window.read
  rw [List.getElem?_append_right (Nat.le_refl _), Nat.sub_self]
  rfl

theorem findFrom {done rest : Bytes} (window : Window s v (done ++ rest)) (ch : UInt8) :
    v.findFrom s ch rest.length done.length =
      .ok ((cut ch rest).map fun (l, _) => done.length + l.length) := by
  induction rest generalizing done with
  | nil => rfl
  | cons b rest ih =>
      rw [List.length_cons, View.findFrom, window.read_append, cut]
      change (if b = ch then Except.ok (some done.length) else v.findFrom s ch rest.length (done.length + 1)) = _
      split
      · rfl
      · have later : Window s v ((done ++ [b]) ++ rest) := by rwa [List.append_assoc]
        have next := ih later
        rw [List.length_append] at next
        refine next.trans ?_
        cases cut ch rest with
        | none => rfl
        | some parts =>
            refine congrArg (Except.ok ∘ some) ?_
            simp
            omega

/-- `find` gives the place of the first `ch`. -/
theorem find (window : Window s v text) (ch : UInt8) :
    v.find s ch = .ok ((cut ch text).map fun (l, _) => l.length) := by
  have whole : Window s v ([] ++ text) := window
  have found := whole.findFrom ch
  obtain ⟨front, back, eq, start, length⟩ := window
  rw [View.find, ← length]
  refine found.trans ?_
  simp

theorem removePrefix {l r : Bytes} (window : Window s v (l ++ r)) :
    ∃ v', v.removePrefix l.length = .ok v' ∧ Window s v' r := by
  obtain ⟨front, back, rfl, start, length⟩ := window
  rw [List.length_append] at length
  refine ⟨_, if_pos (by omega), front ++ l, back, ?_, ?_, ?_⟩
  · simp only [List.append_assoc]
  · rw [List.length_append, start]
  · change r.length = v.length - l.length
    omega

/-- Without the first `ch` and what is before it. -/
theorem removePrefix_succ {l r : Bytes} {ch : UInt8} (window : Window s v (l ++ ch :: r)) :
    ∃ v', v.removePrefix (l.length + 1) = .ok v' ∧ Window s v' r := by
  have split : Window s v ((l ++ [ch]) ++ r) := by rwa [List.append_assoc]
  have removed := split.removePrefix
  rwa [List.length_append] at removed

/-- `substr(0, l.length)`. -/
theorem substr_left {l r : Bytes} (window : Window s v (l ++ r)) :
    ∃ v', v.substr 0 (some l.length) = .ok v' ∧ Window s v' l := by
  obtain ⟨front, back, rfl, start, length⟩ := window
  rw [List.length_append] at length
  refine ⟨_, if_pos (Nat.zero_le _), front, r ++ back, ?_, start, ?_⟩
  · simp only [List.append_assoc]
  · change l.length = min l.length (v.length - 0)
    omega

/-- `substr(l.length)`. -/
theorem substr_right {l r : Bytes} (window : Window s v (l ++ r)) :
    ∃ v', v.substr l.length none = .ok v' ∧ Window s v' r := by
  obtain ⟨front, back, rfl, start, length⟩ := window
  rw [List.length_append] at length
  refine ⟨_, if_pos (by omega), front ++ l, back, ?_, ?_, ?_⟩
  · simp only [List.append_assoc]
  · rw [List.length_append, start]
  · change r.length = min v.length (v.length - l.length)
    omega

theorem substr_succ {l r : Bytes} {ch : UInt8} (window : Window s v (l ++ ch :: r)) :
    ∃ v', v.substr (l.length + 1) none = .ok v' ∧ Window s v' r := by
  have split : Window s v ((l ++ [ch]) ++ r) := by rwa [List.append_assoc]
  have right := split.substr_right
  rwa [List.length_append] at right

/-- The digits are read up to the first byte that is none, or to `left`. -/
theorem digitsFrom {done row rest : Bytes} (window : Window s v (done ++ row ++ rest)) (value : Nat) :
    v.digitsFrom s row.length done.length value =
      .ok ((row.takeWhile isDigit).foldl (fun n b => n * 10 + (b - 48).toNat) value,
        done.length + (row.takeWhile isDigit).length) := by
  induction row generalizing done value with
  | nil => rfl
  | cons b row ih =>
      have here : Window s v (done ++ b :: (row ++ rest)) := by
        rwa [List.append_assoc] at window
      rw [List.length_cons, View.digitsFrom, here.read_append]
      change (if isDigit b = true then v.digitsFrom s row.length (done.length + 1) (value * 10 + (b - 48).toNat)
        else Except.ok (value, done.length)) = _
      cases digit : isDigit b with
      | false => simp [digit]
      | true =>
          have later : Window s v ((done ++ [b]) ++ row ++ rest) := by simpa using here
          have next := ih later (value * 10 + (b - 48).toNat)
          rw [List.length_append] at next
          rw [if_pos rfl, List.takeWhile_cons_of_pos digit, List.foldl_cons, List.length_cons]
          refine next.trans ?_
          simp
          omega

end Window

end AIService
