import AIService.Basic
import Mathlib.Data.List.TakeWhile

/-!
# Regular expressions

`RegexEngine` stands for a regular expression library.  What is said of one is what ECMAScript
says of expressions made of single characters, the dot, and groups `([^c]+)`: an engine is
`ECMAScript` when it reads such an expression and matches it the way `matchAtoms` does.
-/

namespace AIService

/-- The constructor of an expression, which throws on text that is none, and the match of a
whole text, which gives the texts of the groups. -/
structure RegexEngine (ρ : Type) where
  compile : Bytes → Option ρ
  regexMatch : ρ → Bytes → Option (List Bytes)

/-- The characters that do not stand for themselves. -/
def isSyntax (b : UInt8) : Bool := (bytes "^$\\.*+?()[]\x7b\x7d|").contains b

inductive Atom
  | char (b : UInt8)
  | dot
  /-- `([^c]+)`. -/
  | group (c : UInt8)
deriving DecidableEq

namespace Atom

def text : Atom → Bytes
  | .char b => [b]
  | .dot => [46]
  | .group c => bytes "([^" ++ [c] ++ bytes "]+)"

/-- Its text is read as this atom. -/
def WellFormed : Atom → Prop
  | .char b => isSyntax b = false
  | .dot => True
  | .group c => isSyntax c = false

end Atom

/-- `^`, the atoms and `$`. -/
def anchored (atoms : List Atom) : Bytes := 94 :: (atoms.flatMap Atom.text ++ [36])

/-- The ways to take characters other than `c` off a text, the greedy one first. -/
def splits (c : UInt8) : Bytes → List (Bytes × Bytes)
  | [] => []
  | b :: rest =>
      if b = c then []
      else ((splits c rest).map fun (taken, rest) => (b :: taken, rest)) ++ [([b], rest)]

/-- Match a whole text; of several ways the first in the order of the choices. -/
def matchAtoms : List Atom → Bytes → Option (List Bytes)
  | [], text => if text = [] then some [] else none
  | .char b :: atoms, text =>
      match text with
      | [] => none
      | c :: rest => if c = b then matchAtoms atoms rest else none
  | .dot :: atoms, text =>
      match text with
      | [] => none
      | c :: rest => if c = 10 ∨ c = 13 then none else matchAtoms atoms rest
  | .group c :: atoms, text =>
      (splits c text).findSome? fun (taken, rest) => (matchAtoms atoms rest).map (taken :: ·)

structure RegexEngine.ECMAScript {ρ : Type} (engine : RegexEngine ρ) : Prop where
  reads (atoms : List Atom) : (∀ atom ∈ atoms, atom.WellFormed) →
    ∃ regex, engine.compile (anchored atoms) = some regex ∧
      ∀ text, engine.regexMatch regex text = matchAtoms atoms text

/-! ## Matching -/

theorem matchAtoms_chars (literal : Bytes) (atoms : List Atom) (text : Bytes) :
    matchAtoms (literal.map .char ++ atoms) text =
      if literal <+: text then matchAtoms atoms (text.drop literal.length) else none := by
  induction literal generalizing text with
  | nil => simp
  | cons b literal ih =>
      rw [List.map_cons, List.cons_append, matchAtoms.eq_def]
      cases text with
      | nil => simp
      | cons c rest =>
          dsimp only
          by_cases same : c = b
          · rw [if_pos same, ih, same]
            simp only [List.cons_prefix_cons, true_and, List.length_cons, List.drop_succ_cons]
          · rw [if_neg same, if_neg]
            intro starts
            exact same (List.cons_prefix_cons.mp starts).1.symm

/-- After `atoms` a group of characters other than `c` is over. -/
def Closes (c : UInt8) (atoms : List Atom) : Prop := atoms = [] ∨ ∃ later, atoms = .char c :: later

theorem Closes.fails {c : UInt8} {atoms : List Atom} (closes : Closes c atoms) {b : UInt8}
    (other : b ≠ c) (rest : Bytes) : matchAtoms atoms (b :: rest) = none := by
  rcases closes with rfl | ⟨later, rfl⟩
  · rfl
  · rw [matchAtoms.eq_def]
    exact if_neg other

/-- All ways but the greedy one leave a character other than `c` behind. -/
theorem splits_eq (c : UInt8) (text : Bytes) :
    (text.takeWhile (· ≠ c) = [] ∧ splits c text = []) ∨
    ∃ shorter, splits c text = (text.takeWhile (· ≠ c), text.dropWhile (· ≠ c)) :: shorter ∧
      text.takeWhile (· ≠ c) ≠ [] ∧ ∀ way ∈ shorter, ∃ b rest, way.2 = b :: rest ∧ b ≠ c := by
  induction text with
  | nil => exact .inl ⟨rfl, rfl⟩
  | cons b rest ih =>
      by_cases same : b = c
      · left
        simp [splits, same]
      · right
        have taken : (b :: rest).takeWhile (· ≠ c) = b :: rest.takeWhile (· ≠ c) := by simp [same]
        have left' : (b :: rest).dropWhile (· ≠ c) = rest.dropWhile (· ≠ c) := by simp [same]
        rw [splits, if_neg same, taken, left']
        rcases ih with ⟨none, empty⟩ | ⟨shorter, eq, -, others⟩
        · refine ⟨[], ?_, List.cons_ne_nil _ _, fun way member => absurd member List.not_mem_nil⟩
          have whole := rest.takeWhile_append_dropWhile (p := (· ≠ c))
          rw [none, List.nil_append] at whole
          rw [empty, none, whole]
          rfl
        · refine ⟨(shorter.map fun (taken, rest) => (b :: taken, rest)) ++ [([b], rest)], ?_,
            List.cons_ne_nil _ _, fun way member => ?_⟩
          · rw [eq]
            rfl
          · rcases List.mem_append.mp member with early | last
            · obtain ⟨way', old, rfl⟩ := List.mem_map.mp early
              exact others way' old
            · rw [List.mem_singleton.mp last]
              cases rest with
              | nil => cases eq
              | cons b' rest =>
                  refine ⟨b', rest, rfl, fun same' => ?_⟩
                  rw [splits, if_pos same'] at eq
                  cases eq

/-- A group takes all it can, where nothing after it could take a part of that. -/
theorem matchAtoms_group {c : UInt8} {atoms : List Atom} (closes : Closes c atoms) (text : Bytes) :
    matchAtoms (.group c :: atoms) text =
      if text.takeWhile (· ≠ c) = [] then none
      else (matchAtoms atoms (text.dropWhile (· ≠ c))).map (text.takeWhile (· ≠ c) :: ·) := by
  rw [matchAtoms.eq_def]
  dsimp only
  rcases splits_eq c text with ⟨none, empty⟩ | ⟨shorter, eq, some, others⟩
  · rw [if_pos none, empty]
    rfl
  · have fails : shorter.findSome? (fun (taken, rest) => (matchAtoms atoms rest).map (taken :: ·)) =
        none := by
      refine List.findSome?_eq_none_iff.mpr fun way member => ?_
      obtain ⟨taken, left'⟩ := way
      obtain ⟨b, rest, rfl, other⟩ := others _ member
      exact congrArg (Option.map _) (closes.fails other rest)
    rw [if_neg some, eq, List.findSome?_cons, fails]
    dsimp only
    cases matchAtoms atoms (text.dropWhile (· ≠ c)) <;> rfl

/-! ## An engine -/

/-- The atoms up to the final `$`. -/
def readAtoms : Bytes → Option (List Atom)
  | [] => none
  | b :: rest =>
      if b = 36 then if rest = [] then some [] else none
      else if b = 46 then (readAtoms rest).map (.dot :: ·)
      else if b = 40 then
        match rest with
        | 91 :: 94 :: c :: 93 :: 43 :: 41 :: rest =>
            if isSyntax c then none else (readAtoms rest).map (.group c :: ·)
        | _ => none
      else if isSyntax b then none
      else (readAtoms rest).map (.char b :: ·)

/-- An engine for these expressions and no others. -/
def atomEngine : RegexEngine (List Atom) where
  compile
    | 94 :: rest => readAtoms rest
    | _ => none
  regexMatch := matchAtoms

theorem readAtoms_text {atom : Atom} (fine : atom.WellFormed) (rest : Bytes) :
    readAtoms (atom.text ++ rest) = (readAtoms rest).map (atom :: ·) := by
  cases atom with
  | char b =>
      have plain : isSyntax b = false := fine
      have others : b ≠ 36 ∧ b ≠ 46 ∧ b ≠ 40 := by
        refine ⟨?_, ?_, ?_⟩ <;> rintro rfl <;> exact absurd plain (by decide +kernel)
      rw [Atom.text, List.cons_append, List.nil_append, readAtoms.eq_def]
      dsimp only
      rw [if_neg others.1, if_neg others.2.1, if_neg others.2.2, plain]
      rfl
  | dot =>
      rw [Atom.text, List.cons_append, List.nil_append, readAtoms.eq_def]
      rfl
  | group c =>
      have plain : isSyntax c = false := fine
      have shape : (Atom.group c).text = [40, 91, 94, c, 93, 43, 41] := rfl
      rw [shape]
      simp only [List.cons_append, List.nil_append]
      rw [readAtoms.eq_def]
      dsimp only
      rw [if_neg (by decide), if_neg (by decide), if_pos rfl]
      change (if isSyntax c then none else (readAtoms rest).map (.group c :: ·)) = _
      rw [plain]
      rfl

theorem atomEngine_ecmaScript : atomEngine.ECMAScript where
  reads atoms fine := by
    refine ⟨atoms, ?_, fun _ => rfl⟩
    change readAtoms (atoms.flatMap Atom.text ++ [36]) = some atoms
    induction atoms with
    | nil => rfl
    | cons atom atoms ih =>
        rw [List.flatMap_cons, List.append_assoc, readAtoms_text (fine atom List.mem_cons_self),
          ih fun other member => fine other (List.mem_cons_of_mem _ member)]
        rfl

end AIService
