import AIService.Data.Digits

/-!
# Replacement by format strings

`std::regex_replace` for an expression that matches one literal text.  The replacement is a
format string, in which `$` may stand before a letter with a meaning of its own.  A format
string without such a pair is inserted as it is.
-/

namespace AIService

/-- A match without groups, what precedes it since the last match, and all that follows. -/
structure Match where
  before : Bytes
  found : Bytes
  after : Bytes

/-- `$n`: the match itself is the only group. -/
def Match.group (m : Match) (n : Nat) : Bytes := if n = 0 then m.found else []

/-- `match_results::format`. -/
def Match.format (m : Match) : Bytes → Bytes
  | [] => []
  | [b] => [b]
  | b :: c :: rest =>
      if b ≠ 36 then b :: m.format (c :: rest)
      else if c = 36 then 36 :: m.format rest
      else if c = 38 then m.found ++ m.format rest
      else if c = 96 then m.before ++ m.format rest
      else if c = 39 then m.after ++ m.format rest
      else if isDigit c then
        match rest with
        | [] => m.group (digitsValue [c])
        | d :: more =>
            if isDigit d then m.group (digitsValue [c, d]) ++ m.format more
            else m.group (digitsValue [c]) ++ m.format (d :: more)
      else 36 :: m.format (c :: rest)

/-- The letters that mean something after a `$`. -/
def isFormatLetter (c : UInt8) : Bool := c == 36 || c == 38 || c == 96 || c == 39 || isDigit c

/-- No `$` stands before such a letter. -/
def isLiteral : Bytes → Bool
  | b :: c :: rest => !(b == 36 && isFormatLetter c) && isLiteral (c :: rest)
  | _ => true

theorem format_of_isLiteral (m : Match) {text : Bytes} (literal : isLiteral text = true) :
    m.format text = text := by
  induction text with
  | nil => rfl
  | cons b text ih =>
      cases text with
      | nil => rfl
      | cons c rest =>
          rw [isLiteral, Bool.and_eq_true] at literal
          obtain ⟨here, later⟩ := literal
          rw [Match.format.eq_def]
          dsimp only
          split
          · rw [ih later]
          · next dollar =>
              rw [ne_eq, Decidable.not_not] at dollar
              subst dollar
              have plain : isFormatLetter c = false := by simpa using here
              simp only [isFormatLetter, Bool.or_eq_false_iff, beq_eq_false_iff_ne] at plain
              obtain ⟨⟨⟨⟨dollar, whole⟩, early⟩, late⟩, digit⟩ := plain
              rw [if_neg dollar, if_neg whole, if_neg early, if_neg late, digit,
                if_neg Bool.false_ne_true, ih later]

/-- `regex_replace`; `since` is what was copied since the last match, and the next `skip`
bytes belong to it. -/
def regexReplace (needle fmt : Bytes) (since : Bytes) (skip : Nat) : Bytes → Bytes
  | [] => []
  | b :: rest =>
      match skip with
      | k + 1 => regexReplace needle fmt since k rest
      | 0 =>
          if needle.isPrefixOf (b :: rest) then
            Match.format ⟨since, needle, (b :: rest).drop needle.length⟩ fmt ++
              regexReplace needle fmt [] (needle.length - 1) rest
          else b :: regexReplace needle fmt (since ++ [b]) 0 rest

section

variable {needle fmt : Bytes} (since : Bytes)

theorem regexReplace_skip (skipped text : Bytes) :
    regexReplace needle fmt since skipped.length (skipped ++ text) =
      regexReplace needle fmt since 0 text := by
  induction skipped with
  | nil => rfl
  | cons b skipped ih => exact ih

/-- A match is replaced by a literal format string. -/
theorem regexReplace_found (literal : isLiteral fmt = true) (nonempty : needle ≠ []) (text : Bytes) :
    regexReplace needle fmt since 0 (needle ++ text) = fmt ++ regexReplace needle fmt [] 0 text := by
  cases needle with
  | nil => exact absurd rfl nonempty
  | cons b needle =>
      have here : (b :: needle).isPrefixOf (b :: (needle ++ text)) = true :=
        List.isPrefixOf_iff_prefix.mpr ⟨text, rfl⟩
      rw [List.cons_append, regexReplace.eq_def]
      dsimp only
      rw [if_pos here, format_of_isLiteral _ literal, List.length_cons, Nat.add_sub_cancel,
        regexReplace_skip]

/-- Text in which no match begins is copied. -/
theorem regexReplace_copy {copied text : Bytes}
    (none : ∀ r ∈ copied.tails, r ≠ [] → ¬ needle <+: r ++ text) :
    regexReplace needle fmt since 0 (copied ++ text) =
      copied ++ regexReplace needle fmt (since ++ copied) 0 text := by
  induction copied generalizing since with
  | nil => rw [List.nil_append, List.append_nil, List.nil_append]
  | cons b copied ih =>
      have other : ¬ needle.isPrefixOf (b :: (copied ++ text)) = true := by
        intro here
        exact none (b :: copied) (by simp) (List.cons_ne_nil b copied)
          (List.isPrefixOf_iff_prefix.mp here)
      have later : ∀ r ∈ copied.tails, r ≠ [] → ¬ needle <+: r ++ text := by
        intro r tail
        exact none r (List.mem_cons_of_mem _ tail)
      rw [List.cons_append, regexReplace.eq_def]
      dsimp only
      rw [if_neg other, ih (since ++ [b]) later, List.append_assoc]
      rfl

end

/-- Two texts that differ where both have a character: whatever follows the first, it does
not start with the second. -/
theorem not_prefix_append {needle text : Bytes} (other : ¬ needle <+: text) (other' : ¬ text <+: needle)
    (more : Bytes) : ¬ needle <+: text ++ more := by
  intro before
  rcases List.prefix_or_prefix_of_prefix before (List.prefix_append text more) with inside | outside
  · exact other inside
  · exact other' outside

end AIService
