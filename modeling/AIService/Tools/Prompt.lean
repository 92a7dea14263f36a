import AIService.Data.Replace

/-!
# The prompt of the tool model

`AIConfig::buildPrompt` replaces the two placeholders of the template one after the other,
each time with a format string.  What it returns is the template with the placeholders
filled in when neither inserted text means something as a format string and the user input
brings no new placeholder about.
-/

namespace AIService.Tools

/-- The parameters stand in the order in which the map lists them. -/
structure AITool where
  name : Bytes
  params : List (Bytes × Bytes)
  desc : Bytes

structure AIConfig where
  promptTemplate_ : Bytes
  tools_ : List AITool

def userInputName : Bytes := bytes "\x7buser_input\x7d"

def toolListName : Bytes := bytes "\x7btool_list\x7d"

/-- The UTF-8 text `→`. -/
def arrow : Bytes := [226, 134, 146]

def AITool.line (t : AITool) : Bytes :=
  t.name ++ bytes "(" ++ ((t.params.map (·.1)).intersperse (bytes ", ")).flatten ++ bytes ") " ++ arrow ++
    bytes " " ++ t.desc ++ bytes "\n"

namespace AIConfig

def buildToolList (config : AIConfig) : Bytes := config.tools_.flatMap AITool.line

def buildPrompt (config : AIConfig) (userInput : Bytes) : Bytes :=
  let result := regexReplace userInputName userInput [] 0 config.promptTemplate_
  regexReplace toolListName config.buildToolList [] 0 result

end AIConfig

/-! ## Templates -/

/-- A placeholder, or a character that begins none. -/
inductive Part
  | userInput
  | toolList
  | char (b : UInt8)
deriving DecidableEq

/-- The first parts of a text, at most one for each unit of `fuel`. -/
def partsOf : Nat → Bytes → List Part
  | 0, _ => []
  | _ + 1, [] => []
  | fuel + 1, b :: rest =>
      if userInputName.isPrefixOf (b :: rest) then
        .userInput :: partsOf fuel ((b :: rest).drop userInputName.length)
      else if toolListName.isPrefixOf (b :: rest) then
        .toolList :: partsOf fuel ((b :: rest).drop toolListName.length)
      else .char b :: partsOf fuel rest

/-- The text of a part, with the placeholders filled in. -/
def Part.fill (userInput toolList : Bytes) : Part → Bytes
  | .userInput => userInput
  | .toolList => toolList
  | .char b => [b]

def fillAll (userInput toolList : Bytes) (parts : List Part) : Bytes :=
  parts.flatMap (Part.fill userInput toolList)

/-- With the user input in place a tool list placeholder begins only where the parts have
one. -/
def noNewToolList (userInput : Bytes) : List Part → Bool
  | [] => true
  | part :: after =>
      (part == .toolList || (part.fill userInput toolListName).tails.all fun r =>
        r.isEmpty || !toolListName.isPrefixOf (r ++ fillAll userInput toolListName after)) &&
      noNewToolList userInput after

namespace AIConfig

def parts (config : AIConfig) : List Part :=
  partsOf config.promptTemplate_.length config.promptTemplate_

/-- The template with its placeholders filled in and every other character kept. -/
def verbatim (config : AIConfig) (userInput : Bytes) : Bytes :=
  fillAll userInput config.buildToolList config.parts

end AIConfig

variable {userInput toolList : Bytes}

theorem partsOf_userInput (fuel : Nat) (rest : Bytes) :
    partsOf (fuel + 1) (userInputName ++ rest) = .userInput :: partsOf fuel rest := rfl

theorem partsOf_toolList (fuel : Nat) (rest : Bytes) :
    partsOf (fuel + 1) (toolListName ++ rest) = .toolList :: partsOf fuel rest := rfl

/-- How a text starts, and the parts it then has. -/
theorem partsOf_cases (fuel : Nat) (b : UInt8) (rest : Bytes) :
    (∃ more, b :: rest = userInputName ++ more) ∨ (∃ more, b :: rest = toolListName ++ more) ∨
      ¬ userInputName <+: b :: rest ∧ partsOf (fuel + 1) (b :: rest) = .char b :: partsOf fuel rest := by
  by_cases input : userInputName <+: b :: rest
  · obtain ⟨more, eq⟩ := input
    exact .inl ⟨more, eq.symm⟩
  by_cases tools : toolListName <+: b :: rest
  · obtain ⟨more, eq⟩ := tools
    exact .inr (.inl ⟨more, eq.symm⟩)
  refine .inr (.inr ⟨input, ?_⟩)
  rw [partsOf, if_neg (mt List.isPrefixOf_iff_prefix.mp input),
    if_neg (mt List.isPrefixOf_iff_prefix.mp tools)]

/-- The placeholders do not overlap. -/
theorem names_apart : ∀ r ∈ toolListName.tails, r ≠ [] → ¬ userInputName <+: r ∧ ¬ r <+: userInputName := by
  decide

/-- The first replacement. -/
theorem replace_userInput {fuel : Nat} {text : Bytes} (enough : text.length ≤ fuel) (since : Bytes)
    (plain : .userInput ∈ partsOf fuel text → isLiteral userInput = true) :
    regexReplace userInputName userInput since 0 text =
      fillAll userInput toolListName (partsOf fuel text) := by
  induction fuel generalizing text since with
  | zero =>
      rw [List.length_eq_zero_iff.mp (Nat.le_zero.mp enough)]
      rfl
  | succ fuel ih =>
      cases text with
      | nil => rfl
      | cons b rest =>
          rcases partsOf_cases fuel b rest with ⟨more, eq⟩ | ⟨more, eq⟩ | ⟨other, eq⟩
          · rw [eq, List.length_append] at enough
            have short : more.length ≤ fuel := by
              have long : userInputName.length = 12 := rfl
              omega
            rw [eq, partsOf_userInput] at plain ⊢
            rw [regexReplace_found since (plain List.mem_cons_self) (by decide),
              ih short [] fun member => plain (List.mem_cons_of_mem _ member)]
            rfl
          · rw [eq, List.length_append] at enough
            have short : more.length ≤ fuel := by
              have long : toolListName.length = 11 := rfl
              omega
            rw [eq, partsOf_toolList] at plain ⊢
            have copied : ∀ r ∈ toolListName.tails, r ≠ [] → ¬ userInputName <+: r ++ more := by
              intro r tail nonempty
              obtain ⟨apart, apart'⟩ := names_apart r tail nonempty
              exact not_prefix_append apart apart' more
            rw [regexReplace_copy since copied,
              ih short _ fun member => plain (List.mem_cons_of_mem _ member)]
            rfl
          · rw [eq] at plain ⊢
            have copied : ∀ r ∈ [b].tails, r ≠ [] → ¬ userInputName <+: r ++ rest := by
              intro r tail nonempty
              rcases List.mem_cons.mp tail with rfl | last
              · exact other
              · exact absurd (List.mem_singleton.mp last) nonempty
            rw [← List.singleton_append, regexReplace_copy since copied,
              ih (Nat.le_of_succ_le_succ enough) _ fun member => plain (List.mem_cons_of_mem _ member)]
            rfl

/-- The second replacement. -/
theorem replace_toolList {parts : List Part} (since : Bytes) (same : noNewToolList userInput parts = true)
    (plain : .toolList ∈ parts → isLiteral toolList = true) :
    regexReplace toolListName toolList since 0 (fillAll userInput toolListName parts) =
      fillAll userInput toolList parts := by
  induction parts generalizing since with
  | nil => rfl
  | cons part after ih =>
      rw [noNewToolList, Bool.and_eq_true, Bool.or_eq_true] at same
      obtain ⟨here, later⟩ := same
      have rest (since : Bytes) := ih since later fun member => plain (List.mem_cons_of_mem _ member)
      by_cases tool : part = .toolList
      · subst tool
        change regexReplace _ _ _ _ (toolListName ++ fillAll userInput toolListName after) =
          toolList ++ fillAll userInput toolList after
        rw [regexReplace_found since (plain List.mem_cons_self) (by decide), rest]
      · have quiet := here.resolve_left (by simpa using tool)
        have copied : ∀ r ∈ (part.fill userInput toolListName).tails, r ≠ [] →
            ¬ toolListName <+: r ++ fillAll userInput toolListName after := by
          intro r tail nonempty before
          have none := List.all_eq_true.mp quiet r tail
          rw [List.isPrefixOf_iff_prefix.mpr before] at none
          simp [nonempty] at none
        have kept : part.fill userInput toolList = part.fill userInput toolListName := by
          cases part with
          | toolList => exact absurd rfl tool
          | userInput => rfl
          | char b => rfl
        change regexReplace _ _ _ _ (part.fill userInput toolListName ++ fillAll userInput toolListName after) =
          part.fill userInput toolList ++ fillAll userInput toolList after
        rw [regexReplace_copy since copied, rest, kept]

/-- `buildPrompt` fills in the template. -/
theorem buildPrompt_verbatim (config : AIConfig) (userInput : Bytes)
    (plainInput : .userInput ∈ config.parts → isLiteral userInput = true)
    (plainTools : .toolList ∈ config.parts → isLiteral config.buildToolList = true)
    (same : noNewToolList userInput config.parts = true) :
    config.buildPrompt userInput = config.verbatim userInput := by
  rw [AIConfig.buildPrompt, replace_userInput (Nat.le_refl _) [] plainInput]
  exact replace_toolList [] same plainTools

theorem buildPrompt_verbatim_weather :
    AIConfig.buildPrompt
        ⟨userInputName ++ toolListName, [⟨bytes "get_weather", [(bytes "city", [])], bytes "today"⟩]⟩
        (bytes "Rain for $ 5?") =
      AIConfig.verbatim
        ⟨userInputName ++ toolListName, [⟨bytes "get_weather", [(bytes "city", [])], bytes "today"⟩]⟩
        (bytes "Rain for $ 5?") :=
  buildPrompt_verbatim _ _ (fun _ => by decide +kernel) (fun _ => by decide +kernel) (by decide +kernel)

-- A format string may give its own text by chance.
example : AIConfig.buildPrompt ⟨[36, 96] ++ userInputName, []⟩ [36, 96] =
    AIConfig.verbatim ⟨[36, 96] ++ userInputName, []⟩ [36, 96] := by decide +kernel

/-- The text `$$` arrives as `$`. -/
theorem buildPrompt_dollars :
    ¬ ∀ (config : AIConfig) (userInput : Bytes), config.buildPrompt userInput = config.verbatim userInput := by
  intro verbatim
  have same := verbatim ⟨userInputName, []⟩ [36, 36]
  revert same
  decide +kernel

end AIService.Tools
