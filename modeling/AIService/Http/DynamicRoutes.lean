import AIService.Http.Router
import Mathlib.Data.List.Forall2

/-!
# Dynamic route patterns

A pattern is meant as segments between slashes, each a literal or a parameter `:name`.  The
router makes an expression of its text: `replaceParameters_join` says which, and where no
literal has a character of the syntax, the expression matches the paths the segments describe.
-/

namespace AIService.Http

/-! ## What a pattern says -/

/-- The segment is `:name`. -/
def isParameter : Bytes → Bool
  | 58 :: _ :: _ => true
  | _ => false

def SegmentMatches (segment text : Bytes) : Prop :=
  if isParameter segment then text ≠ [] ∧ (47 : UInt8) ∉ text else text = segment

/-- The path has the segments of the pattern. -/
def PathMatches (pattern path : Bytes) : Prop :=
  List.Forall₂ SegmentMatches (pattern.splitOn 47) (path.splitOn 47)

/-- The texts that stand for parameters. -/
def parametersOf (segments texts : List Bytes) : List Bytes :=
  ((segments.zip texts).filter fun p => isParameter p.1).map (·.2)

/-- A dynamic route of the pattern, which the vectors have taken. -/
inductive Registration.Dynamic {η κ : Type} (method : Method) (pattern : Bytes) : Registration η κ → Prop
  | handler (handler : η) : Dynamic method pattern (.regexHandler .done method pattern handler)
  | callback (callback : κ) : Dynamic method pattern (.regexCallback .done method pattern callback)

/-- Routes of the pattern match the paths the pattern says, and their targets see the texts of
the parameters in order. -/
structure MatchesAsWritten {ρ : Type} (engine : RegexEngine ρ) (pattern : Bytes) : Prop where
  found {η κ : Type} {method : Method} {reg : Registration η κ} : reg.Dynamic method pattern →
    ∀ req resp, req.method = method →
      ((∃ calls, (registerAll engine [reg]).route engine req resp = some (calls, true)) ↔
        PathMatches pattern req.path)
  sees {η κ : Type} {method : Method} {reg : Registration η κ} : reg.Dynamic method pattern →
    ∀ regs req resp groups, Selected engine regs req reg groups →
      ∃ newReq, (registerAll engine regs).route engine req resp =
          some ([⟨reg.target, newReq, resp.setLogRoute pattern⟩], true) ∧
        ∀ i text, (parametersOf (pattern.splitOn 47) (req.path.splitOn 47))[i]? = some text →
          newReq.pathParameters.find? (bytes "param" ++ digits (i + 1)) = some text

/-! ## Segments -/

/-- The text of segments. -/
def join (first : Bytes) (rest : List Bytes) : Bytes := first ++ rest.flatMap (47 :: ·)

/-- A text is its segments, which have no slash. -/
theorem splitOn_spec (text : Bytes) : ∃ first rest, text.splitOn 47 = first :: rest ∧
    text = join first rest ∧ ∀ segment ∈ first :: rest, (47 : UInt8) ∉ segment := by
  induction text with
  | nil => exact ⟨[], [], rfl, rfl, by simp⟩
  | cons b text ih =>
      obtain ⟨first, rest, split, eq, free⟩ := ih
      by_cases slash : b = 47
      · refine ⟨[], first :: rest, ?_, ?_, ?_⟩
        · rw [slash, ← split]
          exact List.splitOn_append_cons_self [] text
        · rw [slash, eq]
          rfl
        · exact List.forall_mem_cons.mpr ⟨List.not_mem_nil, free⟩
      · refine ⟨b :: first, rest, ?_, ?_, ?_⟩
        · rw [List.splitOn_eq_splitOnP] at split ⊢
          rw [List.splitOnP_cons_eq_if_modifyHead, split]
          simp [slash]
        · rw [eq]
          rfl
        · obtain ⟨own, others⟩ := List.forall_mem_cons.mp free
          refine List.forall_mem_cons.mpr ⟨fun member => ?_, others⟩
          rcases List.mem_cons.mp member with same | member
          · exact slash same.symm
          · exact own member

/-- Nothing, or a slash next. -/
theorem flatMap_slash (texts : List Bytes) :
    texts.flatMap (47 :: ·) = [] ∨ ∃ more, texts.flatMap (47 :: ·) = 47 :: more := by
  cases texts with
  | nil => exact .inl rfl
  | cons text texts => exact .inr ⟨_, rfl⟩

/-! ## The expression of a pattern -/

theorem replaceParameters_literal {segment : Bytes} (free : (47 : UInt8) ∉ segment) (text : Bytes) :
    replaceParameters false (segment ++ text) = segment ++ replaceParameters false text := by
  induction segment with
  | nil => rfl
  | cons b segment ih =>
      have other : b ≠ 47 := fun same => free (same ▸ List.mem_cons_self)
      have later : (47 : UInt8) ∉ segment := fun member => free (List.mem_cons_of_mem b member)
      rw [List.cons_append, replaceParameters]
      simp [other, ih later]

/-- The name of a parameter is left out up to the next slash. -/
theorem replaceParameters_name {segment : Bytes} (free : (47 : UInt8) ∉ segment) (texts : List Bytes) :
    replaceParameters true (segment ++ texts.flatMap (47 :: ·)) =
      replaceParameters false (texts.flatMap (47 :: ·)) := by
  induction segment with
  | nil =>
      rcases flatMap_slash texts with empty | ⟨more, eq⟩
      · rw [List.nil_append, empty]
        rfl
      · rw [List.nil_append, eq, replaceParameters, replaceParameters]
        rfl
  | cons b segment ih =>
      have other : b ≠ 47 := fun same => free (same ▸ List.mem_cons_self)
      rw [List.cons_append, replaceParameters, ih fun member => free (List.mem_cons_of_mem b member)]
      simp [other]

theorem startsParameter_eq {segment : Bytes} (free : (47 : UInt8) ∉ segment) (texts : List Bytes) :
    startsParameter (segment ++ texts.flatMap (47 :: ·)) = isParameter segment := by
  match segment, free with
  | [], _ =>
      rcases flatMap_slash texts with empty | ⟨more, eq⟩
      · rw [List.nil_append, empty]
        rfl
      · rw [List.nil_append, eq]
        rfl
  | [b], _ =>
      by_cases colon : b = 58
      · subst colon
        rcases flatMap_slash texts with empty | ⟨more, eq⟩
        · rw [empty]
          rfl
        · rw [eq]
          rfl
      · unfold startsParameter isParameter
        simp [colon]
  | b :: c :: segment, free =>
      by_cases colon : b = 58
      · subst colon
        have other : c ≠ 47 := fun same => free (by simp [same])
        simp [startsParameter, isParameter, other]
      · unfold startsParameter isParameter
        simp [colon]

/-- What stands for a segment in the expression. -/
def segmentText (segment : Bytes) : Bytes := if isParameter segment then bytes "([^/]+)" else segment

/-- Every parameter after a slash becomes a group, and the rest stays as it is. -/
theorem replaceParameters_join {first : Bytes} {rest : List Bytes}
    (free : ∀ segment ∈ first :: rest, (47 : UInt8) ∉ segment) :
    replaceParameters false (join first rest) = join first (rest.map segmentText) := by
  obtain ⟨own, others⟩ := List.forall_mem_cons.mp free
  rw [join, replaceParameters_literal own, join]
  congr 1
  clear own free
  induction rest with
  | nil => rfl
  | cons segment rest ih =>
      obtain ⟨own, others⟩ := List.forall_mem_cons.mp others
      rw [List.flatMap_cons, List.map_cons, List.flatMap_cons, ← ih others, segmentText]
      rw [List.cons_append, replaceParameters, startsParameter_eq own]
      by_cases parameter : isParameter segment = true
      · rw [parameter, replaceParameters_name own]
        rfl
      · rw [Bool.not_eq_true] at parameter
        rw [parameter, replaceParameters_literal own]
        simp

/-! ## Its atoms -/

/-- How the engine reads a character that is the dot or stands for itself. -/
def atomOf (b : UInt8) : Atom := if b = 46 then .dot else .char b

def segmentAtoms (segment : Bytes) : List Atom :=
  if isParameter segment then [.group 47] else segment.map atomOf

/-- The atoms of the segments after the first. -/
def restAtoms (rest : List Bytes) : List Atom := rest.flatMap fun segment => .char 47 :: segmentAtoms segment

theorem flatMap_atomOf (literal : Bytes) : (literal.map atomOf).flatMap Atom.text = literal := by
  induction literal with
  | nil => rfl
  | cons b literal ih =>
      have own : (atomOf b).text = [b] := by
        unfold atomOf
        split
        · next dot =>
            rw [dot]
            rfl
        · rfl
      rw [List.map_cons, List.flatMap_cons, ih, own]
      rfl

theorem anchored_atoms (first : Bytes) (rest : List Bytes) :
    anchored (first.map atomOf ++ restAtoms rest) =
      bytes "^" ++ join first (rest.map segmentText) ++ bytes "$" := by
  have later : (restAtoms rest).flatMap Atom.text = (rest.map segmentText).flatMap (47 :: ·) := by
    induction rest with
    | nil => rfl
    | cons segment rest ih =>
        have own : (segmentAtoms segment).flatMap Atom.text = segmentText segment := by
          unfold segmentAtoms segmentText
          split
          · rfl
          · exact flatMap_atomOf segment
        rw [restAtoms, List.flatMap_cons, List.flatMap_append, List.flatMap_cons, own, List.map_cons,
          List.flatMap_cons, ← ih]
        rfl
  rw [anchored, List.flatMap_append, flatMap_atomOf, later]
  rfl

theorem restAtoms_closes (rest : List Bytes) : Closes 47 (restAtoms rest) := by
  cases rest with
  | nil => exact .inl rfl
  | cons segment rest => exact .inr ⟨_, rfl⟩

/-- A character for itself or the dot. -/
def IsReadable (segment : Bytes) : Prop := ∀ b ∈ segment, isSyntax b = false ∨ b = 46

theorem atomOf_wellFormed {b : UInt8} (fine : isSyntax b = false ∨ b = 46) : (atomOf b).WellFormed := by
  unfold atomOf
  split
  · trivial
  · next other => exact fine.resolve_right other

/-- What a dynamic registration answers, where its first segment and its literals are
readable. -/
theorem answers_eq {ρ η κ : Type} {engine : RegexEngine ρ} (ecma : engine.ECMAScript) {method : Method}
    {pattern first : Bytes} {rest : List Bytes} {reg : Registration η κ}
    (dynamic : reg.Dynamic method pattern) (split : pattern.splitOn 47 = first :: rest)
    (readable : ∀ segment ∈ first :: rest, isParameter segment = false → IsReadable segment)
    (readable_first : IsReadable first) {req : HttpRequest} (same : req.method = method) :
    reg.answers engine req = matchAtoms (first.map atomOf ++ restAtoms rest) req.path := by
  obtain ⟨first', rest', split', eq, free⟩ := splitOn_spec pattern
  rw [split] at split'
  obtain ⟨rfl, rfl⟩ := List.cons.inj split'
  have fine : ∀ atom ∈ first.map atomOf ++ restAtoms rest, atom.WellFormed := by
    intro atom member
    rcases List.mem_append.mp member with early | late
    · obtain ⟨b, inside, rfl⟩ := List.mem_map.mp early
      exact atomOf_wellFormed (readable_first b inside)
    obtain ⟨segment, here, inside⟩ := List.mem_flatMap.mp late
    rcases List.mem_cons.mp inside with rfl | inside
    · exact (by decide +kernel : isSyntax 47 = false)
    unfold segmentAtoms at inside
    split at inside
    · rw [List.mem_singleton.mp inside]
      exact (by decide +kernel : isSyntax 47 = false)
    · next literal =>
        obtain ⟨b, own, rfl⟩ := List.mem_map.mp inside
        have plain : isParameter segment = false := Bool.not_eq_true _ ▸ literal
        exact atomOf_wellFormed (readable segment (List.mem_cons_of_mem _ here) plain b own)
  obtain ⟨regex, compiled, matches'⟩ := ecma.reads _ fine
  rw [anchored_atoms, ← replaceParameters_join free, ← eq] at compiled
  have answers : Registration.regexAnswers engine .done method pattern req =
      matchAtoms (first.map atomOf ++ restAtoms rest) req.path := by
    rw [Registration.regexAnswers, if_pos same.symm, convertToRegex, compiled, Option.bind_some, matches']
  cases dynamic with
  | handler => exact answers
  | callback => exact answers

/-! ## Matching a path -/

/-- The literal stands for itself. -/
def IsPlain (segment : Bytes) : Prop := ∀ b ∈ segment, isSyntax b = false

theorem IsPlain.map_atomOf {segment : Bytes} (plain : IsPlain segment) :
    segment.map atomOf = segment.map .char := by
  refine List.map_congr_left fun b member => ?_
  have other : b ≠ 46 := by
    rintro rfl
    exact absurd (plain 46 member) (by decide +kernel)
  exact if_neg other

/-- A literal takes a segment if it is that segment. -/
theorem matchAtoms_literal {segment text : Bytes} (whole : (47 : UInt8) ∉ segment)
    (free : (47 : UInt8) ∉ text) (rest texts : List Bytes) :
    matchAtoms (segment.map .char ++ restAtoms rest) (text ++ texts.flatMap (47 :: ·)) =
      if text = segment then matchAtoms (restAtoms rest) (texts.flatMap (47 :: ·)) else none := by
  rw [matchAtoms_chars]
  by_cases same : text = segment
  · rw [if_pos same, same, if_pos (List.prefix_append _ _), List.drop_left]
  rw [if_neg same]
  split
  case isFalse => rfl
  next starts =>
  obtain ⟨tail, eq⟩ := starts
  rw [← eq, List.drop_left]
  -- the literal ends inside the segment, or goes on with a slash
  rcases List.append_eq_append_iff.mp eq with ⟨mid, rfl, cut⟩ | ⟨mid, rfl, cut⟩
  · cases mid with
    | nil => exact absurd (List.append_nil segment) same
    | cons b mid =>
        have other : b ≠ 47 := fun slash => free (by simp [slash])
        rw [cut]
        exact (restAtoms_closes rest).fails other _
  · cases mid with
    | nil => exact absurd (List.append_nil text).symm same
    | cons b mid =>
        rcases flatMap_slash texts with empty | ⟨more, slash⟩
        · rw [empty] at cut
          cases cut
        · rw [slash] at cut
          exact absurd (List.cons.inj cut).1 fun eq => whole (by simp [eq])

/-- A parameter takes a segment if it is not empty. -/
theorem matchAtoms_parameter {text : Bytes} (free : (47 : UInt8) ∉ text) (rest texts : List Bytes) :
    matchAtoms (.group 47 :: restAtoms rest) (text ++ texts.flatMap (47 :: ·)) =
      if text = [] then none
      else (matchAtoms (restAtoms rest) (texts.flatMap (47 :: ·))).map (text :: ·) := by
  have inside : ∀ b ∈ text, (fun b : UInt8 => decide (b ≠ 47)) b = true := fun b member =>
    decide_eq_true fun same => free (same ▸ member)
  have taken : (text ++ texts.flatMap (47 :: ·)).takeWhile (· ≠ 47) = text ∧
      (text ++ texts.flatMap (47 :: ·)).dropWhile (· ≠ 47) = texts.flatMap (47 :: ·) := by
    rw [List.takeWhile_append_of_pos inside, List.dropWhile_append_of_pos inside]
    rcases flatMap_slash texts with empty | ⟨more, slash⟩
    · rw [empty]
      exact ⟨List.append_nil text, rfl⟩
    · rw [slash]
      exact ⟨List.append_nil text, rfl⟩
  rw [matchAtoms_group (restAtoms_closes rest), taken.1, taken.2]

theorem parametersOf_cons (segment text : Bytes) (segments texts : List Bytes) :
    parametersOf (segment :: segments) (text :: texts) =
      if isParameter segment then text :: parametersOf segments texts else parametersOf segments texts := by
  unfold parametersOf
  rw [List.zip_cons_cons, List.filter_cons]
  split <;> rfl

/-- The segments after the first, when their literals stand for themselves. -/
theorem matchAtoms_rest {rest texts : List Bytes}
    (plain : ∀ segment ∈ rest, isParameter segment = false → IsPlain segment)
    (whole : ∀ segment ∈ rest, (47 : UInt8) ∉ segment) (free : ∀ text ∈ texts, (47 : UInt8) ∉ text) :
    (List.Forall₂ SegmentMatches rest texts ∧
      matchAtoms (restAtoms rest) (texts.flatMap (47 :: ·)) = some (parametersOf rest texts)) ∨
    (¬ List.Forall₂ SegmentMatches rest texts ∧
      matchAtoms (restAtoms rest) (texts.flatMap (47 :: ·)) = none) := by
  induction rest generalizing texts with
  | nil =>
      cases texts with
      | nil => exact .inl ⟨.nil, rfl⟩
      | cons text texts => exact .inr ⟨nofun, rfl⟩
  | cons segment rest ih =>
      obtain ⟨own, plain⟩ := List.forall_mem_cons.mp plain
      obtain ⟨ownWhole, whole⟩ := List.forall_mem_cons.mp whole
      cases texts with
      | nil => exact .inr ⟨nofun, rfl⟩
      | cons text texts =>
          obtain ⟨ownFree, free⟩ := List.forall_mem_cons.mp free
          rw [List.flatMap_cons, List.cons_append, restAtoms, List.flatMap_cons, List.cons_append,
            matchAtoms.eq_def]
          dsimp only
          rw [if_pos rfl, ← restAtoms, List.forall₂_cons, parametersOf_cons, segmentAtoms, SegmentMatches]
          cases parameter : isParameter segment with
          | true =>
              rw [if_pos rfl, if_pos rfl, if_pos rfl, List.singleton_append,
                matchAtoms_parameter ownFree]
              by_cases empty : text = []
              · rw [if_pos empty]
                exact .inr ⟨fun both => both.1.1 empty, rfl⟩
              · rw [if_neg empty]
                rcases ih plain whole free with ⟨matched, eq⟩ | ⟨fails, eq⟩
                · exact .inl ⟨⟨⟨empty, ownFree⟩, matched⟩, by rw [eq, Option.map_some]⟩
                · exact .inr ⟨fun both => fails both.2, by rw [eq, Option.map_none]⟩
          | false =>
              rw [if_neg Bool.false_ne_true, if_neg Bool.false_ne_true, if_neg Bool.false_ne_true,
                (own parameter).map_atomOf, matchAtoms_literal ownWhole ownFree]
              by_cases same : text = segment
              · rw [if_pos same]
                rcases ih plain whole free with ⟨matched, eq⟩ | ⟨fails, eq⟩
                · exact .inl ⟨⟨same, matched⟩, eq⟩
                · exact .inr ⟨fun both => fails both.2, eq⟩
              · rw [if_neg same]
                exact .inr ⟨fun both => same both.1, rfl⟩

/-! ## What the target sees -/

theorem digits_injective {m n : Nat} (same : digits m = digits n) : m = n := by
  rw [← (digits_spec m).2.2, same, (digits_spec n).2.2]

/-- The parameters keep the numbers of their groups. -/
theorem find?_extractFrom (i : Nat) (groups : List Bytes) (req : HttpRequest) (n : Nat) :
    (extractFrom i groups req).pathParameters.find? (bytes "param" ++ digits n) =
      if i ≤ n ∧ n - i < groups.length then groups[n - i]?
      else req.pathParameters.find? (bytes "param" ++ digits n) := by
  induction groups generalizing i req with
  | nil => simp [extractFrom]
  | cons group groups ih =>
      rw [extractFrom, ih]
      have one : (req.setPathParameters (bytes "param" ++ digits i) group).pathParameters.find?
          (bytes "param" ++ digits n) =
            if i = n then some group else req.pathParameters.find? (bytes "param" ++ digits n) := by
        rw [HttpRequest.setPathParameters]
        by_cases same : i = n
        · rw [if_pos same, same, SortedMap.find?_insert_self]
        · rw [if_neg same, SortedMap.find?_insert_of_ne]
          exact fun eq => same (digits_injective (List.append_cancel_left eq))
      rw [one]
      by_cases same : i = n
      · subst same
        simp
      · by_cases later : i + 1 ≤ n
        · have shift : n - i = n - (i + 1) + 1 := by omega
          rw [if_neg same, shift, List.getElem?_cons_succ, List.length_cons]
          by_cases inside : n - (i + 1) < groups.length
          · rw [if_pos ⟨later, inside⟩, if_pos ⟨by omega, by omega⟩]
          · rw [if_neg (fun both => inside both.2), if_neg (fun both => inside (by omega))]
        · rw [if_neg (fun both => later both.1), if_neg same, if_neg (fun both => later (by omega))]

theorem sees_groups (groups : List Bytes) (req : HttpRequest) (i : Nat) (text : Bytes)
    (here : groups[i]? = some text) :
    (extractPathParameters groups req).pathParameters.find? (bytes "param" ++ digits (i + 1)) = some text := by
  have inside : i < groups.length := (List.getElem?_eq_some_iff.mp here).1
  rw [extractPathParameters, find?_extractFrom, if_pos ⟨by omega, by omega⟩]
  exact here

/-! ## Patterns without syntax -/

section patterns

variable {ρ η κ : Type} {engine : RegexEngine ρ} {method : Method} {pattern : Bytes}
  {reg : Registration η κ}

/-- Every parameter has a slash before it, and no literal has a character of the syntax. -/
structure PlainPattern (pattern : Bytes) : Prop where
  first : ∀ segment ∈ (pattern.splitOn 47).head?, isParameter segment = false
  literals : ∀ segment ∈ pattern.splitOn 47, isParameter segment = false → IsPlain segment

/-- A route that stands alone is found when it matches. -/
theorem route_alone (reg : Registration η κ) (req : HttpRequest) (resp : HttpResponse) :
    (∃ calls, (registerAll engine [reg]).route engine req resp = some (calls, true)) ↔
      reg.answers engine req ≠ none := by
  rcases route_registered engine [reg] req resp with ⟨reg', groups, selected, eq⟩ | ⟨silent, eq⟩
  · obtain ⟨before, after, split, -⟩ := selected.place
    have same : reg' = reg := List.mem_singleton.mp (by simp [split])
    rw [eq, ← same, selected.answers]
    simp
  · rw [eq, silent reg (List.mem_singleton.mpr rfl)]
    simp

theorem Registration.Dynamic.path_eq (dynamic : reg.Dynamic method pattern) : reg.path = pattern := by
  cases dynamic <;> rfl

theorem Registration.Dynamic.answers_eq (dynamic : reg.Dynamic method pattern) (req : HttpRequest) :
    reg.answers engine req = Registration.regexAnswers engine .done method pattern req := by
  cases dynamic <;> rfl

/-- A dynamic route answers requests of its method only. -/
theorem Registration.Dynamic.method_eq (dynamic : reg.Dynamic method pattern) {req : HttpRequest}
    (answers : reg.answers engine req ≠ none) : req.method = method := by
  rw [dynamic.answers_eq, Registration.regexAnswers] at answers
  by_contra other
  exact answers (if_neg (Ne.symm other))

/-- A plain pattern answers with the texts of its parameters. -/
theorem PlainPattern.answers (plain : PlainPattern pattern) (ecma : engine.ECMAScript)
    (dynamic : reg.Dynamic method pattern) {req : HttpRequest} (same : req.method = method) :
    (PathMatches pattern req.path ∧
      reg.answers engine req = some (parametersOf (pattern.splitOn 47) (req.path.splitOn 47))) ∨
    (¬ PathMatches pattern req.path ∧ reg.answers engine req = none) := by
  obtain ⟨first, rest, split, -, whole⟩ := splitOn_spec pattern
  obtain ⟨text, texts, cut, path, free⟩ := splitOn_spec req.path
  have literal : isParameter first = false := plain.first first (by simp [split])
  have literals := plain.literals
  rw [split] at literals
  have readable (segment : Bytes) (member : segment ∈ first :: rest) (fixed : isParameter segment = false) :
      IsReadable segment := fun b inside => .inl (literals segment member fixed b inside)
  have own : IsPlain first := literals first List.mem_cons_self literal
  rw [answers_eq ecma dynamic split readable (readable first List.mem_cons_self literal) same, PathMatches,
    split, cut, path, join, own.map_atomOf, List.forall₂_cons, parametersOf_cons, SegmentMatches, literal,
    if_neg Bool.false_ne_true, if_neg Bool.false_ne_true,
    matchAtoms_literal (whole first List.mem_cons_self) (free text List.mem_cons_self)]
  by_cases eq : text = first
  · rw [if_pos eq]
    rcases matchAtoms_rest (fun segment member => literals segment (List.mem_cons_of_mem _ member))
        (fun segment member => whole segment (List.mem_cons_of_mem _ member))
        (fun text member => free text (List.mem_cons_of_mem _ member)) with ⟨matched, found⟩ | ⟨fails, none⟩
    · exact .inl ⟨⟨eq, matched⟩, found⟩
    · exact .inr ⟨fun both => fails both.2, none⟩
  · rw [if_neg eq]
    exact .inr ⟨fun both => eq both.1, rfl⟩

theorem PlainPattern.matchesAsWritten (plain : PlainPattern pattern) (ecma : engine.ECMAScript) :
    MatchesAsWritten engine pattern where
  found dynamic req resp same := by
    rw [route_alone]
    rcases plain.answers ecma dynamic same with ⟨matched, eq⟩ | ⟨fails, eq⟩
    · simp [eq, matched]
    · simp [eq, fails]
  sees {_ _ _ reg} dynamic regs req resp groups selected := by
    have some : reg.answers engine req ≠ none := by
      rw [selected.answers]
      exact Option.some_ne_none groups
    have routed := (route_selects engine regs req resp).2.1 _ groups selected
    rw [dynamic.path_eq] at routed
    refine ⟨_, routed, fun i text here => ?_⟩
    rcases plain.answers ecma dynamic (dynamic.method_eq some) with ⟨-, eq⟩ | ⟨-, eq⟩
    · rw [selected.answers] at eq
      exact sees_groups groups req i text (Option.some.inj eq ▸ here)
    · exact absurd eq some

/-! ## Patterns with a dot, or without a first slash -/

/-- The characters of the first segment and of the literals are dots or no syntax. -/
structure ReadablePattern (pattern : Bytes) : Prop where
  first : ∀ segment ∈ (pattern.splitOn 47).head?, IsReadable segment
  literals : ∀ segment ∈ pattern.splitOn 47, isParameter segment = false → IsReadable segment

theorem splitOn_join {first : Bytes} {rest : List Bytes}
    (free : ∀ segment ∈ first :: rest, (47 : UInt8) ∉ segment) : (join first rest).splitOn 47 = first :: rest := by
  induction rest generalizing first with
  | nil =>
      rw [join, List.flatMap_nil, List.append_nil]
      exact List.splitOn_eq_singleton (free first List.mem_cons_self)
  | cons segment rest ih =>
      obtain ⟨own, others⟩ := List.forall_mem_cons.mp free
      have later := ih others
      rw [join] at later
      rw [join, List.flatMap_cons, List.cons_append, List.splitOn_append_cons_self,
        List.splitOn_eq_singleton own, later]
      rfl

/-- A text for a segment, with `f` on its literal characters. -/
def sample (f : UInt8 → UInt8) (segment : Bytes) : Bytes :=
  if isParameter segment then [97] else segment.map f

theorem sample_free {f : UInt8 → UInt8} (fine : ∀ b, b ≠ 47 → f b ≠ 47) {segment : Bytes}
    (free : (47 : UInt8) ∉ segment) : (47 : UInt8) ∉ sample f segment := by
  unfold sample
  split
  · decide
  · intro member
    obtain ⟨b, inside, eq⟩ := List.mem_map.mp member
    exact fine b (fun same => free (same ▸ inside)) eq

theorem splitOn_sample (f : UInt8 → UInt8) (fine : ∀ b, b ≠ 47 → f b ≠ 47) {first : Bytes}
    {rest : List Bytes} (free : ∀ segment ∈ first :: rest, (47 : UInt8) ∉ segment) :
    (join (sample f first) (rest.map (sample f))).splitOn 47 = (first :: rest).map (sample f) := by
  apply splitOn_join
  rw [← List.map_cons]
  intro text member
  obtain ⟨segment, here, rfl⟩ := List.mem_map.mp member
  exact sample_free fine (free segment here)

/-- The literals themselves are a path of the pattern. -/
theorem pathMatches_sample {first : Bytes} {rest : List Bytes} (split : pattern.splitOn 47 = first :: rest)
    (free : ∀ segment ∈ first :: rest, (47 : UInt8) ∉ segment) :
    PathMatches pattern (join (sample id first) (rest.map (sample id))) := by
  rw [PathMatches, split, splitOn_sample id (fun _ other => other) free]
  generalize first :: rest = segments
  induction segments with
  | nil => exact .nil
  | cons segment segments ih =>
      refine .cons ?_ ih
      unfold SegmentMatches sample
      split
      · decide
      · exact List.map_id segment

/-- A letter for each dot. -/
def letter (b : UInt8) : UInt8 := if b = 46 then 97 else b

theorem matchAtoms_letters (segment : Bytes) (atoms : List Atom) (text : Bytes) :
    matchAtoms (segment.map atomOf ++ atoms) (segment.map letter ++ text) = matchAtoms atoms text := by
  induction segment with
  | nil => rfl
  | cons b segment ih =>
      rw [List.map_cons, List.map_cons, List.cons_append, List.cons_append, ← ih]
      by_cases dot : b = 46
      · subst dot
        rfl
      · rw [atomOf, letter, if_neg dot, if_neg dot, matchAtoms.eq_def]
        exact if_pos rfl

/-- The expression takes any letter for a dot. -/
theorem matchAtoms_sample (first : Bytes) (rest : List Bytes) :
    matchAtoms (first.map atomOf ++ restAtoms rest) (join (first.map letter) (rest.map (sample letter))) ≠
      none := by
  rw [join, matchAtoms_letters]
  induction rest with
  | nil => exact Option.some_ne_none _
  | cons segment rest ih =>
      rw [restAtoms, List.flatMap_cons, List.map_cons, List.flatMap_cons, List.cons_append,
        List.cons_append, matchAtoms.eq_def]
      dsimp only
      rw [if_pos rfl, ← restAtoms, segmentAtoms, sample]
      split
      · rw [List.singleton_append, matchAtoms_parameter (by decide), if_neg (List.cons_ne_nil _ _)]
        exact fun none => ih (Option.map_eq_none_iff.mp none)
      · rw [matchAtoms_letters]
        exact ih

theorem isPlain_of_letters {segment : Bytes} (readable : IsReadable segment)
    (same : segment.map letter = segment) : IsPlain segment := by
  intro b member
  refine (readable b member).resolve_right fun dot => ?_
  subst dot
  have changed : letter 46 ∈ segment.map letter := List.mem_map_of_mem member
  obtain ⟨i, here⟩ := List.mem_iff_getElem?.mp member
  have there := congrArg (·[i]?) same
  simp [here, letter] at there

/-- A pattern that meets what it says has no dot, and a slash before each parameter. -/
theorem MatchesAsWritten.plain (written : MatchesAsWritten engine pattern) (ecma : engine.ECMAScript)
    (readable : ReadablePattern pattern) : PlainPattern pattern := by
  obtain ⟨first, rest, split, -, free⟩ := splitOn_spec pattern
  have readable_first : IsReadable first := readable.first first (by simp [split])
  have readables := readable.literals
  rw [split] at readables
  have dynamic : (.regexHandler .done .get pattern () : Registration Unit Unit).Dynamic .get pattern :=
    .handler ()
  have answers (req : HttpRequest) (same : req.method = .get) :=
    answers_eq ecma dynamic split readables readable_first same
  have literal : isParameter first = false := by
    by_contra parameter
    rw [Bool.not_eq_false] at parameter
    -- the first segment of this path is the letter `a`, which is not the colon
    have matched := pathMatches_sample split free
    have found := (written.found dynamic { method := .get, path := _ } {} rfl).mpr matched
    rw [route_alone, answers _ rfl] at found
    unfold isParameter at parameter
    split at parameter
    · exact found rfl
    · cases parameter
  have keeps : ∀ b : UInt8, b ≠ 47 → letter b ≠ 47 := by
    intro b other
    unfold letter
    split
    · decide
    · exact other
  have found := (written.found dynamic
    { method := .get, path := join (first.map letter) (rest.map (sample letter)) } {} rfl).mp (by
      rw [route_alone, answers _ rfl]
      exact matchAtoms_sample first rest)
  have own : first.map letter = sample letter first := by
    rw [sample, literal]
    rfl
  rw [PathMatches, own, splitOn_sample letter keeps free, split, List.forall₂_map_right_iff,
    List.forall₂_same] at found
  refine ⟨fun segment member => ?_, fun segment member fixed => ?_⟩
  · rw [split] at member
    rw [← Option.some.inj member]
    exact literal
  · rw [split] at member
    have same := found segment member
    rw [SegmentMatches, sample, fixed] at same
    exact isPlain_of_letters (readables segment member fixed) same

end patterns

/-- A pattern without syntax in its literals and with a slash before each parameter matches as
it is written.  Of the patterns whose only syntax is the dot no others do, nor does one whose
registration throws. -/
theorem dynamic_routes {ρ : Type} {engine : RegexEngine ρ} (ecma : engine.ECMAScript) (pattern : Bytes) :
    (PlainPattern pattern → MatchesAsWritten engine pattern) ∧
      (ReadablePattern pattern → MatchesAsWritten engine pattern → PlainPattern pattern) ∧
      (engine.compile (convertToRegex pattern) = none → ¬ MatchesAsWritten engine pattern) := by
  refine ⟨fun plain => plain.matchesAsWritten ecma, fun readable written => written.plain ecma readable,
    fun throws written => ?_⟩
  obtain ⟨first, rest, split, -, free⟩ := splitOn_spec pattern
  have dynamic : (.regexHandler .done .get pattern () : Registration Unit Unit).Dynamic .get pattern :=
    .handler ()
  have found := (written.found dynamic { method := .get, path := _ } {} rfl).mpr (pathMatches_sample split free)
  rw [route_alone, dynamic.answers_eq, Registration.regexAnswers, throws] at found
  exact found (ite_self _)

theorem dynamic_routes_users : MatchesAsWritten atomEngine (bytes "/users/:id") := by
  refine (dynamic_routes atomEngine_ecmaScript _).1 ⟨by decide +kernel, ?_⟩
  unfold IsPlain
  decide +kernel

/-- The dot of `/file.txt` takes any character. -/
theorem dynamic_routes_dot : ¬ MatchesAsWritten atomEngine (bytes "/file.txt") := by
  intro written
  have dynamic : (.regexHandler .done .get (bytes "/file.txt") () : Registration Unit Unit).Dynamic .get
      (bytes "/file.txt") := .handler ()
  have matched := (written.found dynamic { method := .get, path := bytes "/fileXtxt" } {} rfl).mp
    ((route_alone _ _ _).mpr (by decide +kernel))
  have pattern : (bytes "/file.txt").splitOn 47 = [[], bytes "file.txt"] := by decide +kernel
  have path : (bytes "/fileXtxt").splitOn 47 = [[], bytes "fileXtxt"] := by decide +kernel
  rw [PathMatches, pattern, path] at matched
  obtain ⟨-, same, -⟩ := List.forall₂_cons.mp matched |>.imp_right List.forall₂_cons.mp
  revert same
  unfold SegmentMatches
  decide +kernel

end AIService.Http
