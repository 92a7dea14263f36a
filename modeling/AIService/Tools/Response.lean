import AIService.Data.JsonText
import AIService.Data.Trim
import AIService.Tools.Prompt

/-!
# The answer of the tool model

`AIConfig::parseAIResponse` looks for a tool call in what the model answered, under white space
and a code fence.  `tool_calls` says which answers are tool calls: the wrapped objects that name a
tool are, and an answer that begins with no fence, no brace and no byte order mark is not.
-/

namespace AIService

/-- What the library documents of the text of an object: `dump()` writes it from brace to brace, and
`json::parse` finds one only after white space, before which it skips a byte order mark. -/
structure JsonCodec.Braced (codec : JsonCodec) : Prop extends codec.Faithful where
  dump_end {fields : List (Bytes × Json)} {text : Bytes} :
    codec.dump (.obj fields) = some text → ∃ front, text = front ++ [125]
  parse_obj {text : Bytes} {fields : List (Bytes × Json)} : codec.parse text = some (.obj fields) →
    ∃ mark space rest, text = mark ++ (space ++ 123 :: rest) ∧ (mark = [] ∨ mark = [239, 187, 191]) ∧
      ∀ b ∈ space, b = 32 ∨ b = 9 ∨ b = 10 ∨ b = 13

namespace Tools

structure AIToolCall where
  toolName : Bytes := []
  args : Json := .null
  isToolCall : Bool := false

/-- The characters of `" \t\n\r"`. -/
def isWhite (b : UInt8) : Bool := b == 32 || b == 9 || b == 10 || b == 13

def fence : Bytes := bytes "```"

def jsonFence : Bytes := bytes "```json"

/-- The UTF-8 byte order mark. -/
def byteOrderMark : Bytes := [239, 187, 191]

def stripClosing (cleaned : Bytes) : Bytes :=
  if 3 ≤ cleaned.length ∧ cleaned.drop (cleaned.length - 3) = fence then cleaned.take (cleaned.length - 3)
  else cleaned

def stripFence (cleaned : Bytes) : Bytes :=
  if 7 ≤ cleaned.length ∧ cleaned.take 7 = jsonFence then stripClosing (cleaned.drop 7)
  else if 3 ≤ cleaned.length ∧ cleaned.take 3 = fence then stripClosing (cleaned.drop 3)
  else cleaned

/-- What `parseAIResponse` gives to `json::parse`. -/
def cleanResponse (response : Bytes) : Bytes := trimOf isWhite (stripFence (trimOf isWhite response))

/-- The call that a value stands for. -/
def toolCall (j : Json) : AIToolCall :=
  match j.field? (bytes "tool") with
  | some (.str name) =>
      match j.field? (bytes "args") with
      | some (.obj args) => { toolName := name, args := .obj args, isToolCall := true }
      | _ => { toolName := name, isToolCall := true }
  | _ => {}

def AIConfig.parseAIResponse (codec : JsonCodec) (response : Bytes) : AIToolCall :=
  match codec.parse (cleanResponse response) with
  | some j => toolCall j
  | none => {}

/-! ## Fences -/

/-- How a response may be wrapped. -/
inductive Fence
  | none
  | plain (closed : Bool)
  | json (closed : Bool)

namespace Fence

def opening : Fence → Bytes
  | none => []
  | plain _ => fence
  | json _ => jsonFence

def closing : Fence → Bytes
  | plain true | json true => fence
  | _ => []

end Fence

/-- The bytes are white space. -/
def White (text : Bytes) : Prop := ∀ b ∈ text, isWhite b = true

/-- The text, with white space around it, in the fence, with white space around that. -/
def wrap (f : Fence) (left inner text inner' right : Bytes) : Bytes :=
  left ++ (f.opening ++ (inner ++ (text ++ inner')) ++ f.closing ++ right)

/-- `size() >= mark.size() && substr(0, mark.size()) == mark`. -/
theorem starts_iff {n : Nat} {mark text : Bytes} (size : mark.length = n) :
    (n ≤ text.length ∧ text.take n = mark) ↔ mark <+: text := by
  rw [List.prefix_iff_eq_take, size]
  constructor
  · rintro ⟨-, same⟩
    exact same.symm
  · intro same
    refine ⟨?_, same.symm⟩
    have length := congrArg List.length same
    rw [List.length_take] at length
    omega

/-- `size() >= mark.size() && substr(size() - mark.size()) == mark`. -/
theorem ends_iff {n : Nat} {mark text : Bytes} (size : mark.length = n) :
    (n ≤ text.length ∧ text.drop (text.length - n) = mark) ↔ mark <:+ text := by
  rw [List.suffix_iff_eq_drop, size]
  constructor
  · rintro ⟨-, same⟩
    exact same.symm
  · intro same
    refine ⟨?_, same.symm⟩
    have length := congrArg List.length same
    rw [List.length_drop] at length
    omega

theorem fence_length : fence.length = 3 := rfl

theorem jsonFence_length : jsonFence.length = 7 := rfl

theorem jsonFence_eq (text : Bytes) : jsonFence ++ text = fence ++ (bytes "json" ++ text) := rfl

theorem stripClosing_closed (text : Bytes) : stripClosing (text ++ fence) = text := by
  have size : (text ++ fence).length - 3 = text.length := by
    rw [List.length_append]
    exact Nat.add_sub_cancel _ 3
  rw [stripClosing, if_pos ((ends_iff fence_length).mpr (List.suffix_append text fence)), size, List.take_left]

theorem stripClosing_brace (front : Bytes) : stripClosing (front ++ [125]) = front ++ [125] := by
  refine if_neg fun ends => ?_
  obtain ⟨t, same⟩ := (ends_iff fence_length).mp ends
  have regrouped : (t ++ [96, 96]) ++ [96] = front ++ [125] := by rw [List.append_assoc]; exact same
  exact absurd (List.append_inj_right' regrouped rfl) (by decide)

theorem stripFence_none {cleaned : Bytes} (plain : ¬ fence <+: cleaned) : stripFence cleaned = cleaned := by
  have noJson : ¬ jsonFence <+: cleaned := fun starts =>
    plain ((List.prefix_append fence (bytes "json")).trans starts)
  rw [stripFence, if_neg (mt (starts_iff jsonFence_length).mp noJson),
    if_neg (mt (starts_iff fence_length).mp plain)]

theorem stripFence_json (text : Bytes) : stripFence (jsonFence ++ text) = stripClosing text :=
  if_pos ((starts_iff jsonFence_length).mpr (List.prefix_append jsonFence text))

theorem stripFence_plain {b : UInt8} (other : b ≠ 106) (text : Bytes) :
    stripFence (fence ++ b :: text) = stripClosing (b :: text) := by
  have noJson : ¬ jsonFence <+: fence ++ b :: text := by
    rintro ⟨rest, same⟩
    rw [jsonFence_eq] at same
    have after : (106 : UInt8) :: (bytes "son" ++ rest) = b :: text := List.append_cancel_left same
    exact other (List.cons.inj after).1.symm
  rw [stripFence, if_neg (mt (starts_iff jsonFence_length).mp noJson),
    if_pos ((starts_iff fence_length).mpr (List.prefix_append fence (b :: text)))]
  rfl

/-! ## Wrapped objects -/

theorem White.nil : White [] := List.forall_mem_nil _

theorem White.append {left right : Bytes} (first : White left) (second : White right) : White (left ++ right) := by
  intro b member
  rcases List.mem_append.mp member with here | there
  · exact first b here
  · exact second b there

/-- An object's text. -/
def Braced (text : Bytes) : Prop := (∃ rest, text = 123 :: rest) ∧ ∃ front, text = front ++ [125]

section wrapped

variable {text inner : Bytes}

theorem Braced.solid (braced : Braced text) : Solid isWhite text := by
  obtain ⟨⟨rest, first⟩, front, last⟩ := braced
  exact ⟨⟨123, rest, first, rfl⟩, front, 125, last, rfl⟩

theorem stripFence_opening (braced : Braced text) (white : White inner) (tail : Bytes) {opening : Bytes}
    (fenced : opening = fence ∨ opening = jsonFence) :
    stripFence (opening ++ (inner ++ (text ++ tail))) = stripClosing (inner ++ (text ++ tail)) := by
  obtain ⟨⟨rest, rfl⟩, -⟩ := braced
  rcases fenced with rfl | rfl
  · cases inner with
    | nil => exact stripFence_plain (by decide) _
    | cons b inner =>
        apply stripFence_plain
        rintro rfl
        cases white 106 List.mem_cons_self
  · exact stripFence_json _

theorem opening_begins {opening : Bytes} (fenced : opening = fence ∨ opening = jsonFence) :
    ∃ rest, opening = 96 :: rest := by
  rcases fenced with rfl | rfl
  · exact ⟨_, rfl⟩
  · exact ⟨_, rfl⟩

/-- A fence that is closed goes at both ends. -/
theorem cleanResponse_closed (braced : Braced text) (white : White inner) {left inner' right : Bytes}
    (left_white : White left) (inner'_white : White inner') (right_white : White right) {opening : Bytes}
    (fenced : opening = fence ∨ opening = jsonFence) :
    cleanResponse (left ++ ((opening ++ (inner ++ (text ++ inner')) ++ fence) ++ right)) = text := by
  have solid : Solid isWhite (opening ++ (inner ++ (text ++ inner')) ++ fence) := by
    obtain ⟨rest, rfl⟩ := opening_begins fenced
    refine ⟨⟨96, _, rfl, rfl⟩, 96 :: rest ++ (inner ++ (text ++ inner')) ++ [96, 96], 96, ?_, rfl⟩
    rw [List.append_assoc _ [96, 96] [96]]
    rfl
  rw [cleanResponse, trimOf_surround solid left_white right_white, List.append_assoc, List.append_assoc,
    List.append_assoc, stripFence_opening braced white _ fenced, ← List.append_assoc, ← List.append_assoc,
    stripClosing_closed, List.append_assoc]
  exact trimOf_surround braced.solid white inner'_white

/-- A fence that is not closed goes at the start. -/
theorem cleanResponse_open (braced : Braced text) (white : White inner) {left right : Bytes}
    (left_white : White left) (right_white : White right) {opening : Bytes}
    (fenced : opening = fence ∨ opening = jsonFence) :
    cleanResponse (left ++ ((opening ++ (inner ++ text)) ++ right)) = text := by
  have solid : Solid isWhite (opening ++ (inner ++ text)) := by
    obtain ⟨rest, rfl⟩ := opening_begins fenced
    obtain ⟨front, last⟩ := braced.2
    refine ⟨⟨96, _, rfl, rfl⟩, 96 :: rest ++ (inner ++ front), 125, ?_, rfl⟩
    rw [last, List.append_assoc, List.append_assoc]
  have stays : stripClosing (inner ++ text) = inner ++ text := by
    obtain ⟨front, last⟩ := braced.2
    rw [last, ← List.append_assoc]
    exact stripClosing_brace _
  have opened := stripFence_opening braced white [] fenced
  rw [List.append_nil] at opened
  have trimmed : trimOf isWhite (inner ++ (text ++ [])) = text := trimOf_surround braced.solid white White.nil
  rw [List.append_nil] at trimmed
  rw [cleanResponse, trimOf_surround solid left_white right_white, opened, stays, trimmed]

/-- Without a fence there is only the white space. -/
theorem cleanResponse_bare (braced : Braced text) {left right : Bytes} (left_white : White left)
    (right_white : White right) : cleanResponse (left ++ (text ++ right)) = text := by
  have plain : ¬ fence <+: text := by
    obtain ⟨⟨rest, rfl⟩, -⟩ := braced
    rintro ⟨more, same⟩
    cases same
  rw [cleanResponse, trimOf_surround braced.solid left_white right_white, stripFence_none plain]
  exact trimOf_solid braced.solid

end wrapped

/-- Of a wrapped object its text is left. -/
theorem cleanResponse_wrap {text : Bytes} (braced : Braced text) (f : Fence) {left inner inner' right : Bytes}
    (left_white : White left) (inner_white : White inner) (inner'_white : White inner') (right_white : White right) :
    cleanResponse (wrap f left inner text inner' right) = text := by
  have unclosed {opening : Bytes} (fenced : opening = fence ∨ opening = jsonFence) :
      cleanResponse (left ++ ((opening ++ (inner ++ (text ++ inner')) ++ []) ++ right)) = text := by
    have cleaned := cleanResponse_open braced inner_white left_white (inner'_white.append right_white) fenced
    simpa using cleaned
  have closed {opening : Bytes} (fenced : opening = fence ∨ opening = jsonFence) :
      cleanResponse (left ++ ((opening ++ (inner ++ (text ++ inner')) ++ fence) ++ right)) = text :=
    cleanResponse_closed braced inner_white left_white inner'_white right_white fenced
  cases f with
  | none =>
      have cleaned := cleanResponse_bare braced (left_white.append inner_white) (inner'_white.append right_white)
      change cleanResponse (left ++ ([] ++ (inner ++ (text ++ inner')) ++ [] ++ right)) = text
      simpa using cleaned
  | plain isClosed =>
      cases isClosed with
      | true => exact closed (.inl rfl)
      | false => exact unclosed (.inl rfl)
  | json isClosed =>
      cases isClosed with
      | true => exact closed (.inr rfl)
      | false => exact unclosed (.inr rfl)

/-! ## Which answers are tool calls -/

section codec

variable {codec : JsonCodec}

theorem braced_of_dump (braced : codec.Braced) {fields : List (Bytes × Json)} {text : Bytes}
    (dumped : codec.dump (.obj fields) = some text) : Braced text :=
  ⟨braced.dump_obj dumped, braced.dump_end dumped⟩

theorem parseAIResponse_wrap (braced : codec.Braced) {fields : List (Bytes × Json)} {text : Bytes}
    (dumped : codec.dump (.obj fields) = some text) (f : Fence) {left inner inner' right : Bytes}
    (left_white : White left) (inner_white : White inner) (inner'_white : White inner') (right_white : White right) :
    AIConfig.parseAIResponse codec (wrap f left inner text inner' right) = toolCall (.obj fields) := by
  rw [AIConfig.parseAIResponse, cleanResponse_wrap (braced_of_dump braced dumped) f left_white inner_white
    inner'_white right_white, braced.parse_dump dumped]

/-- Only an object is a call. -/
theorem obj_of_toolCall {j : Json} (called : (toolCall j).isToolCall = true) : ∃ fields, j = .obj fields := by
  cases j with
  | obj fields => exact ⟨fields, rfl⟩
  | _ => cases called

theorem isWhite_iff {b : UInt8} : isWhite b = true ↔ b = 32 ∨ b = 9 ∨ b = 10 ∨ b = 13 := by
  simp [isWhite, or_assoc]

/-- A trimmed text of an object begins with a brace or with a byte order mark. -/
theorem begins_of_parse (braced : codec.Braced) {response : Bytes} {fields : List (Bytes × Json)}
    (parsed : codec.parse (trimOf isWhite response) = some (.obj fields)) :
    [123] <+: trimOf isWhite response ∨ byteOrderMark <+: trimOf isWhite response := by
  obtain ⟨mark, space, rest, text, mark_eq, white⟩ := braced.parse_obj parsed
  have first (bare : mark = []) : space = [] := by
    subst bare
    rcases trimOf_cases isWhite response with all | ⟨⟨b, more, begins, notWhite⟩, -⟩
    · rw [trimOf_of_forall all] at text
      have brace := all 123 (by rw [text]; exact List.mem_append_right space List.mem_cons_self)
      cases brace
    · rw [begins] at text
      cases space with
      | nil => rfl
      | cons c space =>
          obtain ⟨rfl, -⟩ := List.cons.inj text
          rw [isWhite_iff.mpr (white b List.mem_cons_self)] at notWhite
          cases notWhite
  rw [text]
  rcases mark_eq with bare | rfl
  · rw [first bare, bare]
    exact .inl (List.prefix_append [123] rest)
  · exact .inr (List.prefix_append byteOrderMark _)

/-- A tool call survives white space and a code fence, and an answer that begins with no fence, no
brace and no byte order mark is no call. -/
theorem tool_calls (braced : codec.Braced) :
    (∀ name args, ValidUtf8 name → (Json.obj args).Writable → ∃ text,
      codec.dump (.object [(bytes "tool", .str name), (bytes "args", .obj args)]) = some text) ∧
    (∀ name args text, codec.dump (.object [(bytes "tool", .str name), (bytes "args", .obj args)]) = some text →
      ∀ f left inner inner' right, White left → White inner → White inner' → White right →
        AIConfig.parseAIResponse codec (wrap f left inner text inner' right) =
          { toolName := name, args := .obj args, isToolCall := true }) ∧
    (∀ fields name text, (Json.obj fields).field? (bytes "tool") = some (.str name) →
      (∀ args, (Json.obj fields).field? (bytes "args") ≠ some (.obj args)) → codec.dump (.obj fields) = some text →
      ∀ f left inner inner' right, White left → White inner → White inner' → White right →
        AIConfig.parseAIResponse codec (wrap f left inner text inner' right) =
          { toolName := name, args := .null, isToolCall := true }) ∧
    ∀ response, ¬ fence <+: trimOf isWhite response → ¬ [123] <+: trimOf isWhite response →
      ¬ byteOrderMark <+: trimOf isWhite response →
        (AIConfig.parseAIResponse codec response).isToolCall = false := by
  refine ⟨fun name args valid writable => ?_, fun name args text dumped f left inner inner' right a b c d => ?_,
    fun fields name text tool plain dumped f left inner inner' right a b c d => ?_,
    fun response noFence noBrace noMark => ?_⟩
  · have tool : ValidUtf8 (bytes "tool") := by decide +kernel
    have args : ValidUtf8 (bytes "args") := by decide +kernel
    refine braced.dump_writable (Json.writable_object ?_ ?_)
    · exact List.forall_mem_cons.mpr ⟨tool, List.forall_mem_singleton.mpr args⟩
    · exact List.forall_mem_cons.mpr ⟨.str valid, List.forall_mem_singleton.mpr writable⟩
  · rw [parseAIResponse_wrap braced dumped f a b c d]
    rfl
  · rw [parseAIResponse_wrap braced dumped f a b c d, toolCall, tool]
    cases args : (Json.obj fields).field? (bytes "args") with
    | none => rfl
    | some j =>
        cases j with
        | obj args' => exact absurd args (plain args')
        | _ => rfl
  · have cleaned : cleanResponse response = trimOf isWhite response := by
      rw [cleanResponse, stripFence_none noFence, trimOf_trimOf]
    rw [AIConfig.parseAIResponse, cleaned]
    cases parsed : codec.parse (trimOf isWhite response) with
    | none => rfl
    | some j =>
        refine Bool.eq_false_iff.mpr fun called => ?_
        obtain ⟨fields, rfl⟩ := obj_of_toolCall called
        rcases begins_of_parse braced parsed with brace | mark
        · exact noBrace brace
        · exact noMark mark

end codec

/-! ## A byte order mark -/

/-- The codec, with the byte order mark that the library skips. -/
def markCodec : JsonCodec where
  dump := textCodec.dump
  parse text :=
    match textCodec.parse text with
    | some j => some j
    | none => if byteOrderMark <+: text then textCodec.parse (text.drop 3) else none

/-- The mark is skipped, or there is none. -/
theorem markCodec_parse {text : Bytes} {j : Json} (parsed : markCodec.parse text = some j) :
    ∃ mark rest, text = mark ++ rest ∧ (mark = [] ∨ mark = byteOrderMark) ∧ textCodec.parse rest = some j := by
  change (match textCodec.parse text with
    | some j => some j
    | none => if byteOrderMark <+: text then textCodec.parse (text.drop 3) else none) = some j at parsed
  split at parsed
  · next plain => exact ⟨[], text, rfl, .inl rfl, plain.trans parsed⟩
  · split at parsed
    · next marked =>
        obtain ⟨rest, rfl⟩ := marked
        exact ⟨byteOrderMark, rest, rfl, .inr rfl, parsed⟩
    · cases parsed

theorem markCodec_braced : markCodec.Braced where
  parse_dump {j text} dumped := by
    have parsed : textCodec.parse text = some j := textCodec_faithful.parse_dump dumped
    change (match textCodec.parse text with
      | some j => some j
      | none => _) = some j
    rw [parsed]
  dump_writable := textCodec_faithful.dump_writable
  dump_text := textCodec_faithful.dump_text
  dump_obj := textCodec_faithful.dump_obj
  parse_readable parsed found := by
    obtain ⟨_, _, -, -, plain⟩ := markCodec_parse parsed
    exact textCodec_faithful.parse_readable plain found
  dump_end {fields text} dumped := by
    obtain ⟨-, inner, -, rfl⟩ := write_obj dumped
    exact ⟨123 :: inner, rfl⟩
  parse_obj parsed := by
    obtain ⟨mark, rest, rfl, mark_eq, plain⟩ := markCodec_parse parsed
    obtain ⟨⟨more, rfl⟩, -⟩ := obj_of_parse plain
    exact ⟨mark, [], more, rfl, mark_eq, List.forall_mem_nil _⟩

theorem tool_calls_fenced : AIConfig.parseAIResponse markCodec
    (bytes "```json\n\x7b\"args\":\x7b\x7d,\"tool\":\"clock\"\x7d\n```") =
      { toolName := bytes "clock", args := .obj [], isToolCall := true } := by
  obtain ⟨-, calls, -⟩ := tool_calls markCodec_braced
  exact calls (bytes "clock") [] (bytes "\x7b\"args\":\x7b\x7d,\"tool\":\"clock\"\x7d") (by decide +kernel)
    (.json true) [] [10] [10] [] .nil (List.forall_mem_singleton.mpr rfl) (List.forall_mem_singleton.mpr rfl) .nil

/-- A call behind a byte order mark. -/
def markedCall : Bytes := byteOrderMark ++ bytes "\x7b\"tool\":\"clock\"\x7d"

/-- It begins with neither a fence nor a brace. -/
theorem tool_call_marked : ¬ fence <+: trimOf isWhite markedCall ∧ ¬ [123] <+: trimOf isWhite markedCall ∧
    (AIConfig.parseAIResponse markCodec markedCall).isToolCall = true :=
  ⟨by decide +kernel, by decide +kernel, by decide +kernel⟩

end Tools

end AIService
