import AIService.Http.Context
import Mathlib.Order.Nat

/-!
# The requests a connection may carry

The specification of the wire format, in its own words: a request line, header fields, an
empty line and a body of the announced length.  The second half shows that the parser's
functions on single lines accept exactly these.
-/

namespace AIService.Http

/-! ## Well-formed requests -/

/-- The characters of a token: some punctuation, the digits and the letters. -/
def IsToken (b : UInt8) : Prop :=
  b ∈ bytes "!#$%&'*+-.^_`|~" ∨ (48 ≤ b ∧ b ≤ 57) ∨ (65 ≤ b ∧ b ≤ 90) ∨ (97 ≤ b ∧ b ≤ 122)

instance (b : UInt8) : Decidable (IsToken b) := inferInstanceAs (Decidable (_ ∨ _))

structure Field where
  name : Bytes
  value : Bytes

def Field.line (f : Field) : Bytes := f.name ++ 58 :: f.value

/-- A token, and a value without control characters other than the tab. -/
structure Field.Valid (f : Field) : Prop where
  named : f.name ≠ []
  token : ∀ b ∈ f.name, IsToken b
  printable : ∀ b ∈ f.value, b = 9 ∨ 32 ≤ b ∧ b ≠ 127

structure RequestHead where
  name : Bytes
  target : Bytes
  version : Bytes
  fields : List Field

def RequestHead.requestLine (head : RequestHead) : Bytes :=
  head.name ++ 32 :: head.target ++ 32 :: head.version

def RequestHead.lines (head : RequestHead) : List Bytes :=
  head.requestLine :: head.fields.map Field.line

/-- Lines, each with its CRLF, and the empty line that ends them. -/
def headBytes (lines : List Bytes) : Bytes := lines.flatMap (· ++ crlf) ++ crlf

/-- The trimmed values of the `Content-Length` headers. -/
def contentLengths (fields : List Field) : List Bytes :=
  (fields.filter fun f => lower f.name = bytes "content-length").map fun f => trim f.value

/-- The number a string of digits denotes. -/
def decimal (text : Bytes) : Nat := text.foldl (fun n b => n * 10 + (b - 48).toNat) 0

/-- The head announces a body of `length` bytes. -/
def RequestHead.Announces (head : RequestHead) (length : Nat) : Prop :=
  match contentLengths head.fields with
  | [] => length = 0 ∧ head.name ≠ bytes "POST" ∧ head.name ≠ bytes "PUT"
  | text :: others => (∀ other ∈ others, other = text) ∧ text ≠ [] ∧
      (∀ b ∈ text, 48 ≤ b ∧ b ≤ 57) ∧ decimal text = length ∧ length ≤ 10485760

/-- No CRLF occurs in `line`. -/
def CrlfFree (line : Bytes) : Prop := ¬ crlf <:+: line

structure RequestHead.WellFormed (head : RequestHead) (length : Nat) : Prop where
  method : head.name ∈ [bytes "GET", bytes "POST", bytes "PUT", bytes "DELETE", bytes "OPTIONS"]
  target : 32 ∉ head.target ∧ CrlfFree head.target
  version : head.version = bytes "HTTP/1.0" ∨ head.version = bytes "HTTP/1.1"
  fields : ∀ f ∈ head.fields, f.Valid
  uncoded : ∀ f ∈ head.fields, lower f.name ≠ bytes "transfer-encoding"
  announces : head.Announces length

/-- A request on the wire. -/
structure Request where
  head : RequestHead
  body : Bytes

def Request.bytes (r : Request) : Bytes := headBytes r.head.lines ++ r.body

def Request.Valid (r : Request) : Prop := r.head.WellFormed r.body.length

/-! ## The request line -/

open HttpContext

theorem methodNamed_ne_invalid {name : Bytes} : HttpRequest.methodNamed name ≠ .invalid ↔
    name ∈ [bytes "GET", bytes "POST", bytes "PUT", bytes "DELETE", bytes "OPTIONS"] := by
  unfold HttpRequest.methodNamed
  simp only [List.mem_cons, List.not_mem_nil, or_false]
  split
  · next same => simp [same]
  split
  · next same => simp [same]
  split
  · next same => simp [same]
  split
  · next same => simp [same]
  split
  · next same => simp [same]
  · simp_all

theorem setVersionText_iff {request request' : HttpRequest} {text : Bytes} :
    setVersionText request text = (true, request') ↔
      (text = bytes "HTTP/1.0" ∨ text = bytes "HTTP/1.1") ∧
        request' = request.setVersion text := by
  have shape {last : UInt8} : text.length = 8 ∧ text.take 7 = bytes "HTTP/1." ∧
      text.getLast? = some last ↔ text = bytes "HTTP/1." ++ [last] := by
    constructor
    · rintro ⟨length, front, back⟩
      obtain ⟨init, rfl⟩ := List.getLast?_eq_some_iff.mp back
      rw [List.length_append, List.length_singleton] at length
      rw [List.take_append_of_le_length (by omega), List.take_of_length_le (by omega)] at front
      rw [front]
    · rintro rfl
      exact ⟨rfl, rfl, rfl⟩
  have one : bytes "HTTP/1.1" = bytes "HTTP/1." ++ [49] := rfl
  have zero : bytes "HTTP/1.0" = bytes "HTTP/1." ++ [48] := rfl
  rw [one, zero]
  constructor
  · intro accepted
    unfold setVersionText at accepted
    split at accepted
    · next long =>
        split at accepted
        · next last =>
            have whole := shape.mp ⟨long.1, long.2, last⟩
            obtain ⟨-, rfl⟩ := Prod.mk.inj accepted
            exact ⟨.inr whole, congrArg request.setVersion (one.trans whole.symm)⟩
        · split at accepted
          · next last =>
              have whole := shape.mp ⟨long.1, long.2, last⟩
              obtain ⟨-, rfl⟩ := Prod.mk.inj accepted
              exact ⟨.inl whole, congrArg request.setVersion (zero.trans whole.symm)⟩
          · cases (Prod.mk.inj accepted).1
    · cases (Prod.mk.inj accepted).1
  · rintro ⟨rfl | rfl, rfl⟩ <;> rfl

/-- The request a request line alone gives. -/
def begin (name target version : Bytes) : HttpRequest :=
  (setTarget { method := HttpRequest.methodNamed name } target).setVersion version

/-- `processRequestLine` on a fresh request accepts exactly the request lines. -/
theorem processRequestLine_iff {line : Bytes} {request : HttpRequest} :
    processRequestLine {} line = (true, request) ↔
      ∃ name target version, line = name ++ 32 :: target ++ 32 :: version ∧
        name ∈ [bytes "GET", bytes "POST", bytes "PUT", bytes "DELETE", bytes "OPTIONS"] ∧
        32 ∉ target ∧ (version = bytes "HTTP/1.0" ∨ version = bytes "HTTP/1.1") ∧
        request = begin name target version := by
  constructor
  · intro accepted
    unfold processRequestLine at accepted
    cases first : cut 32 line with
    | none =>
        rw [first] at accepted
        cases (Prod.mk.inj accepted).1
    | some parts =>
        obtain ⟨name, rest⟩ := parts
        obtain ⟨rfl, -⟩ := eq_of_cut first
        simp only [first, HttpRequest.setMethod] at accepted
        split at accepted
        · cases (Prod.mk.inj accepted).1
        · next named =>
            obtain ⟨known, rfl⟩ := Prod.mk.inj named
            cases second : cut 32 rest with
            | none =>
                rw [second] at accepted
                cases (Prod.mk.inj accepted).1
            | some parts =>
                obtain ⟨target, text⟩ := parts
                obtain ⟨rfl, spaceless⟩ := eq_of_cut second
                simp only [second] at accepted
                obtain ⟨version, rfl⟩ := setVersionText_iff.mp accepted
                refine ⟨name, target, text, by simp, ?_, spaceless, version, rfl⟩
                exact methodNamed_ne_invalid.mp (by simpa using known)
  · rintro ⟨name, target, version, rfl, known, spaceless, versioned, rfl⟩
    have wordless : 32 ∉ name := by
      simp only [List.mem_cons, List.not_mem_nil, or_false] at known
      rcases known with rfl | rfl | rfl | rfl | rfl <;> decide
    have named : HttpRequest.methodNamed name ≠ .invalid := methodNamed_ne_invalid.mpr known
    rw [processRequestLine, List.append_assoc, List.cons_append, cut_append wordless]
    simp only [HttpRequest.setMethod, ne_eq, named, not_false_eq_true, decide_true]
    rw [cut_append spaceless]
    exact setVersionText_iff.mpr ⟨versioned, rfl⟩

/-! ## Header lines -/

theorem isTokenByte_iff (b : UInt8) : HttpRequest.isTokenByte b = true ↔ IsToken b := by
  simp only [HttpRequest.isTokenByte, IsToken, Bool.or_eq_true, Bool.and_eq_true,
    decide_eq_true_eq, List.contains_iff_mem]
  tauto

theorem isForbiddenControl_iff (b : UInt8) :
    HttpRequest.isForbiddenControl b = false ↔ b = 9 ∨ 32 ≤ b ∧ b ≠ 127 := by
  have all : ∀ n : Fin 256, HttpRequest.isForbiddenControl (UInt8.ofNat n) = false ↔
      UInt8.ofNat n = 9 ∨ 32 ≤ UInt8.ofNat n ∧ UInt8.ofNat n ≠ 127 := by decide +kernel
  have own := all ⟨b.toNat, b.toNat_lt⟩
  simpa using own

/-- Trimming takes away no control character that a value may not hold. -/
theorem trim_printable {value : Bytes} : (trim value).any HttpRequest.isForbiddenControl = false ↔
    ∀ b ∈ value, b = 9 ∨ 32 ≤ b ∧ b ≠ 127 := by
  have blank {b : UInt8} (isBlank : isBlank b = true) : b = 9 ∨ 32 ≤ b ∧ b ≠ 127 := by
    simp only [AIService.isBlank, Bool.or_eq_true, beq_iff_eq] at isBlank
    rcases isBlank with rfl | rfl
    · exact .inr (by decide)
    · exact .inl rfl
  obtain ⟨l, r, whole, left, right⟩ := trim_spec value
  rw [List.any_eq_false]
  constructor
  · intro inner b member
    rw [whole, List.mem_append, List.mem_append] at member
    rcases member with (front | middle) | back
    · exact blank (left b front)
    · exact (isForbiddenControl_iff b).mp (by simpa using inner b middle)
    · exact blank (right b back)
  · intro printable b member
    have inside : b ∈ value := by
      rw [whole, List.mem_append, List.mem_append]
      exact .inl (.inr member)
    simpa using (isForbiddenControl_iff b).mpr (printable b inside)

theorem token_ne_colon {name : Bytes} (token : ∀ b ∈ name, IsToken b) : 58 ∉ name := by
  intro colon
  have impossible := token 58 colon
  revert impossible
  decide

/-- One header line, as the parser reads it. -/
def headerLine (request : HttpRequest) (line : Bytes) : Option HttpRequest :=
  match cut 58 line with
  | some (name, rawValue) => request.addHeader name rawValue
  | none => none

/-- What the framing rules ask of a request's headers: the length announced so far, and
whether a transfer coding was named. -/
def announced (request : HttpRequest) : Option Bytes :=
  request.headers.find? (bytes "content-length")

def coded (request : HttpRequest) : Bool :=
  (request.headers.find? (bytes "transfer-encoding")).isSome

/-- Everything but the headers is the same. -/
def SameBut (request request' : HttpRequest) : Prop :=
  request' = { request with headers := request'.headers }

theorem addHeader_spec {request request' : HttpRequest} {f : Field}
    (added : request.addHeader f.name f.value = some request') :
    f.Valid ∧ SameBut request request' ∧
      (coded request' = true ↔ coded request = true ∨ lower f.name = bytes "transfer-encoding") ∧
      (if lower f.name = bytes "content-length" then
        announced request' = some (trim f.value) ∧
          ∀ text, announced request = some text → text = trim f.value
      else announced request' = announced request) := by
  unfold HttpRequest.addHeader at added
  split at added
  · cases added
  next shaped =>
  dsimp only at added
  split at added
  · cases added
  next clean =>
  simp only [Bool.or_eq_true, not_or, Bool.not_eq_true, Bool.not_eq_false', List.isEmpty_eq_false_iff,
    List.all_eq_true] at shaped
  have valid : f.Valid := ⟨shaped.1, fun b member => (isTokenByte_iff b).mp (shaped.2 b member),
    trim_printable.mp (by simpa using clean)⟩
  obtain ⟨stored, rfl, exact_⟩ : ∃ stored,
      request' = { request with headers := request.headers.insert (lower f.name) stored } ∧
        (lower f.name = bytes "content-length" → stored = trim f.value ∧
          ∀ text, announced request = some text → text = trim f.value) := by
    cases found : request.headers.find? (lower f.name) with
    | none =>
        rw [found] at added
        cases added
        refine ⟨_, rfl, fun length => ⟨rfl, fun text earlier => ?_⟩⟩
        rw [announced, ← length, found] at earlier
        cases earlier
    | some previous =>
        rw [found] at added
        dsimp only at added
        split at added
        · cases added
        next agrees =>
        split at added
        · next connection =>
            cases added
            refine ⟨_, rfl, fun length => ?_⟩
            rw [connection] at length
            exact absurd length (by decide)
        · cases added
          refine ⟨_, rfl, fun length => ⟨rfl, fun text earlier => ?_⟩⟩
          rw [announced, ← length, found] at earlier
          cases earlier
          simpa [length] using agrees
  refine ⟨valid, rfl, ?_, ?_⟩
  · rw [coded, SortedMap.find?_insert]
    split
    · next same => simp [same]
    · next other => simp [coded, other]
  · rw [announced, SortedMap.find?_insert]
    split
    · next length => exact ⟨congrArg some (exact_ length).1, (exact_ length).2⟩
    · rfl

/-- A valid field whose length agrees with what was announced is accepted. -/
theorem addHeader_accepts (request : HttpRequest) {f : Field} (valid : f.Valid)
    (agrees : lower f.name = bytes "content-length" →
      ∀ text, announced request = some text → text = trim f.value) :
    ∃ request', request.addHeader f.name f.value = some request' := by
  have shaped : ¬ (f.name.isEmpty || !f.name.all HttpRequest.isTokenByte) = true := by
    simp only [Bool.or_eq_true, not_or, Bool.not_eq_true, Bool.not_eq_false',
      List.isEmpty_eq_false_iff, List.all_eq_true]
    exact ⟨valid.named, fun b member => (isTokenByte_iff b).mpr (valid.token b member)⟩
  rw [HttpRequest.addHeader, if_neg shaped]
  dsimp only
  rw [if_neg (by simp [trim_printable.mpr valid.printable])]
  cases found : request.headers.find? (lower f.name) with
  | none => exact ⟨_, rfl⟩
  | some previous =>
      have same : lower f.name = bytes "content-length" → previous = trim f.value := by
        intro length
        refine agrees length previous ?_
        rw [announced, ← length, found]
      dsimp only
      rw [if_neg (by simpa using same)]
      split
      · exact ⟨_, rfl⟩
      · exact ⟨_, rfl⟩

theorem contentLengths_cons (f : Field) (fields : List Field) :
    contentLengths (f :: fields) = if lower f.name = bytes "content-length" then
      trim f.value :: contentLengths fields else contentLengths fields := by
  unfold contentLengths
  rw [List.filter_cons]
  split
  · next length => rw [if_pos (by simpa using length), List.map_cons]
  · next other => rw [if_neg (by simpa using other)]

/-- The lines are read as valid fields, and every length among them is the one announced. -/
theorem headerLines_spec {request request' : HttpRequest} {lines : List Bytes}
    (read : lines.foldlM headerLine request = some request') :
    ∃ fields : List Field, lines = fields.map Field.line ∧ (∀ f ∈ fields, f.Valid) ∧
      SameBut request request' ∧
      (coded request' = true ↔ coded request = true ∨
        ∃ f ∈ fields, lower f.name = bytes "transfer-encoding") ∧
      (∀ text ∈ (announced request).toList ++ contentLengths fields,
        announced request' = some text) ∧
      ((announced request).toList ++ contentLengths fields = [] → announced request' = none) := by
  induction lines generalizing request with
  | nil =>
      cases read
      refine ⟨[], rfl, by simp, rfl, by simp, ?_, ?_⟩
      · intro text member
        simpa [contentLengths] using member
      · intro empty
        simpa [contentLengths] using empty
  | cons line rest ih =>
      rw [List.foldlM_cons] at read
      obtain ⟨middle, first, later⟩ := Option.bind_eq_some_iff.mp read
      obtain ⟨fields, rfl, valid, same, codings, lengths, unannounced⟩ := ih later
      unfold headerLine at first
      cases split : cut 58 line with
      | none =>
          rw [split] at first
          cases first
      | some parts =>
          obtain ⟨name, value⟩ := parts
          obtain ⟨rfl, -⟩ := eq_of_cut split
          rw [split] at first
          obtain ⟨valid', same', codings', lengths'⟩ := addHeader_spec (f := ⟨name, value⟩) first
          refine ⟨⟨name, value⟩ :: fields, rfl, by simpa using ⟨valid', valid⟩, ?_, ?_, ?_⟩
          · rw [SameBut, same, same']
          · rw [codings, codings', or_assoc]
            simp
          · rw [contentLengths_cons]
            split at lengths'
            · next length =>
                obtain ⟨now, before⟩ := lengths'
                rw [if_pos length]
                rw [now] at lengths
                refine ⟨fun text member => ?_, fun empty => ?_⟩
                · rcases List.mem_append.mp member with earlier | inside
                  · rw [before text (by simpa using earlier)]
                    exact lengths _ (by simp)
                  · exact lengths text (by simpa using inside)
                · simp at empty
            · next other =>
                rw [if_neg other, ← lengths']
                exact ⟨lengths, unannounced⟩

/-- Valid fields whose announced lengths agree are read. -/
theorem headerLines_accepts (request : HttpRequest) {fields : List Field} {text : Bytes}
    (valid : ∀ f ∈ fields, f.Valid)
    (agree : ∀ other ∈ (announced request).toList ++ contentLengths fields, other = text) :
    ∃ request', (fields.map Field.line).foldlM headerLine request = some request' := by
  induction fields generalizing request with
  | nil => exact ⟨request, rfl⟩
  | cons f fields ih =>
      have valid' := valid f List.mem_cons_self
      rw [contentLengths_cons] at agree
      obtain ⟨middle, added⟩ := addHeader_accepts request valid' (by
        intro length other earlier
        rw [if_pos length] at agree
        rw [agree other (by simp [earlier]), agree (trim f.value) (by simp)])
      obtain ⟨-, -, -, lengths⟩ := addHeader_spec added
      obtain ⟨request', read⟩ := ih middle
        (fun f member => valid f (List.mem_cons_of_mem _ member)) (by
          intro other member
          split at lengths
          · next length =>
              rw [if_pos length] at agree
              rw [lengths.1] at member
              exact agree other (List.mem_append_right _ (by simpa using member))
          · next different =>
              rw [if_neg different] at agree
              rw [lengths] at member
              exact agree other member)
      refine ⟨request', ?_⟩
      rw [List.map_cons, List.foldlM_cons, headerLine, Field.line,
        cut_append (token_ne_colon valid'.token)]
      exact Option.bind_eq_some_iff.mpr ⟨middle, added, read⟩

/-! ## The end of the head -/

theorem readDigit_iff {n m : Nat} {b : UInt8} : readDigit n b = some m ↔
    (48 ≤ b ∧ b ≤ 57) ∧ m = n * 10 + (b - 48).toNat ∧ m ≤ 10485760 := by
  have small : 48 ≤ b → b ≤ 57 → (b - 48).toNat ≤ 9 := by
    intro low high
    have range : b.toNat ≤ 57 := UInt8.le_iff_toNat_le.mp high
    have start : 48 ≤ b.toNat := UInt8.le_iff_toNat_le.mp low
    rw [UInt8.toNat_sub_of_le _ _ low]
    exact Nat.sub_le_of_le_add (by simpa using range)
  unfold readDigit maxBodyLength
  constructor
  · intro read
    split at read
    · cases read
    next digit =>
    split at read
    · cases read
    next fits =>
    cases read
    simp only [Bool.or_eq_true, decide_eq_true_eq, not_or, UInt8.not_lt] at digit
    have bound := small digit.1 digit.2
    exact ⟨digit, rfl, by omega⟩
  · rintro ⟨⟨low, high⟩, rfl, fits⟩
    have bound := small low high
    rw [if_neg (by simp [low, high]), if_neg (by omega)]

theorem foldlM_readDigit_iff {text : Bytes} {n m : Nat} (start : n ≤ 10485760) :
    text.foldlM readDigit n = some m ↔ (∀ b ∈ text, 48 ≤ b ∧ b ≤ 57) ∧
      text.foldl (fun n b => n * 10 + (b - 48).toNat) n = m ∧ m ≤ 10485760 := by
  have grows (text : Bytes) (n : Nat) :
      n ≤ text.foldl (fun n b => n * 10 + (b - 48).toNat) n := by
    induction text generalizing n with
    | nil => exact Nat.le_refl n
    | cons b rest ih =>
        have step : n ≤ n * 10 + (b - 48).toNat := by omega
        exact step.trans (ih _)
  induction text generalizing n with
  | nil =>
      simp only [List.foldlM_nil, List.foldl_nil, Option.pure_def, Option.some.injEq]
      constructor
      · rintro rfl
        exact ⟨by simp, rfl, start⟩
      · exact fun accepted => accepted.2.1
  | cons b rest ih =>
      rw [List.foldlM_cons, List.foldl_cons]
      constructor
      · intro read
        obtain ⟨middle, first, later⟩ := Option.bind_eq_some_iff.mp read
        obtain ⟨digit, rfl, fits⟩ := readDigit_iff.mp first
        obtain ⟨digits, value, bound⟩ := (ih fits).mp later
        exact ⟨by simpa using ⟨digit, digits⟩, value, bound⟩
      · rintro ⟨digits, value, bound⟩
        have digit := digits b List.mem_cons_self
        have fits : n * 10 + (b - 48).toNat ≤ 10485760 :=
          Nat.le_trans (grows rest _) (value ▸ bound)
        refine Option.bind_eq_some_iff.mpr
          ⟨_, readDigit_iff.mpr ⟨digit, rfl, fits⟩, (ih fits).mpr ⟨?_, value, bound⟩⟩
        exact fun b member => digits b (List.mem_cons_of_mem _ member)

theorem readLength_iff {text : Bytes} {length : Nat} : readLength text = some length ↔
    text ≠ [] ∧ (∀ b ∈ text, 48 ≤ b ∧ b ≤ 57) ∧ decimal text = length ∧ length ≤ 10485760 := by
  unfold readLength decimal
  rw [← foldlM_readDigit_iff (Nat.zero_le _)]
  cases text with
  | nil => simp
  | cons b rest => simp

/-- What the lines of a complete head come to. -/
def acceptHead : List Bytes → Option (ParseState × HttpRequest)
  | [] => none
  | first :: rest =>
      match processRequestLine {} first with
      | (true, request) => (rest.foldlM headerLine request).bind endHead
      | (false, _) => none

/-- The head of `request` leaves `length` bytes of body to be read. -/
def Leaves (request : HttpRequest) (length : Nat) : Prop :=
  match announced request with
  | some text => text ≠ [] ∧ (∀ b ∈ text, 48 ≤ b ∧ b ≤ 57) ∧ decimal text = length ∧
      length ≤ 10485760
  | none => length = 0 ∧ request.method ≠ .post ∧ request.method ≠ .put

theorem endHead_iff {request request' : HttpRequest} {state : ParseState}
    (fresh : request.contentLength = 0) : endHead request = some (state, request') ↔
      ∃ length, coded request = false ∧ Leaves request length ∧
        state = (if 0 < length then .expectBody else .gotAll) ∧
        request' = { request with contentLength := length } := by
  have unchanged : { request with contentLength := 0 } = request := by rw [← fresh]
  unfold endHead Leaves coded announced
  cases request.headers.find? (bytes "transfer-encoding") with
  | some text => simp
  | none =>
      simp only [Option.isSome_none, Bool.false_eq_true, if_false, true_and]
      cases request.headers.find? (bytes "content-length") with
      | some text =>
          simp only [← readLength_iff]
          cases readLength text with
          | none => simp
          | some length =>
              simp only [Option.some.injEq, Prod.mk.injEq]
              constructor
              · rintro ⟨rfl, rfl⟩
                exact ⟨length, rfl, rfl, rfl⟩
              · rintro ⟨length', rfl, rfl, rfl⟩
                exact ⟨rfl, rfl⟩
      | none =>
          dsimp only
          split
          · next refused =>
              constructor
              · intro ended
                cases ended
              · rintro ⟨length, ⟨-, notPost, notPut⟩, -⟩
                simp [notPost, notPut] at refused
          · next method =>
              simp only [Bool.or_eq_true, decide_eq_true_eq, not_or] at method
              simp only [Option.some.injEq, Prod.mk.injEq]
              constructor
              · rintro ⟨rfl, rfl⟩
                exact ⟨0, ⟨rfl, method⟩, rfl, unchanged.symm⟩
              · rintro ⟨length, ⟨rfl, -⟩, rfl, rfl⟩
                exact ⟨rfl, unchanged.symm⟩

/-- `request` is what the head says, before its body. -/
structure ReadFrom (head : RequestHead) (request : HttpRequest) : Prop where
  method : request.method = HttpRequest.methodNamed head.name
  version : request.version = head.version
  content : request.content = []

theorem setTarget_fields (request : HttpRequest) (target : Bytes) :
    (setTarget request target).method = request.method ∧
      (setTarget request target).headers = request.headers ∧
      (setTarget request target).content = request.content ∧
      (setTarget request target).contentLength = request.contentLength := by
  have pair (request : HttpRequest) (text : Bytes) :
      (request.setQueryParameter text).method = request.method ∧
        (request.setQueryParameter text).headers = request.headers ∧
        (request.setQueryParameter text).content = request.content ∧
        (request.setQueryParameter text).contentLength = request.contentLength := by
    unfold HttpRequest.setQueryParameter
    split <;> exact ⟨rfl, rfl, rfl, rfl⟩
  have pairs (texts : List Bytes) (request : HttpRequest) :
      (texts.foldl HttpRequest.setQueryParameter request).method = request.method ∧
        (texts.foldl HttpRequest.setQueryParameter request).headers = request.headers ∧
        (texts.foldl HttpRequest.setQueryParameter request).content = request.content ∧
        (texts.foldl HttpRequest.setQueryParameter request).contentLength =
          request.contentLength := by
    induction texts generalizing request with
    | nil => exact ⟨rfl, rfl, rfl, rfl⟩
    | cons text rest ih =>
        obtain ⟨m, h, c, l⟩ := ih (request.setQueryParameter text)
        obtain ⟨m', h', c', l'⟩ := pair request text
        exact ⟨m.trans m', h.trans h', c.trans c', l.trans l'⟩
  unfold setTarget HttpRequest.setQueryParameters
  split
  · exact pairs _ _
  · exact ⟨rfl, rfl, rfl, rfl⟩

theorem begin_headers (name target version : Bytes) :
    announced (begin name target version) = none ∧ coded (begin name target version) = false ∧
      (begin name target version).contentLength = 0 := by
  obtain ⟨-, headers, -, contentLength⟩ :=
    setTarget_fields { method := HttpRequest.methodNamed name } target
  refine ⟨?_, ?_, contentLength⟩
  · rw [announced, begin, HttpRequest.setVersion, headers]
    rfl
  · rw [coded, begin, HttpRequest.setVersion, headers]
    rfl

theorem method_of_name {name : Bytes} (method : HttpRequest.methodNamed name ≠ .post ∧
    HttpRequest.methodNamed name ≠ .put) : name ≠ bytes "POST" ∧ name ≠ bytes "PUT" := by
  constructor
  · rintro rfl
    exact method.1 rfl
  · rintro rfl
    exact method.2 rfl

theorem name_of_method {name : Bytes} (other : name ≠ bytes "POST" ∧ name ≠ bytes "PUT") :
    HttpRequest.methodNamed name ≠ .post ∧ HttpRequest.methodNamed name ≠ .put := by
  unfold HttpRequest.methodNamed
  rw [if_neg other.1, if_neg other.2]
  split
  · exact ⟨nofun, nofun⟩
  split
  · exact ⟨nofun, nofun⟩
  split
  · exact ⟨nofun, nofun⟩
  · exact ⟨nofun, nofun⟩

/-- Accepted lines are the lines of a well-formed head. -/
theorem acceptHead_sound {lines : List Bytes} {state : ParseState} {request : HttpRequest}
    (clean : ∀ line ∈ lines, CrlfFree line) (accepted : acceptHead lines = some (state, request)) :
    ∃ head, head.lines = lines ∧ head.WellFormed request.contentLength ∧ ReadFrom head request ∧
      state = (if 0 < request.contentLength then .expectBody else .gotAll) := by
  cases lines with
  | nil => cases accepted
  | cons first rest =>
      cases begun : processRequestLine {} first with
      | mk ok request₀ =>
          simp only [acceptHead, begun] at accepted
          cases ok with
          | false => cases accepted
          | true =>
              obtain ⟨name, target, version, rfl, known, spaceless, versioned, rfl⟩ :=
                processRequestLine_iff.mp begun
              obtain ⟨request₁, read, ended⟩ := Option.bind_eq_some_iff.mp accepted
              obtain ⟨fields, rfl, valid, same, codings, lengths, unannounced⟩ :=
                headerLines_spec read
              obtain ⟨method, -, content, -⟩ :=
                setTarget_fields { method := HttpRequest.methodNamed name } target
              obtain ⟨noLength, noCoding, noBody⟩ := begin_headers name target version
              have fresh : request₁.contentLength = 0 := by rw [same]; exact noBody
              obtain ⟨length, uncoded, leaves, rfl, rfl⟩ := (endHead_iff fresh).mp ended
              have method₁ : request₁.method = HttpRequest.methodNamed name := by
                rw [same]
                exact method
              rw [noLength, Option.toList_none, List.nil_append] at lengths unannounced
              refine ⟨⟨name, target, version, fields⟩, rfl, ⟨known, ⟨spaceless, ?_⟩, versioned, valid,
                ?_, ?_⟩, ⟨method₁, ?_, ?_⟩, rfl⟩
              · intro inside
                refine clean _ List.mem_cons_self (inside.trans ?_)
                exact ⟨name ++ [32], 32 :: version, by simp⟩
              · intro f member coding
                rw [codings.mpr (.inr ⟨f, member, coding⟩)] at uncoded
                cases uncoded
              · unfold RequestHead.Announces
                unfold Leaves at leaves
                dsimp only
                cases texts : contentLengths fields with
                | nil =>
                    rw [unannounced texts] at leaves
                    obtain ⟨rfl, method⟩ := leaves
                    rw [method₁] at method
                    exact ⟨rfl, method_of_name method⟩
                | cons text others =>
                    rw [texts] at lengths
                    rw [lengths text List.mem_cons_self] at leaves
                    refine ⟨fun other member => ?_, leaves⟩
                    have both := lengths other (List.mem_cons_of_mem _ member)
                    rw [lengths text List.mem_cons_self] at both
                    exact (Option.some.inj both).symm
              · dsimp only
                rw [same]
                rfl
              · dsimp only
                rw [same]
                exact content

/-- A header line has one reading as a field. -/
theorem fields_unique {fields fields' : List Field}
    (same : fields.map Field.line = fields'.map Field.line)
    (tokens : ∀ f ∈ fields, ∀ b ∈ f.name, IsToken b)
    (tokens' : ∀ f ∈ fields', ∀ b ∈ f.name, IsToken b) : fields = fields' := by
  induction fields generalizing fields' with
  | nil =>
      cases fields' with
      | nil => rfl
      | cons => cases same
  | cons f rest ih =>
      cases fields' with
      | nil => cases same
      | cons f' rest' =>
          obtain ⟨line, lines⟩ := List.cons.inj same
          have read := cut_append (token_ne_colon (tokens f List.mem_cons_self)) f.value
          have read' := cut_append (token_ne_colon (tokens' f' List.mem_cons_self)) f'.value
          rw [show f.name ++ 58 :: f.value = f'.name ++ 58 :: f'.value from line, read'] at read
          obtain ⟨name, value⟩ := Prod.mk.inj (Option.some.inj read)
          have head : f = f' := by
            cases f
            cases f'
            cases name
            cases value
            rfl
          rw [head, ih lines (fun f member => tokens f (List.mem_cons_of_mem _ member))
            (fun f member => tokens' f (List.mem_cons_of_mem _ member))]

/-- The lines of a well-formed head are accepted. -/
theorem acceptHead_complete {head : RequestHead} {length : Nat} (valid : head.WellFormed length) :
    ∃ state request, acceptHead head.lines = some (state, request) ∧
      request.contentLength = length := by
  have begun : processRequestLine {} head.requestLine =
      (true, begin head.name head.target head.version) :=
    processRequestLine_iff.mpr ⟨head.name, head.target, head.version, rfl, valid.method,
      valid.target.1, valid.version, rfl⟩
  obtain ⟨noLength, noCoding, noBody⟩ := begin_headers head.name head.target head.version
  have announces := valid.announces
  unfold RequestHead.Announces at announces
  obtain ⟨text, agree⟩ : ∃ text, ∀ other ∈ contentLengths head.fields, other = text := by
    cases texts : contentLengths head.fields with
    | nil => exact ⟨[], by simp⟩
    | cons text others =>
        rw [texts] at announces
        exact ⟨text, by simpa using announces.1⟩
  obtain ⟨request₁, read⟩ := headerLines_accepts (begin head.name head.target head.version)
    valid.fields (by rw [noLength]; exact agree)
  obtain ⟨fields, lines, valid', same, codings, lengths, unannounced⟩ := headerLines_spec read
  obtain rfl := fields_unique lines (fun f member => (valid.fields f member).token)
    (fun f member => (valid' f member).token)
  rw [noLength, Option.toList_none, List.nil_append] at lengths unannounced
  have fresh : request₁.contentLength = 0 := by rw [same]; exact noBody
  have method₁ : request₁.method = HttpRequest.methodNamed head.name := by
    rw [same]
    exact (setTarget_fields { method := HttpRequest.methodNamed head.name } head.target).1
  have uncoded : coded request₁ = false := by
    rw [Bool.eq_false_iff]
    intro coding
    rcases codings.mp coding with before | ⟨f, member, named⟩
    · rw [noCoding] at before
      cases before
    · exact valid.uncoded f member named
  have leaves : Leaves request₁ length := by
    unfold Leaves
    cases texts : contentLengths head.fields with
    | nil =>
        rw [texts] at announces
        rw [unannounced texts, method₁]
        exact ⟨announces.1, name_of_method announces.2⟩
    | cons text others =>
        rw [texts] at announces
        rw [lengths text (by rw [texts]; exact List.mem_cons_self)]
        exact announces.2
  have ended := (endHead_iff fresh).mpr ⟨length, uncoded, leaves, rfl, rfl⟩
  refine ⟨if 0 < length then .expectBody else .gotAll, { request₁ with contentLength := length }, ?_,
    rfl⟩
  simp only [acceptHead, RequestHead.lines, begun]
  exact Option.bind_eq_some_iff.mpr ⟨request₁, read, ended⟩

end AIService.Http
