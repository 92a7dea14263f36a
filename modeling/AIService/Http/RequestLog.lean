import AIService.Data.Digits
import AIService.Data.Text
import AIService.Http.Request

/-!
# `http::request_log`

One line is logged for each request.  The route label in it comes from configuration and
may hold any bytes: `quoteLabel` writes it as one token of printable ASCII, from which a
reader gets the label back.
-/

namespace AIService.Http.RequestLog

def methodName : Method → Bytes
  | .get => bytes "GET"
  | .post => bytes "POST"
  | .head => bytes "HEAD"
  | .put => bytes "PUT"
  | .delete => bytes "DELETE"
  | .options => bytes "OPTIONS"
  | .invalid => bytes "INVALID"

/-- `hex[n]`. -/
def hexDigit (n : UInt8) : UInt8 := (bytes "0123456789abcdef").getD n.toNat 0

def limit : Nat := 128

/-- One turn of the loop of `quoteLabel`. -/
def quoteByte (ch : UInt8) : Bytes :=
  if ch = 34 ∨ ch = 92 then [92, ch]
  else if ch < 0x20 ∨ 0x7f ≤ ch then [92, 120, hexDigit (ch >>> 4), hexDigit (ch &&& 15)]
  else [ch]

def quoteLabel (label : Bytes) : Bytes :=
  let result := 34 :: (label.take limit).flatMap quoteByte
  (if limit < label.length then result ++ bytes "..." else result) ++ [34]

/-- What `record` logs.  `elapsed` is the difference of two readings of the clock, and
`size` the response bytes of a request that is not streaming. -/
def record (id : Nat) (method : Method) (route : Bytes) (status elapsed size : Nat)
    (streaming : Bool) : Bytes :=
  let event := bytes "http_request request_id=" ++ digits id ++ bytes " method=" ++
    methodName method ++ bytes " route=" ++ quoteLabel route ++ bytes " status=" ++ digits status ++
    bytes " elapsed_us=" ++ digits elapsed ++ bytes " event=" ++
    (if streaming then bytes "stream_open" else bytes "response")
  if streaming then event else event ++ bytes " response_bytes=" ++ digits size

/-! ## Tokens and their reader -/

/-- Printable ASCII. -/
def isPrintable (b : UInt8) : Bool := 0x20 ≤ b && b < 0x7f

/-- A text in which every quote and every backslash belongs to an escape. -/
inductive Escaped : Bytes → Prop
  | nil : Escaped []
  | plain {b : UInt8} {text : Bytes} : b ≠ 34 → b ≠ 92 → Escaped text → Escaped (b :: text)
  | quote {text : Bytes} : Escaped text → Escaped (92 :: 34 :: text)
  | backslash {text : Bytes} : Escaped text → Escaped (92 :: 92 :: text)
  | hex {high low : UInt8} {text : Bytes} : (∃ n, high = hexDigit n ∧ n < 16) →
    (∃ n, low = hexDigit n ∧ n < 16) → Escaped text → Escaped (92 :: 120 :: high :: low :: text)

/-- The value of a digit of `hex`. -/
def hexValue (digit : UInt8) : Option UInt8 :=
  if 48 ≤ digit ∧ digit ≤ 57 then some (digit - 48)
  else if 97 ≤ digit ∧ digit ≤ 102 then some (digit - 87)
  else none

/-- The rest of a token, after its first quote: what it stands for and what follows it. -/
def unescape : Bytes → Option (Bytes × Bytes)
  | [] => none
  | b :: rest =>
      if b = 34 then some ([], rest)
      else if b = 92 then
        match rest with
        | 120 :: high :: low :: rest =>
            (hexValue high).bind fun high => (hexValue low).bind fun low =>
              (unescape rest).map fun (text, rest) => ((high <<< 4 ||| low) :: text, rest)
        | ch :: rest => (unescape rest).map fun (text, rest) => (ch :: text, rest)
        | [] => none
      else (unescape rest).map fun (text, rest) => (b :: text, rest)

/-- Read the token at the start of a text. -/
def readLabel : Bytes → Option (Bytes × Bytes)
  | 34 :: rest => unescape rest
  | _ => none

/-! ## One byte -/

theorem quoteByte_cases : ∀ b : UInt8,
    ((b = 34 ∨ b = 92) ∧ quoteByte b = [92, b]) ∨
      (b ≠ 34 ∧ b ≠ 92 ∧ isPrintable b = true ∧ quoteByte b = [b]) ∨
        (quoteByte b = [92, 120, hexDigit (b >>> 4), hexDigit (b &&& 15)] ∧
          hexValue (hexDigit (b >>> 4)) = some (b >>> 4) ∧
          hexValue (hexDigit (b &&& 15)) = some (b &&& 15) ∧
          (b >>> 4) <<< 4 ||| (b &&& 15) = b ∧
          isPrintable (hexDigit (b >>> 4)) = true ∧
          isPrintable (hexDigit (b &&& 15)) = true ∧
          b >>> 4 < 16 ∧ b &&& 15 < 16) :=
  forall_byte (by decide +kernel)

/-- What `quoteByte` writes: an escaped delimiter, a plain byte, or two hex digits. -/
inductive Quoted (b : UInt8) : Bytes → Prop
  | delimiter : b = 34 ∨ b = 92 → Quoted b [92, b]
  | plain : b ≠ 34 → b ≠ 92 → isPrintable b = true → Quoted b [b]
  | hex {high low : UInt8} : high < 16 → low < 16 → high <<< 4 ||| low = b →
    hexValue (hexDigit high) = some high → hexValue (hexDigit low) = some low →
    isPrintable (hexDigit high) = true → isPrintable (hexDigit low) = true →
    Quoted b [92, 120, hexDigit high, hexDigit low]

theorem quoteByte_quoted (b : UInt8) : Quoted b (quoteByte b) := by
  rcases quoteByte_cases b with ⟨delimiter, eq⟩ | ⟨quote, slash, printable, eq⟩ |
    ⟨eq, high, low, whole, highPrintable, lowPrintable, highSmall, lowSmall⟩
  · rw [eq]
    exact .delimiter delimiter
  · rw [eq]
    exact .plain quote slash printable
  · rw [eq]
    exact .hex highSmall lowSmall whole high low highPrintable lowPrintable

namespace Quoted

variable {b : UInt8} {written : Bytes}

theorem length (form : Quoted b written) : written.length ≤ 4 := by
  cases form <;> simp

theorem printable (form : Quoted b written) : ∀ ch ∈ written, isPrintable ch = true := by
  cases form with
  | delimiter which =>
      intro ch member
      simp only [List.mem_cons, List.not_mem_nil, or_false] at member
      rcases member with rfl | rfl
      · rfl
      · rcases which with rfl | rfl
        · rfl
        · rfl
  | plain _ _ printable =>
      intro ch member
      rwa [List.mem_singleton.mp member]
  | hex _ _ _ _ _ high low =>
      intro ch member
      simp only [List.mem_cons, List.not_mem_nil, or_false] at member
      rcases member with rfl | rfl | rfl | rfl
      · rfl
      · rfl
      · exact high
      · exact low

theorem escaped (form : Quoted b written) {text : Bytes} (later : Escaped text) :
    Escaped (written ++ text) := by
  cases form with
  | delimiter which =>
      rcases which with rfl | rfl
      · exact .quote later
      · exact .backslash later
  | plain quote slash _ => exact .plain quote slash later
  | hex high low => exact .hex ⟨_, rfl, high⟩ ⟨_, rfl, low⟩ later

/-- A written byte is read back. -/
theorem unescape (form : Quoted b written) (rest : Bytes) :
    unescape (written ++ rest) =
      (RequestLog.unescape rest).map fun (text, rest) => (b :: text, rest) := by
  cases form with
  | delimiter which =>
      rcases which with rfl | rfl <;> rw [List.cons_append, RequestLog.unescape.eq_def] <;> rfl
  | plain quote slash _ =>
      rw [List.cons_append, List.nil_append, RequestLog.unescape.eq_def]
      dsimp only
      rw [if_neg quote, if_neg slash]
  | @hex high low _ _ whole highValue lowValue =>
      rw [List.cons_append, RequestLog.unescape.eq_def]
      simp only [List.cons_append, List.nil_append]
      rw [if_neg (by decide), if_pos trivial, highValue, lowValue]
      simp only [Option.bind_some, whole]

end Quoted

/-! ## Labels -/

/-- What the token of a label stands for. -/
def shown (label : Bytes) : Bytes :=
  label.take limit ++ if limit < label.length then bytes "..." else []

theorem quoteLabel_eq (label : Bytes) :
    quoteLabel label = 34 :: ((shown label).flatMap quoteByte ++ [34]) := by
  have dots : (bytes "...").flatMap quoteByte = bytes "..." := by decide +kernel
  unfold quoteLabel shown
  split
  · simp [dots]
  · simp

theorem escaped_flatMap (text : Bytes) : Escaped (text.flatMap quoteByte) := by
  induction text with
  | nil => exact .nil
  | cons b text ih => exact (quoteByte_quoted b).escaped ih

theorem unescape_flatMap (text rest : Bytes) :
    unescape (text.flatMap quoteByte ++ 34 :: rest) = some (text, rest) := by
  induction text with
  | nil => rw [List.flatMap_nil, List.nil_append, unescape.eq_def]; rfl
  | cons b text ih =>
      rw [List.flatMap_cons, List.append_assoc, (quoteByte_quoted b).unescape, ih]
      rfl

/-- A token ends where it was closed, and stands for what is shown of its label. -/
theorem readLabel_quoteLabel (label rest : Bytes) :
    readLabel (quoteLabel label ++ rest) = some (shown label, rest) := by
  rw [quoteLabel_eq, List.cons_append, List.append_assoc]
  exact unescape_flatMap _ rest

theorem quoteLabel_printable (label : Bytes) : ∀ ch ∈ quoteLabel label, isPrintable ch = true := by
  intro ch member
  rw [quoteLabel_eq] at member
  rcases List.mem_cons.mp member with rfl | member
  · rfl
  rcases List.mem_append.mp member with inner | last
  · obtain ⟨b, -, inside⟩ := List.mem_flatMap.mp inner
    exact (quoteByte_quoted b).printable ch inside
  · rw [List.mem_singleton.mp last]
    rfl

theorem quoteLabel_length (label : Bytes) : (quoteLabel label).length ≤ 517 := by
  have four (text : Bytes) : (text.flatMap quoteByte).length ≤ 4 * text.length := by
    induction text with
    | nil => exact Nat.le_refl 0
    | cons b text ih =>
        have one := (quoteByte_quoted b).length
        rw [List.flatMap_cons, List.length_append, List.length_cons]
        omega
  have taken := four (label.take limit)
  have short : (label.take limit).length ≤ limit := List.length_take_le _ _
  have dots : (bytes "...").length = 3 := by decide +kernel
  unfold quoteLabel
  unfold limit at *
  split <;> simp only [List.length_append, List.length_cons, List.length_nil, dots] <;> omega

theorem shown_of_short {label : Bytes} (short : label.length ≤ limit) : shown label = label := by
  rw [shown, if_neg (by omega), List.take_of_length_le short, List.append_nil]

/-- What is shown has more than `limit` bytes just when the label has. -/
theorem shown_length (label : Bytes) : limit < (shown label).length ↔ limit < label.length := by
  have dots : (bytes "...").length = 3 := by decide +kernel
  unfold shown
  split
  · next long => simp [dots, long, Nat.le_of_lt long]
  · next short => simp [short]

theorem shown_injective {label label' : Bytes} (same : shown label = shown label') :
    label.take limit = label'.take limit ∧ (limit < label.length ↔ limit < label'.length) := by
  have both : limit < label.length ↔ limit < label'.length := by
    rw [← shown_length label, ← shown_length label', same]
  refine ⟨?_, both⟩
  unfold shown at same
  by_cases long : limit < label.length
  · rw [if_pos long, if_pos (both.mp long)] at same
    exact List.append_cancel_right same
  · rw [if_neg long, if_neg (mt both.mpr long)] at same
    exact List.append_cancel_right same

/-! ## Lines -/

/-- Printable ASCII without a quote. -/
def isQuiet (b : UInt8) : Bool := isPrintable b && b != 34

theorem digits_quiet (n : Nat) : (digits n).all isQuiet = true := by
  refine List.all_eq_true.mpr fun b member => ?_
  obtain ⟨low, high⟩ := (digits_spec n).2.1 b member
  have printable : isPrintable b = true := by
    rw [isPrintable, Bool.and_eq_true, decide_eq_true_iff, decide_eq_true_iff]
    exact ⟨UInt8.le_trans (by decide) low, UInt8.lt_of_le_of_lt high (by decide)⟩
  have other : b ≠ 34 := by
    rintro rfl
    exact absurd low (by decide)
  simp [isQuiet, printable, other]

theorem methodName_quiet (method : Method) : (methodName method).all isQuiet = true := by
  cases method <;> decide +kernel

/-- A logged line is the token of its route between two texts without a quote. -/
theorem record_eq (id : Nat) (method : Method) (route : Bytes) (status elapsed size : Nat)
    (streaming : Bool) : ∃ before after, before.all isQuiet = true ∧ after.all isQuiet = true ∧
      record id method route status elapsed size streaming = before ++ (quoteLabel route ++ after) := by
  refine ⟨bytes "http_request request_id=" ++ digits id ++ bytes " method=" ++ methodName method ++
      bytes " route=",
    bytes " status=" ++ digits status ++ bytes " elapsed_us=" ++ digits elapsed ++ bytes " event=" ++
      (if streaming then bytes "stream_open" else bytes "response" ++ bytes " response_bytes=" ++
        digits size), ?_, ?_, ?_⟩
  · simp only [List.all_append, digits_quiet, methodName_quiet, Bool.and_true]
    decide +kernel
  · have ends : (if streaming then bytes "stream_open"
        else bytes "response" ++ bytes " response_bytes=" ++ digits size).all isQuiet = true := by
      split
      · decide +kernel
      · simp only [List.all_append, digits_quiet, Bool.and_true]
        decide +kernel
    simp only [List.all_append, digits_quiet, ends, Bool.and_true]
    decide +kernel
  · unfold record
    cases streaming <;> simp only [List.append_assoc] <;> rfl

/-- The route a reader finds in a line. -/
def readRoute (line : Bytes) : Option Bytes :=
  (cut 34 line).bind fun (_, rest) => (unescape rest).map (·.1)

/-- Whatever the label holds, one request is one line, and the route read from it is the
label as far as it is shown. -/
theorem record_line (id : Nat) (method : Method) (route : Bytes) (status elapsed size : Nat)
    (streaming : Bool) :
    (∀ ch ∈ record id method route status elapsed size streaming, isPrintable ch = true) ∧
      readRoute (record id method route status elapsed size streaming) = some (shown route) := by
  obtain ⟨before, after, quiet, quiet', eq⟩ := record_eq id method route status elapsed size streaming
  have printable {text : Bytes} (quiet : text.all isQuiet = true) : ∀ ch ∈ text, isPrintable ch = true :=
    fun ch member => (Bool.and_eq_true_iff.mp (List.all_eq_true.mp quiet ch member)).1
  rw [eq]
  constructor
  · intro ch member
    rcases List.mem_append.mp member with early | member
    · exact printable quiet ch early
    rcases List.mem_append.mp member with token | late
    · exact quoteLabel_printable route ch token
    · exact printable quiet' ch late
  · have absent : (34 : UInt8) ∉ before := by
      intro member
      have fine := List.all_eq_true.mp quiet 34 member
      cases fine
    rw [quoteLabel_eq, List.cons_append, readRoute, cut_append absent, Option.bind_some,
      List.append_assoc]
    change ((unescape ((shown route).flatMap quoteByte ++ 34 :: after)).map (·.1)) = _
    rw [unescape_flatMap]
    rfl

/-- A label is one token that cannot break its line, and the token tells which label it was
up to the cut; a logged request is one line, and the route read from it is the label as far as it is
shown. -/
theorem quoteLabel_token (label : Bytes) :
    (∃ inner, quoteLabel label = 34 :: (inner ++ [34]) ∧ Escaped inner) ∧
      (∀ ch ∈ quoteLabel label, isPrintable ch = true) ∧
      (quoteLabel label).length ≤ 517 ∧
      (label.length ≤ 128 → ∀ rest, readLabel (quoteLabel label ++ rest) = some (label, rest)) ∧
      (∀ label', quoteLabel label = quoteLabel label' →
        label.take 128 = label'.take 128 ∧ (128 < label.length ↔ 128 < label'.length)) ∧
      ∀ id method status elapsed size streaming,
        (∀ ch ∈ record id method label status elapsed size streaming, isPrintable ch = true) ∧
          readRoute (record id method label status elapsed size streaming) = some (shown label) := by
  refine ⟨⟨_, quoteLabel_eq label, escaped_flatMap _⟩, quoteLabel_printable label,
    quoteLabel_length label, fun short rest => ?_, fun label' same => ?_,
    fun id method => record_line id method label⟩
  · rw [readLabel_quoteLabel, shown_of_short short]
  · have read := readLabel_quoteLabel label []
    rw [same, readLabel_quoteLabel] at read
    obtain ⟨eq, -⟩ := Prod.mk.inj (Option.some.inj read)
    exact shown_injective eq.symm

end AIService.Http.RequestLog
