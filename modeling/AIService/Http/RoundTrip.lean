import AIService.Http.Framing

/-!
# Requests are read as they were meant

A `Meaning` is what a client asks; `Renders` relates it to the bytes it may send, with header
names in any letter case and blanks around header values.  `Matches` says that a dispatched
`HttpRequest` holds this meaning and nothing else.  Requests sent one after the other are
dispatched one after the other, each with its own meaning (`request_round_trip`).
-/

namespace AIService.Http

/-! ## What is asked, and how it is written -/

structure Meaning where
  method : Method
  path : Bytes
  query : List (Bytes × Bytes) := []
  version : Bytes
  headers : List (Bytes × Bytes) := []
  body : Bytes := []

namespace Meaning

variable (m : Meaning)

/-- The values of all headers with this name, in any letter case. -/
def values (name : Bytes) : List Bytes :=
  (m.headers.filter fun h => lower h.1 = lower name).map (·.2)

/-- `Connection` headers are joined; of any other header the last one counts. -/
def header? (name : Bytes) : Option Bytes :=
  if m.values name = [] then none
  else if lower name = bytes "connection" then some ([44].intercalate (m.values name))
  else (m.values name).getLast?

def parameter? (key : Bytes) : Option Bytes :=
  ((m.query.filter fun p => p.1 = key).map (·.2)).getLast?

end Meaning

/-- No blank at either end. -/
def Trimmed (value : Bytes) : Prop :=
  (∀ b, value.head? = some b → isBlank b = false) ∧
    ∀ b, value.getLast? = some b → isBlank b = false

structure Meaning.WellFormed (m : Meaning) : Prop where
  method : m.method ∈ [.get, .post, .put, .delete, .options]
  path : 32 ∉ m.path ∧ 63 ∉ m.path ∧ CrlfFree m.path
  keys : ∀ p ∈ m.query, 32 ∉ p.1 ∧ 38 ∉ p.1 ∧ 61 ∉ p.1 ∧ CrlfFree p.1
  arguments : ∀ p ∈ m.query, 32 ∉ p.2 ∧ 38 ∉ p.2 ∧ CrlfFree p.2
  version : m.version = bytes "HTTP/1.0" ∨ m.version = bytes "HTTP/1.1"
  names : ∀ h ∈ m.headers, h.1 ≠ [] ∧ ∀ b ∈ h.1, IsToken b
  values : ∀ h ∈ m.headers, Trimmed h.2 ∧ ∀ b ∈ h.2, b = 9 ∨ 32 ≤ b ∧ b ≠ 127
  uncoded : m.values (bytes "transfer-encoding") = []
  length : match m.values (bytes "content-length") with
    | [] => m.body = [] ∧ m.method ≠ .post ∧ m.method ≠ .put
    | text :: others => (∀ other ∈ others, other = text) ∧ text ≠ [] ∧
        (∀ b ∈ text, 48 ≤ b ∧ b ≤ 57) ∧ decimal text = m.body.length ∧ m.body.length ≤ 10485760

/-- The name of a method on the wire. -/
def Method.name : Method → Bytes
  | .get => bytes "GET"
  | .post => bytes "POST"
  | .put => bytes "PUT"
  | .delete => bytes "DELETE"
  | .options => bytes "OPTIONS"
  | .head => bytes "HEAD"
  | .invalid => []

/-- The pairs of a query, joined. -/
def queryText : List (Bytes × Bytes) → Bytes
  | [] => []
  | [p] => p.1 ++ 61 :: p.2
  | p :: rest => (p.1 ++ 61 :: p.2) ++ 38 :: queryText rest

/-- A header and the way it is written. -/
structure Spelling where
  name : Bytes
  value : Bytes
  spelled : Bytes
  left : Bytes
  right : Bytes

structure Spelling.Valid (s : Spelling) : Prop where
  name : lower s.spelled = lower s.name
  left : ∀ b ∈ s.left, isBlank b = true
  right : ∀ b ∈ s.right, isBlank b = true

def Spelling.header (s : Spelling) : Bytes × Bytes := (s.name, s.value)

def Spelling.field (s : Spelling) : Field := ⟨s.spelled, s.left ++ s.value ++ s.right⟩

def Meaning.head (m : Meaning) (target : Bytes) (spellings : List Spelling) : RequestHead :=
  ⟨m.method.name, target, m.version, spellings.map Spelling.field⟩

def Meaning.Renders (m : Meaning) (text : Bytes) : Prop :=
  ∃ target spellings,
    (target = m.path ++ 63 :: queryText m.query ∨ target = m.path ∧ m.query = []) ∧
    m.headers = spellings.map Spelling.header ∧ (∀ s ∈ spellings, s.Valid) ∧
    text = headBytes (m.head target spellings).lines ++ m.body

/-- The request holds the meaning, and nothing else. -/
structure Meaning.Matches (m : Meaning) (req : HttpRequest) : Prop where
  method : req.method = m.method
  path : req.path = m.path
  pathParameters : req.pathParameters = .empty
  query : ∀ key, req.queryParameters.find? key = m.parameter? key
  version : req.version = m.version
  headers : ∀ key, req.headers.find? key = if lower key = key then m.header? key else none
  getHeader : ∀ name, req.getHeader name = (m.header? name).getD []
  contentLength : req.contentLength = m.body.length
  content : req.content = m.body

/-! ## Names and values -/

theorem lower_lower (text : Bytes) : lower (lower text) = lower text := by
  have byte (b : UInt8) : lowerByte (lowerByte b) = lowerByte b := by
    have all : ∀ n : Fin 256, lowerByte (lowerByte (UInt8.ofNat n)) = lowerByte (UInt8.ofNat n) := by
      decide +kernel
    simpa using all ⟨b.toNat, b.toNat_lt⟩
  simp [lower, byte]

theorem isToken_lowerByte (b : UInt8) : IsToken (lowerByte b) ↔ IsToken b := by
  have all : ∀ n : Fin 256, IsToken (lowerByte (UInt8.ofNat n)) ↔ IsToken (UInt8.ofNat n) := by
    decide +kernel
  simpa using all ⟨b.toNat, b.toNat_lt⟩

/-- Letter case does not matter for a token. -/
theorem token_of_lower {a b : Bytes} (same : lower a = lower b) (token : b ≠ [] ∧ ∀ c ∈ b, IsToken c) :
    a ≠ [] ∧ ∀ c ∈ a, IsToken c := by
  constructor
  · rintro rfl
    exact token.1 (List.map_eq_nil_iff.mp same.symm)
  · intro c member
    have inLower : lowerByte c ∈ lower b := same ▸ List.mem_map_of_mem member
    obtain ⟨d, inside, eq⟩ := List.mem_map.mp inLower
    rw [← isToken_lowerByte, ← eq, isToken_lowerByte]
    exact token.2 d inside

/-- Blanks around a trimmed value are trimmed away. -/
theorem trim_blanks {left value right : Bytes} (trimmed : Trimmed value)
    (before : ∀ b ∈ left, isBlank b = true) (after : ∀ b ∈ right, isBlank b = true) :
    trim (left ++ value ++ right) = value := by
  rw [trim, List.append_assoc, List.dropWhile_append_of_pos before]
  cases value with
  | nil =>
      rw [List.nil_append, List.dropWhile_eq_nil_iff.mpr after, List.rdropWhile_nil]
  | cons b rest =>
      have first := trimmed.1 b rfl
      rw [List.cons_append, List.dropWhile_cons_of_neg (by simp [first]), ← List.cons_append]
      have ends : (b :: rest).rdropWhile isBlank = b :: rest := by
        rw [List.rdropWhile_eq_self_iff]
        intro nonempty
        have last := trimmed.2 _ (List.getLast?_eq_some_getLast nonempty)
        simp [last]
      clear before
      induction right using List.reverseRecOn with
      | nil => rw [List.append_nil, ends]
      | append_singleton right c ih =>
          rw [← List.append_assoc, List.rdropWhile_concat_pos _ _ _ (after c (by simp))]
          exact ih fun d member => after d (List.mem_append_left _ member)

/-! ## The query -/

theorem setQueryParameter_pair (request : HttpRequest) {p : Bytes × Bytes} (key : 61 ∉ p.1) :
    request.setQueryParameter (p.1 ++ 61 :: p.2) =
      { request with queryParameters := request.queryParameters.insert p.1 p.2 } := by
  rw [HttpRequest.setQueryParameter, cut_append key]

theorem setQueryParameters_queryText (request : HttpRequest) {query : List (Bytes × Bytes)}
    (keys : ∀ p ∈ query, 38 ∉ p.1 ∧ 61 ∉ p.1) (arguments : ∀ p ∈ query, 38 ∉ p.2) :
    request.setQueryParameters (queryText query) =
      { request with queryParameters :=
          query.foldl (fun found p => found.insert p.1 p.2) request.queryParameters } := by
  unfold HttpRequest.setQueryParameters
  induction query generalizing request with
  | nil => rfl
  | cons p rest ih =>
      obtain ⟨amp, equals⟩ := keys p List.mem_cons_self
      have whole : 38 ∉ p.1 ++ 61 :: p.2 := by
        simp [amp, arguments p List.mem_cons_self]
      cases rest with
      | nil =>
          rw [queryText, List.splitOn_eq_singleton whole]
          exact setQueryParameter_pair request equals
      | cons q rest =>
          rw [queryText, List.splitOn_append_cons_self, List.splitOn_eq_singleton whole,
            List.foldl_append]
          · dsimp only [List.foldl_cons, List.foldl_nil]
            rw [setQueryParameter_pair request equals, ih]
            · rfl
            · exact fun p member => keys p (List.mem_cons_of_mem _ member)
            · exact fun p member => arguments p (List.mem_cons_of_mem _ member)
          · intro empty
            cases empty

/-- Of the pairs with one key the last one wins. -/
theorem find?_foldl_insert (query : List (Bytes × Bytes)) (key : Bytes) :
    (query.foldl (fun found p => found.insert p.1 p.2) (.empty : SortedMap Bytes Bytes)).find? key =
      ((query.filter fun p => p.1 = key).map (·.2)).getLast? := by
  induction query using List.reverseRecOn with
  | nil => rfl
  | append_singleton query p ih =>
      rw [List.foldl_append, List.foldl_cons, List.foldl_nil, SortedMap.find?_insert, ih,
        List.filter_append]
      by_cases same : p.1 = key
      · simp [same]
      · simp [same]

/-- The request a request line of the meaning gives. -/
theorem begin_eq (m : Meaning) (wellFormed : m.WellFormed) {target : Bytes}
    (written : target = m.path ++ 63 :: queryText m.query ∨ target = m.path ∧ m.query = []) :
    begin m.method.name target m.version =
      { method := m.method, version := m.version, path := m.path,
        queryParameters := m.query.foldl (fun found p => found.insert p.1 p.2) .empty } := by
  have method : HttpRequest.methodNamed m.method.name = m.method := by
    have known := wellFormed.method
    cases named : m.method with
    | head | invalid =>
        rw [named] at known
        exact absurd known (by decide)
    | _ => decide
  have target_eq : HttpContext.setTarget { method := m.method } target =
      { method := m.method, path := m.path,
        queryParameters := m.query.foldl (fun found p => found.insert p.1 p.2) .empty } := by
    rcases written with rfl | ⟨rfl, none⟩
    · rw [HttpContext.setTarget, cut_append wellFormed.path.2.1]
      exact setQueryParameters_queryText _
        (fun p member => ⟨(wellFormed.keys p member).2.1, (wellFormed.keys p member).2.2.1⟩)
        (fun p member => (wellFormed.arguments p member).2.1)
    · rw [HttpContext.setTarget, cut_eq_none wellFormed.path.2.1, none]
      rfl
  rw [begin, method, target_eq]
  rfl

/-! ## The headers -/

theorem intercalate_concat (vs : List Bytes) (v : Bytes) : [44].intercalate (vs ++ [v]) =
    if vs = [] then v else [44].intercalate vs ++ bytes "," ++ v := by
  have comma : bytes "," = [44] := rfl
  induction vs with
  | nil => simp [List.intercalate]
  | cons w vs ih =>
      cases vs with
      | nil => simp [List.intercalate, comma]
      | cons x vs =>
          rw [if_neg (by simp)] at ih ⊢
          simp only [List.cons_append, List.intercalate_cons_cons] at ih ⊢
          rw [ih]
          simp

/-- A header's value, after what headers of its name were before. -/
def following (name value : Bytes) : Option Bytes → Bytes
  | none => value
  | some previous => if lower name = bytes "connection" then previous ++ bytes "," ++ value else value

theorem following_lower (name value : Bytes) (previous : Option Bytes) :
    following (lower name) value previous = following name value previous := by
  unfold following
  rw [lower_lower]

/-- One more header with this name, or another one. -/
theorem values_concat (m : Meaning) (hs : List (Bytes × Bytes)) (h : Bytes × Bytes) (name : Bytes) :
    ({ m with headers := hs ++ [h] } : Meaning).values name =
      ({ m with headers := hs } : Meaning).values name ++
        if lower h.1 = lower name then [h.2] else [] := by
  unfold Meaning.values
  rw [List.filter_append, List.map_append, List.filter_singleton]
  by_cases same : lower h.1 = lower name
  · simp [same]
  · simp [same]

theorem header?_concat (m : Meaning) (hs : List (Bytes × Bytes)) (h : Bytes × Bytes) (name : Bytes) :
    ({ m with headers := hs ++ [h] } : Meaning).header? name =
      if lower h.1 = lower name then
        some (following name h.2 (({ m with headers := hs } : Meaning).header? name))
      else ({ m with headers := hs } : Meaning).header? name := by
  unfold Meaning.header? following
  rw [values_concat]
  generalize ({ m with headers := hs } : Meaning).values name = vs
  by_cases same : lower h.1 = lower name
  · rw [if_pos same, if_pos same, if_neg (by simp), intercalate_concat]
    rcases eq_or_ne vs [] with rfl | nonempty
    · simp
    · rw [if_neg nonempty, if_neg nonempty]
      by_cases connection : lower name = bytes "connection"
      · simp [connection]
      · obtain ⟨v, last⟩ := Option.ne_none_iff_exists'.mp (mt List.getLast?_eq_none_iff.mp nonempty)
        simp [connection, last]
  · rw [if_neg same, if_neg same, List.append_nil]

theorem Meaning.header?_lower (m : Meaning) (name : Bytes) : m.header? (lower name) = m.header? name := by
  unfold Meaning.header? Meaning.values
  rw [lower_lower]

/-- A header of the meaning, stored as the parser stores it. -/
theorem addHeader_spelling (request : HttpRequest) {s : Spelling} (valid : s.Valid)
    (name : s.name ≠ [] ∧ ∀ b ∈ s.name, IsToken b)
    (value : Trimmed s.value ∧ ∀ b ∈ s.value, b = 9 ∨ 32 ≤ b ∧ b ≠ 127)
    (agrees : lower s.name = bytes "content-length" →
      ∀ text, request.headers.find? (lower s.name) = some text → text = s.value) :
    request.addHeader s.field.name s.field.value =
      some { request with
        headers := request.headers.insert (lower s.name)
          (following s.name s.value (request.headers.find? (lower s.name))) } := by
  obtain ⟨nonempty, token⟩ := token_of_lower valid.name name
  have shaped : ¬ (s.spelled.isEmpty || !s.spelled.all HttpRequest.isTokenByte) = true := by
    simp only [Bool.or_eq_true, not_or, Bool.not_eq_true, Bool.not_eq_false',
      List.isEmpty_eq_false_iff, List.all_eq_true]
    exact ⟨nonempty, fun b member => (isTokenByte_iff b).mpr (token b member)⟩
  have trimmed := trim_blanks value.1 valid.left valid.right
  have clean : ¬ s.value.any HttpRequest.isForbiddenControl = true := by
    rw [Bool.not_eq_true, List.any_eq_false]
    intro b member
    simpa using (isForbiddenControl_iff b).mpr (value.2 b member)
  unfold HttpRequest.addHeader Spelling.field following
  dsimp only
  rw [if_neg shaped, trimmed, if_neg clean, valid.name]
  cases found : request.headers.find? (lower s.name) with
  | none => rfl
  | some previous =>
      have length : ¬ (lower s.name = bytes "content-length" && previous ≠ s.value) = true := by
        intro conflict
        simp only [Bool.and_eq_true, decide_eq_true_eq] at conflict
        exact conflict.2 (agrees conflict.1 previous found)
      dsimp only
      rw [if_neg (by simpa using length)]
      split
      · rfl
      · rfl

/-- The header lines of a meaning are read as its headers. -/
theorem headerLines_spelled (m : Meaning) {request : HttpRequest} (empty : request.headers = .empty)
    {spellings : List Spelling} (valid : ∀ s ∈ spellings, s.Valid)
    (names : ∀ s ∈ spellings, s.name ≠ [] ∧ ∀ b ∈ s.name, IsToken b)
    (values : ∀ s ∈ spellings, Trimmed s.value ∧ ∀ b ∈ s.value, b = 9 ∨ 32 ≤ b ∧ b ≠ 127)
    {length : Bytes} (agree : ∀ s ∈ spellings, lower s.name = bytes "content-length" → s.value = length) :
    ∃ headers, (spellings.map fun s => s.field.line).foldlM headerLine request =
        some { request with headers := headers } ∧
      ∀ key, headers.find? key = if lower key = key then
        ({ m with headers := spellings.map Spelling.header } : Meaning).header? key else none := by
  induction spellings using List.reverseRecOn with
  | nil =>
      refine ⟨.empty, ?_, fun key => ?_⟩
      · rw [← empty]
        rfl
      · simp [Meaning.header?, Meaning.values]
  | append_singleton spellings s ih =>
      obtain ⟨headers, read, holds⟩ := ih (fun s member => valid s (List.mem_append_left _ member))
        (fun s member => names s (List.mem_append_left _ member))
        (fun s member => values s (List.mem_append_left _ member))
        (fun s member => agree s (List.mem_append_left _ member))
      have inside : s ∈ spellings ++ [s] := by simp
      have agrees : lower s.name = bytes "content-length" →
          ∀ text, headers.find? (lower s.name) = some text → text = s.value := by
        intro isLength text found
        rw [agree s inside isLength]
        rw [holds, if_pos (lower_lower _), Meaning.header?_lower] at found
        unfold Meaning.header? at found
        split at found
        · cases found
        · rw [if_neg (by rw [isLength]; decide)] at found
          obtain ⟨h, kept, rfl⟩ := List.mem_map.mp (List.mem_of_getLast? found)
          obtain ⟨written, sameName⟩ := List.mem_filter.mp kept
          obtain ⟨s', member, rfl⟩ := List.mem_map.mp written
          refine agree s' (List.mem_append_left _ member) ?_
          simpa [Spelling.header, isLength] using sameName
      have stored := addHeader_spelling { request with headers := headers } (valid s inside)
        (names s inside) (values s inside) agrees
      have colon := token_ne_colon (token_of_lower (valid s inside).name (names s inside)).2
      refine ⟨headers.insert (lower s.name)
        (following s.name s.value (headers.find? (lower s.name))), ?_, fun key => ?_⟩
      · rw [List.map_append, List.foldlM_append, read]
        simp only [List.map_cons, List.map_nil, List.foldlM_cons, List.foldlM_nil, bind_pure]
        change headerLine { request with headers := headers } (s.spelled ++ 58 :: s.field.value) = _
        rw [headerLine, cut_append colon]
        exact stored
      · rw [SortedMap.find?_insert, holds, holds, if_pos (lower_lower _), Meaning.header?_lower,
          List.map_append, List.map_cons, List.map_nil, header?_concat]
        by_cases lowered : lower key = key
        · rw [if_pos lowered, if_pos lowered, lowered]
          by_cases same : lower s.name = key
          · subst same
            rw [if_pos rfl, Meaning.header?_lower]
            rw [if_pos (show lower s.header.1 = lower s.name from rfl), following_lower]
            rfl
          · rw [if_neg same, if_neg (show lower s.header.1 ≠ key from same)]
        · have other : lower s.name ≠ key := by
            rintro rfl
            exact lowered (lower_lower _)
          rw [if_neg other, if_neg lowered, if_neg lowered]

/-! ## A whole request -/

theorem queryText_crlfFree {query : List (Bytes × Bytes)}
    (clean : ∀ p ∈ query, CrlfFree p.1 ∧ CrlfFree p.2) : CrlfFree (queryText query) := by
  induction query with
  | nil => exact .of_not_mem List.not_mem_nil
  | cons p rest ih =>
      obtain ⟨key, argument⟩ := clean p List.mem_cons_self
      have pair : CrlfFree (p.1 ++ 61 :: p.2) := key.separated argument (by decide) (by decide)
      cases rest with
      | nil => exact pair
      | cons q rest =>
          exact pair.separated (ih fun p member => clean p (List.mem_cons_of_mem _ member))
            (by decide) (by decide)

theorem not_mem_queryText {query : List (Bytes × Bytes)}
    (clean : ∀ p ∈ query, 32 ∉ p.1 ∧ 32 ∉ p.2) : 32 ∉ queryText query := by
  induction query with
  | nil => exact List.not_mem_nil
  | cons p rest ih =>
      obtain ⟨key, argument⟩ := clean p List.mem_cons_self
      have pair : 32 ∉ p.1 ++ 61 :: p.2 := by simp [key, argument]
      cases rest with
      | nil => exact pair
      | cons q rest =>
          have later := ih fun p member => clean p (List.mem_cons_of_mem _ member)
          rw [queryText]
          · simp only [List.mem_append, List.mem_cons, not_or] at pair later ⊢
            exact ⟨pair, by decide, later⟩
          · intro empty
            cases empty

section wire

variable {m : Meaning} {target : Bytes} {spellings : List Spelling}

/-- The target of a written request line. -/
theorem Meaning.WellFormed.written_target (wellFormed : m.WellFormed)
    (written : target = m.path ++ 63 :: queryText m.query ∨ target = m.path ∧ m.query = []) :
    32 ∉ target ∧ CrlfFree target := by
  obtain ⟨spaceless, -, free⟩ := wellFormed.path
  have keys := wellFormed.keys
  have arguments := wellFormed.arguments
  rcases written with rfl | ⟨rfl, -⟩
  · constructor
    · have query := not_mem_queryText fun p member => ⟨(keys p member).1, (arguments p member).1⟩
      simp [spaceless, query]
    · have query := queryText_crlfFree fun p member =>
        ⟨(keys p member).2.2.2, (arguments p member).2.2⟩
      exact free.separated query (by decide) (by decide)
  · exact ⟨spaceless, free⟩

/-- The lines of a written head are lines. -/
theorem head_lines_clean (wellFormed : m.WellFormed)
    (written : target = m.path ++ 63 :: queryText m.query ∨ target = m.path ∧ m.query = [])
    (headers : m.headers = spellings.map Spelling.header) (valid : ∀ s ∈ spellings, s.Valid) :
    CleanLines (m.head target spellings).lines := by
  intro line member
  rcases List.mem_cons.mp member with rfl | later
  · refine ⟨by simp [RequestHead.requestLine], ?_⟩
    have plain : 13 ∉ m.method.name := by
      cases m.method <;> decide
    have versioned : 13 ∉ m.version := by
      rcases wellFormed.version with same | same <;> rw [same] <;> decide
    exact ((CrlfFree.of_not_mem plain).separated (wellFormed.written_target written).2 (by decide)
      (by decide)).separated (.of_not_mem versioned) (by decide) (by decide)
  · obtain ⟨f, inside, rfl⟩ := List.mem_map.mp later
    obtain ⟨s, among, rfl⟩ := List.mem_map.mp inside
    have inHeaders : s.header ∈ m.headers := headers ▸ List.mem_map_of_mem among
    have token := (token_of_lower (valid s among).name (wellFormed.names _ inHeaders)).2
    have printable := (wellFormed.values _ inHeaders).2
    refine ⟨by simp [Field.line], .of_not_mem fun cr => ?_⟩
    have blank {part : Bytes} (blanks : ∀ b ∈ part, isBlank b = true) : 13 ∉ part := by
      intro inPart
      exact absurd (blanks 13 inPart) (by decide)
    simp only [Field.line, Spelling.field, List.mem_append, List.mem_cons] at cr
    rcases cr with inName | colon | (inLeft | inValue) | inRight
    · exact absurd (token 13 inName) (by decide)
    · exact absurd colon (by decide)
    · exact blank (valid s among).left inLeft
    · exact absurd (printable 13 inValue) (by decide)
    · exact blank (valid s among).right inRight

/-- The head of a well-formed request is accepted, and read as it was meant. -/
theorem head_accepted (wellFormed : m.WellFormed)
    (written : target = m.path ++ 63 :: queryText m.query ∨ target = m.path ∧ m.query = [])
    (headers : m.headers = spellings.map Spelling.header) (valid : ∀ s ∈ spellings, s.Valid) :
    ∃ request, acceptHead (m.head target spellings).lines =
        some (if 0 < m.body.length then .expectBody else .gotAll, request) ∧
      m.Matches (request.setBody m.body) ∧ request.content = [] := by
  have inHeaders {s : Spelling} (member : s ∈ spellings) : s.header ∈ m.headers :=
    headers ▸ List.mem_map_of_mem member
  have name : m.method.name ∈
      [bytes "GET", bytes "POST", bytes "PUT", bytes "DELETE", bytes "OPTIONS"] := by
    have method := wellFormed.method
    simp only [List.mem_cons, List.not_mem_nil, or_false] at method
    rcases method with same | same | same | same | same <;> rw [same] <;> decide
  have begun : HttpContext.processRequestLine {} (m.head target spellings).requestLine =
      (true, begin m.method.name target m.version) :=
    processRequestLine_iff.mpr ⟨_, _, _, rfl, name, (wellFormed.written_target written).1,
      wellFormed.version, rfl⟩
  rw [begin_eq m wellFormed written] at begun
  obtain ⟨length, agree⟩ : ∃ length, ∀ text ∈ m.values (bytes "content-length"), text = length := by
    have lengths := wellFormed.length
    cases texts : m.values (bytes "content-length") with
    | nil => exact ⟨[], by simp⟩
    | cons text others =>
        rw [texts] at lengths
        exact ⟨text, by simpa using lengths.1⟩
  let first : HttpRequest :=
    { method := m.method, version := m.version, path := m.path,
      queryParameters := m.query.foldl (fun found p => found.insert p.1 p.2) .empty }
  have bare : first.headers = .empty := rfl
  obtain ⟨stored, read, holds⟩ := headerLines_spelled m bare valid
    (fun s member => wellFormed.names _ (inHeaders member))
    (fun s member => wellFormed.values _ (inHeaders member))
    (show ∀ s ∈ spellings, lower s.name = bytes "content-length" → s.value = length from
      fun s member isLength => by
        refine agree _ (List.mem_map.mpr ⟨s.header, List.mem_filter.mpr ⟨inHeaders member, ?_⟩, rfl⟩)
        have lowered : lower (bytes "content-length") = bytes "content-length" := by decide
        simpa [lowered, Spelling.header] using isLength)
  rw [← headers] at holds
  have own (name : Bytes) (lowered : lower name = name) : stored.find? name = m.header? name :=
    (holds name).trans (if_pos lowered)
  let request : HttpRequest := { first with headers := stored }
  have uncoded : coded request = false := by
    have none : m.header? (bytes "transfer-encoding") = none := if_pos wellFormed.uncoded
    rw [coded, own _ (by decide), none]
    rfl
  have leaves : Leaves request m.body.length := by
    have lengths := wellFormed.length
    have announces : announced request = m.header? (bytes "content-length") := own _ (by decide)
    unfold Leaves
    rw [announces]
    cases texts : m.values (bytes "content-length") with
    | nil =>
        rw [texts] at lengths
        rw [Meaning.header?, if_pos texts]
        exact ⟨by rw [lengths.1]; rfl, lengths.2⟩
    | cons text others =>
        rw [texts] at lengths
        have last : m.header? (bytes "content-length") = some text := by
          rw [Meaning.header?, if_neg (by simp [texts]), if_neg (by decide)]
          obtain ⟨v, last⟩ := Option.ne_none_iff_exists'.mp
            (mt List.getLast?_eq_none_iff.mp (by simp [texts] : m.values (bytes "content-length") ≠ []))
          have member := List.mem_of_getLast? last
          rw [last, agree v member, agree text (by simp [texts])]
        rw [last]
        exact lengths.2
  have fresh : request.contentLength = 0 := rfl
  have ended := (endHead_iff fresh).mpr ⟨_, uncoded, leaves, rfl, rfl⟩
  refine ⟨{ request with contentLength := m.body.length }, ?_, ?_, rfl⟩
  · simp only [acceptHead, RequestHead.lines, begun]
    refine Option.bind_eq_some_iff.mpr ⟨request, ?_, ended⟩
    rw [Meaning.head, List.map_map]
    exact read
  · exact {
      method := rfl
      path := rfl
      pathParameters := rfl
      query := find?_foldl_insert m.query
      version := rfl
      headers := holds
      getHeader := fun name => by
        rw [HttpRequest.getHeader]
        change (stored.find? (lower name)).getD [] = _
        rw [own _ (lower_lower name), Meaning.header?_lower]
      contentLength := rfl
      content := rfl }

end wire

section connection

variable {σ : Type} (httpCallback : HttpCallback σ)

/-- A request at the front of the buffer is parsed, and what follows it is left. -/
theorem request_passes (app : σ) {m : Meaning} {text : Bytes} (wellFormed : m.WellFormed)
    (renders : m.Renders text) (rest : Bytes) : ∃ req, m.Matches req ∧
      Passes httpCallback (.at_ app .expectRequestLine {} (text ++ rest)) (.at_ app .gotAll req rest) := by
  obtain ⟨target, spellings, written, headers, valid, rfl⟩ := renders
  obtain ⟨request, accepted, means, bodyless⟩ := head_accepted wellFormed written headers valid
  have clean := head_lines_clean wellFormed written headers valid
  have turn := head_turn httpCallback app clean (m.body ++ rest)
  rw [accepted, ← List.append_assoc] at turn
  have length : request.contentLength = m.body.length := means.contentLength
  refine ⟨request.setBody m.body, means, ?_⟩
  rcases Nat.eq_zero_or_pos m.body.length with none | some
  · have empty := List.length_eq_zero_iff.mp none
    have unchanged : request.setBody m.body = request := by
      rw [empty, HttpRequest.setBody, ← bodyless]
    rw [if_neg (by omega)] at turn
    rw [unchanged]
    rw [empty] at turn ⊢
    exact turn
  · rw [if_pos some] at turn
    have taken := body_turn httpCallback app request (m.body ++ rest)
    rw [length, if_neg (by simp), List.take_left, List.drop_left] at taken
    exact turn.trans httpCallback taken

/-- The dispatches answer the meanings in order, up to the first that ends the connection. -/
structure Answers (ms : List Meaning) (ds : List Dispatch) : Prop where
  matched : List.Forall₂ (fun m d => m.Matches d.req) (ms.take ds.length) ds
  onward : ∀ d ∈ ds.dropLast, d.terminal = false
  complete : ds.length < ms.length → ∃ d, ds.getLast? = some d ∧ d.terminal = true

theorem Answers.cons {m : Meaning} {ms : List Meaning} {d : Dispatch} {ds : List Dispatch}
    (means : m.Matches d.req) (goesOn : d.terminal = false) (answers : Answers ms ds) :
    Answers (m :: ms) (d :: ds) where
  matched := .cons means answers.matched
  onward := by
    intro d' member
    cases ds with
    | nil => cases member
    | cons e ds =>
        rw [List.dropLast_cons_cons] at member
        rcases List.mem_cons.mp member with rfl | later
        · exact goesOn
        · exact answers.onward d' later
  complete := by
    intro short
    obtain ⟨last, isLast, ends⟩ := answers.complete (Nat.lt_of_succ_lt_succ short)
    refine ⟨last, ?_, ends⟩
    rw [List.getLast?_cons, isLast]
    rfl

/-- Requests in the buffer of a connection are answered. -/
theorem requests_answered (app : σ) {wires : List (Meaning × Bytes)}
    (written : ∀ w ∈ wires, w.1.WellFormed ∧ w.1.Renders w.2) :
    ∃ ds conn, Settles (advance httpCallback) (.at_ app .expectRequestLine {} (wires.flatMap (·.2)))
        (ds.flatMap Dispatch.block) conn ∧ Answers (wires.map (·.1)) ds := by
  induction wires generalizing app with
  | nil =>
      obtain ⟨conn, run⟩ := (open_line_waits httpCallback app (.of_not_mem List.not_mem_nil)).1
      exact ⟨[], conn, run, .nil, by simp, by simp⟩
  | cons w wires ih =>
      obtain ⟨wellFormed, renders⟩ := written w List.mem_cons_self
      obtain ⟨req, means, passes⟩ :=
        request_passes httpCallback app wellFormed renders (wires.flatMap (·.2))
      obtain ⟨d, sameRequest, -, shows, stops⟩ :=
        dispatch_block httpCallback (Conn.at_ app .gotAll req (wires.flatMap (·.2))) rfl rfl
      rw [show req = d.req from sameRequest.symm] at means
      have step : advance httpCallback (.at_ app .gotAll req (wires.flatMap (·.2))) =
          some (d.block,
            (dispatch httpCallback (.at_ app .gotAll req (wires.flatMap (·.2)))).2) := by
        rw [advance_dispatches httpCallback _ rfl rfl rfl, ← shows]
      rw [List.flatMap_cons]
      cases last : d.terminal with
      | true =>
          rw [last] at stops
          have run := passes _ _ (.step step (stopped_settles httpCallback stops))
          rw [List.append_nil] at run
          refine ⟨[d], _, by simpa using run, .cons means .nil, by simp, fun _ => ⟨d, rfl, last⟩⟩
      | false =>
          rw [last] at stops
          obtain ⟨app', boundary⟩ := dispatch_boundary httpCallback app req _ stops
          obtain ⟨ds, conn, run, answers⟩ :=
            ih app' fun w member => written w (List.mem_cons_of_mem _ member)
          rw [boundary] at step
          exact ⟨d :: ds, conn, passes _ _ (.step step run), answers.cons means last⟩

/-- However well-formed requests are written, and however their bytes are cut into
deliveries: the connection dispatches them in order, up to the first whose exchange ends the
connection, each holding its own meaning and nothing else, and does nothing besides. -/
theorem request_round_trip (app : σ) {wires : List (Meaning × Bytes)}
    (written : ∀ w ∈ wires, w.1.WellFormed ∧ w.1.Renders w.2) {pieces : List Bytes}
    (sent : pieces.flatten = wires.flatMap (·.2)) :
    ∃ ds conn, deliver httpCallback (.fresh app) pieces = some (ds.flatMap Dispatch.block, conn) ∧
      Answers (wires.map (·.1)) ds := by
  obtain ⟨out, conn, returned, run⟩ := deliver_settles httpCallback app pieces
  obtain ⟨ds, conn', run', answers⟩ := requests_answered httpCallback app written
  rw [sent] at run
  obtain ⟨rfl, -⟩ := run.unique run'
  exact ⟨ds, conn, returned, answers⟩

end connection

/-- A `GET` with a query and a header in mixed case. -/
def exampleGet : Meaning :=
  { method := .get, path := bytes "/a", query := [(bytes "x", bytes "1")],
    version := bytes "HTTP/1.1", headers := [(bytes "Host", bytes "b")] }

def examplePost : Meaning :=
  { method := .post, path := bytes "/c", version := bytes "HTTP/1.1",
    headers := [(bytes "Content-Length", bytes "2")], body := bytes "hi" }

def exampleGetText : Bytes :=
  bytes "GET /a?x=1 HTTP/1.1" ++ crlf ++ bytes "hOST: \t b" ++ crlf ++ crlf

def examplePostText : Bytes :=
  bytes "POST /c HTTP/1.1" ++ crlf ++ bytes "Content-length:2 " ++ crlf ++ crlf ++ bytes "hi"

/-- Both requests on one connection, cut after the first byte. -/
theorem request_round_trip_pair : ∃ ds conn,
    deliver (fun n _ resp => { result := .ok resp, app := n + 1 }) (.fresh 0)
      [bytes "G", (exampleGetText ++ examplePostText).tail] =
        some (ds.flatMap Dispatch.block, conn) ∧ Answers [exampleGet, examplePost] ds := by
  have clean {text : Bytes} (absent : 13 ∉ text) : CrlfFree text := .of_not_mem absent
  have trimmed {value : Bytes} {b c : UInt8} (first : value.head? = some b)
      (last : value.getLast? = some c) (fine : isBlank b = false ∧ isBlank c = false) :
      Trimmed value := by
    constructor
    · intro b' starts
      rw [first] at starts
      exact Option.some.inj starts ▸ fine.1
    · intro c' ends
      rw [last] at ends
      exact Option.some.inj ends ▸ fine.2
  have get : exampleGet.WellFormed ∧ exampleGet.Renders exampleGetText := by
    refine ⟨⟨by decide, ⟨by decide, by decide, clean (by decide)⟩, ?_, ?_, .inr rfl, ?_, ?_, by decide,
      ⟨rfl, by decide, by decide⟩⟩, bytes "/a?x=1", [⟨bytes "Host", bytes "b", bytes "hOST", [32, 9, 32], []⟩],
      .inl (by decide), rfl, ?_, by decide +kernel⟩
    · intro p member
      cases List.mem_singleton.mp member
      exact ⟨by decide, by decide, by decide, clean (by decide)⟩
    · intro p member
      cases List.mem_singleton.mp member
      exact ⟨by decide, by decide, clean (by decide)⟩
    · decide +kernel
    · intro h member
      cases List.mem_singleton.mp member
      exact ⟨trimmed rfl rfl (by decide), by decide +kernel⟩
    · intro s member
      cases List.mem_singleton.mp member
      exact ⟨by decide, by decide +kernel, by decide +kernel⟩
  have post : examplePost.WellFormed ∧ examplePost.Renders examplePostText := by
    refine ⟨⟨by decide, ⟨by decide, by decide, clean (by decide)⟩, nofun, nofun, .inr rfl, ?_, ?_,
      by decide, ⟨nofun, by decide, by decide +kernel, by decide, by decide⟩⟩, bytes "/c",
      [⟨bytes "Content-Length", bytes "2", bytes "Content-length", [], [32]⟩],
      .inr ⟨rfl, rfl⟩, rfl, ?_, by decide +kernel⟩
    · decide +kernel
    · intro h member
      cases List.mem_singleton.mp member
      exact ⟨trimmed rfl rfl (by decide), by decide +kernel⟩
    · intro s member
      cases List.mem_singleton.mp member
      exact ⟨by decide, by decide +kernel, by decide +kernel⟩
  have written : ∀ w ∈ [(exampleGet, exampleGetText), (examplePost, examplePostText)],
      w.1.WellFormed ∧ w.1.Renders w.2 := by
    intro w member
    rcases List.mem_pair.mp member with rfl | rfl
    · exact get
    · exact post
  exact request_round_trip _ 0 written (by decide +kernel)

end AIService.Http
