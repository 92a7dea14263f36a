import AIService.Http.Grammar
import AIService.Http.Protocol

/-!
# Where one request ends and the next begins

On a connection at a request boundary, the unread bytes decide: `boundary_complete` for
bytes with a complete head, `boundary_incomplete` for the others.  `request_framing` puts
the requests of a whole byte stream together.
-/

namespace AIService.Http

variable {σ : Type} {httpCallback : HttpCallback σ}

/-! ## Lines -/

theorem findCRLF_none_iff {line : Bytes} : findCRLF line = none ↔ CrlfFree line := by
  unfold CrlfFree
  induction line with
  | nil => simp [findCRLF, crlf]
  | cons b rest ih =>
      have split : crlf <:+: b :: rest ↔ (b = 13 ∧ rest.head? = some 10) ∨ crlf <:+: rest := by
        rw [List.infix_cons_iff, crlf, List.cons_prefix_cons]
        constructor
        · rintro (⟨rfl, more, rfl⟩ | inside)
          · exact .inl ⟨rfl, rfl⟩
          · exact .inr inside
        · rintro (⟨rfl, next⟩ | inside)
          · refine .inl ⟨rfl, ?_⟩
            cases rest with
            | nil => cases next
            | cons c rest =>
                cases next
                exact ⟨rest, rfl⟩
          · exact .inr inside
      rw [split, findCRLF]
      split
      · next here => simp [here]
      · next away => simp [away, ih]

/-- A line without CRLF ends at the CRLF behind it. -/
theorem findCRLF_line {line : Bytes} (clean : CrlfFree line) (rest : Bytes) :
    findCRLF (line ++ (crlf ++ rest)) = some line.length := by
  rw [← findCRLF_none_iff] at clean
  induction line with
  | nil => rfl
  | cons b line ih =>
      rw [findCRLF] at clean
      split at clean
      · cases clean
      next away =>
      have same : (line ++ (crlf ++ rest)).head? = some 10 → line.head? = some 10 := by
        cases line with
        | nil =>
            intro first
            cases first
        | cons c line => exact id
      rw [List.cons_append, findCRLF, if_neg (fun here => away ⟨here.1, same here.2⟩),
        ih (by simpa using clean)]
      rfl

theorem CrlfFree.of_not_mem {line : Bytes} (absent : 13 ∉ line) : CrlfFree line := by
  intro inside
  exact absent (inside.subset (by decide))

theorem CrlfFree.separated {a b : Bytes} {ch : UInt8} (left : CrlfFree a) (right : CrlfFree b)
    (notCr : ch ≠ 13) (notLf : ch ≠ 10) : CrlfFree (a ++ ch :: b) := by
  rw [← findCRLF_none_iff] at left right ⊢
  induction a with
  | nil => simp [findCRLF, notCr, right]
  | cons c a ih =>
      rw [findCRLF] at left
      split at left
      · cases left
      next away =>
      have same : (a ++ ch :: b).head? = some 10 → a.head? = some 10 := by
        cases a with
        | nil => exact fun next => absurd (Option.some.inj next) notLf
        | cons d a => exact id
      rw [List.cons_append, findCRLF, if_neg (fun here => away ⟨here.1, same here.2⟩),
        ih (by simpa using left)]
      rfl

/-- The lines of a well-formed head are lines. -/
theorem RequestHead.WellFormed.lines {head : RequestHead} {length : Nat}
    (valid : head.WellFormed length) : ∀ line ∈ head.lines, line ≠ [] ∧ CrlfFree line := by
  intro line member
  rcases List.mem_cons.mp member with rfl | field
  · refine ⟨by simp [RequestHead.requestLine], ?_⟩
    have plain : 13 ∉ head.name := by
      have method := valid.method
      simp only [List.mem_cons, List.not_mem_nil, or_false] at method
      rcases method with same | same | same | same | same <;> rw [same] <;> decide
    have versioned : 13 ∉ head.version := by
      rcases valid.version with same | same <;> rw [same] <;> decide
    exact ((CrlfFree.of_not_mem plain).separated valid.target.2 (by decide) (by decide)).separated
      (.of_not_mem versioned) (by decide) (by decide)
  · obtain ⟨f, inside, rfl⟩ := List.mem_map.mp field
    have proper := valid.fields f inside
    refine ⟨by simp [Field.line], .of_not_mem fun cr => ?_⟩
    rcases List.mem_append.mp cr with inName | inValue
    · have impossible := proper.token 13 inName
      revert impossible
      decide
    · rcases List.mem_cons.mp inValue with colon | inValue
      · cases colon
      · have impossible := proper.printable 13 inValue
        revert impossible
        decide

/-- A line of a buffer is determined by the buffer. -/
theorem line_unique {a b rest rest' : Bytes} (cleanA : CrlfFree a) (cleanB : CrlfFree b)
    (same : a ++ (crlf ++ rest) = b ++ (crlf ++ rest')) : a = b ∧ rest = rest' := by
  have here := findCRLF_line cleanA rest
  rw [same, findCRLF_line cleanB rest'] at here
  obtain ⟨rfl, after⟩ := List.append_inj same (Option.some.inj here).symm
  exact ⟨rfl, List.append_cancel_left after⟩

/-- Lines that are not empty and hold no CRLF. -/
def CleanLines (lines : List Bytes) : Prop := ∀ line ∈ lines, line ≠ [] ∧ CrlfFree line

theorem headBytes_cons (line : Bytes) (lines : List Bytes) :
    headBytes (line :: lines) = line ++ (crlf ++ headBytes lines) := by
  simp [headBytes]

/-- A complete head is determined by the buffer. -/
theorem head_unique {lines lines' : List Bytes} {rest rest' : Bytes} (clean : CleanLines lines)
    (clean' : CleanLines lines') (same : headBytes lines ++ rest = headBytes lines' ++ rest') :
    lines = lines' ∧ rest = rest' := by
  have none_empty : CrlfFree [] := .of_not_mem List.not_mem_nil
  induction lines generalizing lines' with
  | nil =>
      cases lines' with
      | nil => exact ⟨rfl, List.append_cancel_left same⟩
      | cons line lines' =>
          obtain ⟨nonempty, free⟩ := clean' line List.mem_cons_self
          rw [headBytes_cons, List.append_assoc, List.append_assoc] at same
          exact absurd (line_unique none_empty free same).1.symm nonempty
  | cons line lines ih =>
      obtain ⟨nonempty, free⟩ := clean line List.mem_cons_self
      cases lines' with
      | nil =>
          rw [headBytes_cons, List.append_assoc, List.append_assoc] at same
          exact absurd (line_unique free none_empty same).1 nonempty
      | cons line' lines' =>
          obtain ⟨-, free'⟩ := clean' line' List.mem_cons_self
          simp only [headBytes_cons, List.append_assoc] at same
          obtain ⟨rfl, after⟩ := line_unique free free' same
          obtain ⟨rfl, behind⟩ := ih (fun line member => clean line (List.mem_cons_of_mem _ member))
            (fun line member => clean' line (List.mem_cons_of_mem _ member)) after
          exact ⟨rfl, behind⟩

theorem findCRLF_some {buffer : Bytes} {length : Nat} (found : findCRLF buffer = some length) :
    buffer = buffer.take length ++ (crlf ++ buffer.drop (length + 2)) ∧
      CrlfFree (buffer.take length) := by
  induction buffer generalizing length with
  | nil => cases found
  | cons b rest ih =>
      rw [findCRLF] at found
      split at found
      · next here =>
          cases found
          obtain ⟨rfl, next⟩ := here
          cases rest with
          | nil => cases next
          | cons c rest =>
              cases next
              exact ⟨rfl, .of_not_mem List.not_mem_nil⟩
      · next away =>
          obtain ⟨before, inner, rfl⟩ := Option.map_eq_some_iff.mp found
          obtain ⟨whole, free⟩ := ih inner
          refine ⟨congrArg (b :: ·) whole, ?_⟩
          rw [List.take_succ_cons, ← findCRLF_none_iff, findCRLF, if_neg, findCRLF_none_iff.mpr free]
          · rfl
          · rintro ⟨cr, next⟩
            refine away ⟨cr, ?_⟩
            cases rest with
            | nil => cases inner
            | cons c rest =>
                cases before with
                | zero => cases next
                | succ before => exact next

/-- Every buffer is a complete head and more, or some lines and an unfinished one. -/
theorem buffer_cases (buffer : Bytes) : ∃ lines, CleanLines lines ∧
    ((∃ rest, buffer = headBytes lines ++ rest) ∨
      ∃ tail, buffer = lines.flatMap (· ++ crlf) ++ tail ∧ CrlfFree tail) := by
  induction size : buffer.length using Nat.strong_induction_on generalizing buffer with
  | _ n ih =>
      cases found : findCRLF buffer with
      | none => exact ⟨[], by simp [CleanLines], .inr ⟨buffer, rfl, findCRLF_none_iff.mp found⟩⟩
      | some length =>
          have inside := findCRLF_le found
          obtain ⟨whole, free⟩ := findCRLF_some found
          generalize buffer.take length = line at whole free
          have shorter : (buffer.drop (length + 2)).length < n := by
            rw [List.length_drop]
            omega
          obtain ⟨lines, clean, split⟩ := ih _ shorter (buffer.drop (length + 2)) rfl
          generalize buffer.drop (length + 2) = rest at whole split
          rcases eq_or_ne line [] with rfl | nonempty
          · exact ⟨[], by simp [CleanLines], .inl ⟨rest, whole⟩⟩
          · refine ⟨line :: lines, ?_, ?_⟩
            · intro other member
              rcases List.mem_cons.mp member with rfl | later
              · exact ⟨nonempty, free⟩
              · exact clean other later
            · rcases split with ⟨rest', rfl⟩ | ⟨tail, rfl, open_⟩
              · exact .inl ⟨rest', by simp [whole, headBytes_cons]⟩
              · exact .inr ⟨tail, by simp [whole], open_⟩

/-! ## The parser on lines -/

/-- Everything `conn'` goes on to do, `conn` does. -/
def Passes (httpCallback : HttpCallback σ) (conn conn' : Conn σ) : Prop :=
  ∀ (out : List Obs) (conn'' : Conn σ), Settles (advance httpCallback) conn' out conn'' →
    Settles (advance httpCallback) conn out conn''

/-- The input is refused. -/
def Refuses (httpCallback : HttpCallback σ) (conn : Conn σ) : Prop :=
  ∃ conn', Settles (advance httpCallback) conn refusal conn'

/-- The connection waits for more input. -/
def Waits (httpCallback : HttpCallback σ) (conn : Conn σ) : Prop :=
  ∃ conn', Settles (advance httpCallback) conn [] conn'

/-- A connection that is served and parses in `state` what its request has become. -/
def Conn.at_ (app : σ) (state : ParseState) (request : HttpRequest) (buffer : Bytes) : Conn σ :=
  { context := { state := state, request := request }, buffer := buffer, app := app }

section parsing

variable (httpCallback : HttpCallback σ) (app : σ)

theorem take_line (line after : Bytes) : (line ++ (crlf ++ after)).take line.length = line :=
  List.take_left

theorem drop_line (line after : Bytes) :
    (line ++ (crlf ++ after)).drop (line.length + 2) = after := by
  rw [← List.drop_drop, List.drop_left]
  rfl

variable {state state' : ParseState} {request request' : HttpRequest} {buffer buffer' : Bytes}

theorem passes_of_again (unfinished : state ≠ .gotAll)
    (turn : HttpContext.parseIteration { state := state, request := request } buffer =
      .again { state := state', request := request' } buffer') :
    Passes httpCallback (.at_ app state request buffer) (.at_ app state' request' buffer') := by
  intro out conn'' run
  refine .silent ?_ run
  rw [advance_parses httpCallback rfl rfl unfinished]
  simp only [Conn.at_, turn]

theorem passes_of_complete (unfinished : state ≠ .gotAll)
    (turn : HttpContext.parseIteration { state := state, request := request } buffer =
      .done true { state := .gotAll, request := request' } buffer') :
    Passes httpCallback (.at_ app state request buffer) (.at_ app .gotAll request' buffer') := by
  intro out conn'' run
  refine .silent ?_ run
  rw [advance_parses httpCallback rfl rfl unfinished]
  simp only [Conn.at_, turn]
  rfl

theorem refuses_of_done (context : HttpContext) (buffer' : Bytes) (unfinished : state ≠ .gotAll)
    (turn : HttpContext.parseIteration { state := state, request := request } buffer =
      .done false context buffer') : Refuses httpCallback (.at_ app state request buffer) := by
  let left : Conn σ := { context := context, buffer := buffer', connected := false, app := app }
  refine ⟨left.discard, .last ?_ (settles_discard _).isQuiet⟩
  rw [advance_parses httpCallback rfl rfl unfinished]
  simp only [Conn.at_, turn]
  rfl

theorem waits_of_done (unfinished : state ≠ .gotAll)
    (turn : HttpContext.parseIteration { state := state, request := request } buffer =
      .done true { state := state, request := request } buffer) :
    Waits httpCallback (.at_ app state request buffer) := by
  refine ⟨_, .quiet ?_⟩
  rw [advance_parses httpCallback rfl rfl unfinished]
  simp only [Conn.at_, turn]
  exact if_neg (by simpa [HttpContext.gotAll] using unfinished)

/-- A request line is processed, or refused. -/
theorem requestLine_turn {line : Bytes} (free : CrlfFree line) (after : Bytes) :
    match HttpContext.processRequestLine {} line with
    | (true, request) => Passes httpCallback
        (.at_ app .expectRequestLine {} (line ++ (crlf ++ after)))
        (.at_ app .expectHeaders request after)
    | (false, _) => Refuses httpCallback
        (.at_ app .expectRequestLine {} (line ++ (crlf ++ after))) := by
  split
  · next accepted =>
      refine passes_of_again httpCallback app (by decide) ?_
      simp only [HttpContext.parseIteration, findCRLF_line free, take_line, drop_line, accepted]
  · next left refused =>
      refine refuses_of_done httpCallback app { request := left } (line ++ (crlf ++ after))
        (by decide) ?_
      simp only [HttpContext.parseIteration, findCRLF_line free, take_line, refused]

/-- A header line is read, or refused. -/
theorem headerLine_turn (request : HttpRequest) {line : Bytes} (nonempty : line ≠ [])
    (free : CrlfFree line) (after : Bytes) :
    match headerLine request line with
    | some request' => Passes httpCallback
        (.at_ app .expectHeaders request (line ++ (crlf ++ after)))
        (.at_ app .expectHeaders request' after)
    | none => Refuses httpCallback
        (.at_ app .expectHeaders request (line ++ (crlf ++ after))) := by
  have long : line.length ≠ 0 := by simpa using nonempty
  unfold headerLine
  cases colon : cut 58 line with
  | none =>
      dsimp only
      refine refuses_of_done httpCallback app { state := .expectHeaders, request := request } after
        (by decide) ?_
      simp only [HttpContext.parseIteration, findCRLF_line free, take_line, drop_line, colon]
      exact if_neg long
  | some parts =>
      obtain ⟨name, value⟩ := parts
      dsimp only
      split
      · next added =>
          refine passes_of_again httpCallback app (by decide) ?_
          simp only [HttpContext.parseIteration, findCRLF_line free, take_line, drop_line, colon,
            added]
      · next refused =>
          refine refuses_of_done httpCallback app { state := .expectHeaders, request := request }
            (line ++ (crlf ++ after)) (by decide) ?_
          simp only [HttpContext.parseIteration, findCRLF_line free, take_line, colon, refused]

/-- The empty line ends the head, or the head is refused. -/
theorem endHead_turn (request : HttpRequest) (after : Bytes) :
    match HttpContext.endHead request with
    | some (state, request') => Passes httpCallback
        (.at_ app .expectHeaders request (crlf ++ after)) (.at_ app state request' after)
    | none => Refuses httpCallback (.at_ app .expectHeaders request (crlf ++ after)) := by
  have empty : findCRLF (crlf ++ after) = some 0 := rfl
  have behind : (crlf ++ after).drop (0 + 2) = after := rfl
  split
  · next state request' ended =>
      rcases HttpContext.endHead_state ended with rfl | ⟨rfl, -⟩
      · refine passes_of_complete httpCallback app (by decide) ?_
        simp [HttpContext.parseIteration, empty, cut, ended]
        rfl
      · refine passes_of_again httpCallback app (by decide) ?_
        simp [HttpContext.parseIteration, empty, cut, ended]
        rfl
  · next refused =>
      refine refuses_of_done httpCallback app { state := .expectHeaders, request := request }
        (crlf ++ after) (by decide) ?_
      simp [HttpContext.parseIteration, empty, cut, refused]

/-- A body is taken as announced, or waited for. -/
theorem body_turn (request : HttpRequest) (buffer : Bytes) :
    if buffer.length < request.contentLength then
      Waits httpCallback (.at_ app .expectBody request buffer)
    else Passes httpCallback (.at_ app .expectBody request buffer)
      (.at_ app .gotAll (request.setBody (buffer.take request.contentLength))
        (buffer.drop request.contentLength)) := by
  split
  · next short =>
      refine waits_of_done httpCallback app (by decide) ?_
      exact if_pos short
  · next enough =>
      refine passes_of_complete httpCallback app (by decide) ?_
      exact if_neg enough

/-- An unfinished line is waited for. -/
theorem open_line_waits {tail : Bytes} (free : CrlfFree tail) :
    Waits httpCallback (.at_ app .expectRequestLine {} tail) ∧
      ∀ request, Waits httpCallback (.at_ app .expectHeaders request tail) := by
  have absent := findCRLF_none_iff.mpr free
  constructor
  · refine waits_of_done httpCallback app (by decide) ?_
    simp [HttpContext.parseIteration, absent]
  · intro request
    refine waits_of_done httpCallback app (by decide) ?_
    simp [HttpContext.parseIteration, absent]

/-! ## The parser at a request boundary -/

theorem Passes.trans {conn conn' conn'' : Conn σ} (first : Passes httpCallback conn conn')
    (second : Passes httpCallback conn' conn'') : Passes httpCallback conn conn'' :=
  fun out last run => first out last (second out last run)

theorem Passes.refuses {conn conn' : Conn σ} (first : Passes httpCallback conn conn')
    (refused : Refuses httpCallback conn') : Refuses httpCallback conn := by
  obtain ⟨last, run⟩ := refused
  exact ⟨last, first _ _ run⟩

theorem Passes.waits {conn conn' : Conn σ} (first : Passes httpCallback conn conn')
    (waits : Waits httpCallback conn') : Waits httpCallback conn := by
  obtain ⟨last, run⟩ := waits
  exact ⟨last, first _ _ run⟩

/-- Header lines are read one by one. -/
theorem headerLines_turn (request : HttpRequest) {lines : List Bytes} (clean : CleanLines lines)
    (after : Bytes) :
    match lines.foldlM headerLine request with
    | some request' => Passes httpCallback
        (.at_ app .expectHeaders request (lines.flatMap (· ++ crlf) ++ after))
        (.at_ app .expectHeaders request' after)
    | none => Refuses httpCallback
        (.at_ app .expectHeaders request (lines.flatMap (· ++ crlf) ++ after)) := by
  induction lines generalizing request with
  | nil => exact fun _ _ run => run
  | cons line lines ih =>
      obtain ⟨nonempty, free⟩ := clean line List.mem_cons_self
      have split : (line :: lines).flatMap (· ++ crlf) ++ after =
          line ++ (crlf ++ (lines.flatMap (· ++ crlf) ++ after)) := by simp
      have first := headerLine_turn httpCallback app request nonempty free
        (lines.flatMap (· ++ crlf) ++ after)
      rw [List.foldlM_cons, split]
      cases read : headerLine request line with
      | none =>
          rw [read] at first
          exact first
      | some middle =>
          rw [read] at first
          have later := ih middle fun line member => clean line (List.mem_cons_of_mem _ member)
          change match lines.foldlM headerLine middle with
            | some request' => Passes _ _ (Conn.at_ app .expectHeaders request' after)
            | none => Refuses _ _
          split
          · next read' =>
              rw [read'] at later
              exact first.trans httpCallback later
          · next read' =>
              rw [read'] at later
              exact first.refuses httpCallback later

/-- A complete head is accepted or refused as a whole. -/
theorem head_turn {lines : List Bytes} (clean : CleanLines lines) (rest : Bytes) :
    match acceptHead lines with
    | some (state, request) => Passes httpCallback
        (.at_ app .expectRequestLine {} (headBytes lines ++ rest)) (.at_ app state request rest)
    | none => Refuses httpCallback
        (.at_ app .expectRequestLine {} (headBytes lines ++ rest)) := by
  cases lines with
  | nil => exact requestLine_turn httpCallback app (.of_not_mem List.not_mem_nil) rest
  | cons line lines =>
      obtain ⟨-, free⟩ := clean line List.mem_cons_self
      have first := requestLine_turn httpCallback app free (headBytes lines ++ rest)
      rw [headBytes_cons, List.append_assoc, List.append_assoc, acceptHead]
      cases begun : HttpContext.processRequestLine {} line with
      | mk ok request =>
          rw [begun] at first
          cases ok with
          | false => exact first
          | true =>
              have later := headerLines_turn httpCallback app request
                (fun line member => clean line (List.mem_cons_of_mem _ member)) (crlf ++ rest)
              have split : headBytes lines ++ rest =
                  lines.flatMap (· ++ crlf) ++ (crlf ++ rest) := by simp [headBytes]
              rw [split] at first ⊢
              dsimp only at first ⊢
              cases read : lines.foldlM headerLine request with
              | none =>
                  rw [read] at later
                  exact first.refuses httpCallback later
              | some middle =>
                  rw [read] at later
                  have last := endHead_turn httpCallback app middle rest
                  change match HttpContext.endHead middle with
                    | some (state, request) => Passes _ _ (Conn.at_ app state request rest)
                    | none => Refuses _ _
                  split
                  · next ended =>
                      rw [ended] at last
                      exact (first.trans httpCallback later).trans httpCallback last
                  · next ended =>
                      rw [ended] at last
                      exact (first.trans httpCallback later).refuses httpCallback last

/-- Without a complete head nothing is dispatched. -/
theorem incomplete_turn {lines : List Bytes} {tail : Bytes} (clean : CleanLines lines)
    (free : CrlfFree tail) :
    Refuses httpCallback (.at_ app .expectRequestLine {} (lines.flatMap (· ++ crlf) ++ tail)) ∨
      Waits httpCallback (.at_ app .expectRequestLine {} (lines.flatMap (· ++ crlf) ++ tail)) := by
  obtain ⟨waits, waits'⟩ := open_line_waits httpCallback app free
  cases lines with
  | nil => exact .inr waits
  | cons line lines =>
      obtain ⟨-, lineFree⟩ := clean line List.mem_cons_self
      have split : (line :: lines).flatMap (· ++ crlf) ++ tail =
          line ++ (crlf ++ (lines.flatMap (· ++ crlf) ++ tail)) := by simp
      have first := requestLine_turn httpCallback app lineFree
        (lines.flatMap (· ++ crlf) ++ tail)
      rw [split]
      cases begun : HttpContext.processRequestLine {} line with
      | mk ok request =>
          rw [begun] at first
          cases ok with
          | false => exact .inl first
          | true =>
              have later := headerLines_turn httpCallback app request
                (fun line member => clean line (List.mem_cons_of_mem _ member)) tail
              cases read : lines.foldlM headerLine request with
              | none =>
                  rw [read] at later
                  exact .inl (first.refuses httpCallback later)
              | some middle =>
                  rw [read] at later
                  exact .inr ((first.trans httpCallback later).waits httpCallback (waits' middle))

end parsing

/-! ## Whole byte streams -/

/-- A connection that goes on after a dispatch is at a request boundary. -/
theorem dispatch_boundary (httpCallback : HttpCallback σ) (app : σ) (request : HttpRequest)
    (buffer : Bytes)
    (goesOn : (dispatch httpCallback (.at_ app .gotAll request buffer)).2.context.processingStopped =
      false) : ∃ app', (dispatch httpCallback (.at_ app .gotAll request buffer)).2 =
        .at_ app' .expectRequestLine {} buffer := by
  have frame := onRequest_frame httpCallback (Conn.at_ app .gotAll request buffer) request
  have continues : (onRequest httpCallback (.at_ app .gotAll request buffer) request).2.1 =
      .canContinue true →
      (onRequest httpCallback (.at_ app .gotAll request buffer) request).2.2.connected = true := by
    unfold onRequest
    dsimp only
    split
    · exact nofun
    · split
      · exact nofun
      · split <;> split <;> simp
  unfold dispatch at goesOn ⊢
  change (onRequest httpCallback (.at_ app .gotAll request buffer) request).2.2.context = _ ∧ _
    at frame
  simp only [show (Conn.at_ app .gotAll request buffer).context.request = request from rfl]
    at goesOn ⊢
  generalize onRequest httpCallback (.at_ app .gotAll request buffer) request = returned
    at goesOn frame continues ⊢
  obtain ⟨out, go, conn⟩ := returned
  obtain ⟨sameContext, sameBuffer⟩ := frame
  dsimp only at sameContext sameBuffer continues
  cases go with
  | threw => cases goesOn
  | canContinue go =>
      cases go with
      | false => cases goesOn
      | true =>
          refine ⟨conn.app, ?_⟩
          obtain ⟨context, rest, connected, app'⟩ := conn
          have sameContext' : context = (Conn.at_ app .gotAll request buffer).context := sameContext
          have sameBuffer' : rest = buffer := sameBuffer
          have open_ : connected = true := continues rfl
          rw [sameContext', sameBuffer', open_]
          rfl

/-- A dispatched request says what the request on the wire says. -/
structure Parsed (r : Request) (req : HttpRequest) : Prop where
  valid : r.Valid
  method : req.method = HttpRequest.methodNamed r.head.name
  version : req.version = r.head.version
  content : req.content = r.body

/-- The bytes a connection got are the requests it dispatched, in order, and a rest.  If no
dispatch ended the connection, no valid request starts the rest, and a complete head that
starts it and is not well-formed was refused. -/
def Framed (bytes : Bytes) (out : List Obs) : Prop :=
  ∃ (requests : List Request) (ds : List Dispatch) (rest : Bytes) (refused : Bool),
    bytes = requests.flatMap Request.bytes ++ rest ∧
    out = ds.flatMap Dispatch.block ++ (if refused then refusal else []) ∧
    List.Forall₂ (fun r d => Parsed r d.req) requests ds ∧
    ((∃ d ∈ ds, d.terminal = true) ∨
      (∀ r : Request, r.Valid → ¬ r.bytes <+: rest) ∧
      ∀ lines, CleanLines lines → headBytes lines <+: rest →
        (¬ ∃ (head : RequestHead) (length : Nat), head.WellFormed length ∧ head.lines = lines) →
        refused = true)

/-- One more request in front. -/
theorem Framed.cons {r : Request} {d : Dispatch} {rest : Bytes} {out : List Obs}
    (parsed : Parsed r d.req) (framed : Framed rest out) :
    Framed (r.bytes ++ rest) (d.block ++ out) := by
  obtain ⟨requests, ds, tail, refused, rfl, rfl, paired, ends⟩ := framed
  refine ⟨r :: requests, d :: ds, tail, refused, by simp, by simp, .cons parsed paired, ?_⟩
  rcases ends with ⟨d', member, last⟩ | rejected
  · exact .inl ⟨d', List.mem_cons_of_mem _ member, last⟩
  · exact .inr rejected

/-- A complete head at the start of a buffer, read as a request. -/
theorem prefix_head {lines : List Bytes} {rest : Bytes} (clean : CleanLines lines) {r : Request}
    (valid : r.Valid) (starts : r.bytes <+: headBytes lines ++ rest) :
    r.head.lines = lines ∧ r.body <+: rest := by
  obtain ⟨more, same⟩ := starts
  rw [Request.bytes, List.append_assoc] at same
  obtain ⟨rfl, rfl⟩ := head_unique (RequestHead.WellFormed.lines valid) clean same
  exact ⟨rfl, List.prefix_append _ _⟩

/-- Bytes without a complete head do not start with one. -/
theorem no_head {lines lines' : List Bytes} {tail more : Bytes} (clean : CleanLines lines)
    (free : CrlfFree tail) (clean' : CleanLines lines') :
    lines.flatMap (· ++ crlf) ++ tail ≠ headBytes lines' ++ more := by
  intro same
  induction lines generalizing lines' with
  | nil =>
      have open_ := findCRLF_none_iff.mpr free
      rw [List.flatMap_nil, List.nil_append] at same
      rw [same] at open_
      cases lines' with
      | nil => cases open_
      | cons line lines' =>
          rw [headBytes_cons, List.append_assoc, List.append_assoc,
            findCRLF_line (clean' line List.mem_cons_self).2] at open_
          cases open_
  | cons line lines ih =>
      obtain ⟨nonempty, lineFree⟩ := clean line List.mem_cons_self
      have split : (line :: lines).flatMap (· ++ crlf) ++ tail =
          line ++ (crlf ++ (lines.flatMap (· ++ crlf) ++ tail)) := by simp
      rw [split] at same
      cases lines' with
      | nil =>
          exact nonempty (line_unique lineFree (.of_not_mem List.not_mem_nil) same).1
      | cons line' lines' =>
          rw [headBytes_cons, List.append_assoc, List.append_assoc] at same
          obtain ⟨-, after⟩ := line_unique lineFree (clean' line' List.mem_cons_self).2 same
          exact ih (fun line member => clean line (List.mem_cons_of_mem _ member))
            (fun line member => clean' line (List.mem_cons_of_mem _ member)) after

/-- An accepted head with its whole body is a request, and is parsed as one. -/
theorem request_turn (httpCallback : HttpCallback σ) (app : σ) {lines : List Bytes}
    (clean : CleanLines lines) {state : ParseState} {request : HttpRequest}
    (accepted : acceptHead lines = some (state, request)) {rest : Bytes}
    (enough : request.contentLength ≤ rest.length) :
    ∃ (r : Request) (request' : HttpRequest),
      headBytes lines ++ rest = r.bytes ++ rest.drop request.contentLength ∧
        Parsed r request' ∧
        Passes httpCallback (.at_ app .expectRequestLine {} (headBytes lines ++ rest))
          (.at_ app .gotAll request' (rest.drop request.contentLength)) := by
  have turn := head_turn httpCallback app clean rest
  rw [accepted] at turn
  obtain ⟨head, rfl, wellFormed, readFrom, stateIs⟩ :=
    acceptHead_sound (fun line member => (clean line member).2) accepted
  let r : Request := ⟨head, rest.take request.contentLength⟩
  have valid : r.Valid := by
    have length : r.body.length = request.contentLength := by
      rw [List.length_take]
      omega
    rw [Request.Valid, length]
    exact wellFormed
  have whole : headBytes head.lines ++ rest = r.bytes ++ rest.drop request.contentLength := by
    rw [Request.bytes, List.append_assoc, List.take_append_drop]
  rcases Nat.eq_zero_or_pos request.contentLength with none_ | some_
  · rw [stateIs, none_, if_neg (Nat.lt_irrefl 0)] at turn
    refine ⟨r, request, whole, ⟨valid, readFrom.method, readFrom.version, ?_⟩, ?_⟩
    · dsimp only [r]
      rw [none_]
      exact readFrom.content
    · rw [none_]
      exact turn
  · rw [stateIs, if_pos some_] at turn
    have taken := body_turn httpCallback app request rest
    rw [if_neg (Nat.not_lt.mpr enough)] at taken
    exact ⟨r, request.setBody r.body, whole, ⟨valid, readFrom.method, readFrom.version, rfl⟩,
      turn.trans httpCallback taken⟩

/-- An accepted head without its whole body is waited for, and is no request yet. -/
theorem short_framed (httpCallback : HttpCallback σ) (app : σ) {lines : List Bytes}
    (clean : CleanLines lines) {state : ParseState} {request : HttpRequest}
    (accepted : acceptHead lines = some (state, request)) {rest : Bytes}
    (short : rest.length < request.contentLength) :
    Waits httpCallback (.at_ app .expectRequestLine {} (headBytes lines ++ rest)) ∧
      Framed (headBytes lines ++ rest) [] := by
  have turn := head_turn httpCallback app clean rest
  rw [accepted] at turn
  obtain ⟨head, rfl, wellFormed, -, stateIs⟩ :=
    acceptHead_sound (fun line member => (clean line member).2) accepted
  have waits := body_turn httpCallback app request rest
  rw [if_pos short] at waits
  rw [stateIs, if_pos (by omega)] at turn
  refine ⟨turn.waits httpCallback waits, [], [], _, false, rfl, rfl, .nil, .inr ⟨?_, ?_⟩⟩
  · intro r valid starts
    obtain ⟨same, inside⟩ := prefix_head clean valid starts
    obtain ⟨state', request', accepted', length⟩ := acceptHead_complete valid
    rw [same, accepted] at accepted'
    cases accepted'
    have long := inside.length_le
    omega
  · intro lines' clean' starts malformed
    obtain ⟨more, same⟩ := starts
    obtain ⟨rfl, -⟩ := head_unique clean' clean same
    exact absurd ⟨head, _, wellFormed, rfl⟩ malformed

/-- A refused head does not start with a request. -/
theorem refused_framed {lines : List Bytes} {rest : Bytes} (clean : CleanLines lines)
    (refused : acceptHead lines = none) : Framed (headBytes lines ++ rest) refusal := by
  refine ⟨[], [], _, true, rfl, rfl, .nil, .inr ⟨?_, fun _ _ _ _ => rfl⟩⟩
  intro r valid starts
  obtain ⟨rfl, -⟩ := prefix_head clean valid starts
  obtain ⟨state, request, accepted, -⟩ := acceptHead_complete valid
  rw [refused] at accepted
  cases accepted

/-- Whatever a connection at a request boundary has in its buffer, it deals with it. -/
theorem boundary_framed (httpCallback : HttpCallback σ) (app : σ) (buffer : Bytes) :
    ∃ out conn, Settles (advance httpCallback) (.at_ app .expectRequestLine {} buffer) out conn ∧
      Framed buffer out := by
  induction size : buffer.length using Nat.strong_induction_on generalizing app buffer with
  | _ n ih =>
      obtain ⟨lines, clean, ⟨rest, rfl⟩ | ⟨tail, rfl, free⟩⟩ := buffer_cases buffer
      · cases accepted : acceptHead lines with
        | none =>
            have turn := head_turn httpCallback app clean rest
            rw [accepted] at turn
            obtain ⟨conn, run⟩ := turn
            exact ⟨refusal, conn, run, refused_framed clean accepted⟩
        | some read =>
            obtain ⟨state, request⟩ := read
            rcases Nat.lt_or_ge rest.length request.contentLength with short | enough
            · obtain ⟨⟨conn, run⟩, framed⟩ := short_framed httpCallback app clean accepted short
              exact ⟨[], conn, run, framed⟩
            · obtain ⟨r, request', whole, parsed, passes⟩ :=
                request_turn httpCallback app clean accepted enough
              have shorter : (rest.drop request.contentLength).length < n := by
                have two : 2 ≤ (headBytes lines).length := by
                  rw [headBytes, List.length_append]
                  exact Nat.le_add_left 2 _
                rw [← size, List.length_append, List.length_drop]
                omega
              generalize rest.drop request.contentLength = behind at whole passes shorter
              obtain ⟨d, sameRequest, -, shows, stops⟩ := 
                dispatch_block httpCallback (Conn.at_ app .gotAll request' behind) rfl rfl
              rw [show request' = d.req from sameRequest.symm] at parsed
              have step : advance httpCallback (.at_ app .gotAll request' behind) =
                  some (d.block, (dispatch httpCallback (.at_ app .gotAll request' behind)).2) := by
                rw [advance_dispatches httpCallback _ rfl rfl rfl, ← shows]
              rw [whole] at passes ⊢
              cases last : d.terminal with
              | true =>
                  rw [last] at stops
                  refine ⟨_, _, passes _ _ (.step step (stopped_settles httpCallback stops)), ?_⟩
                  refine ⟨[r], [d], behind, false, by simp, by simp, .cons parsed .nil, .inl ?_⟩
                  exact ⟨d, List.mem_singleton_self d, last⟩
              | false =>
                  rw [last] at stops
                  obtain ⟨app', boundary⟩ := dispatch_boundary httpCallback app request' _ stops
                  obtain ⟨out, conn, run, framed⟩ := ih _ shorter app' _ rfl
                  rw [boundary] at step
                  exact ⟨_, _, passes _ _ (.step step run), framed.cons parsed⟩
      · have absent {lines' : List Bytes} (clean' : CleanLines lines') :
            ¬ headBytes lines' <+: lines.flatMap (· ++ crlf) ++ tail := by
          rintro ⟨more, same⟩
          exact no_head clean free clean' same.symm
        have shapeless : ∀ r : Request, r.Valid →
            ¬ r.bytes <+: lines.flatMap (· ++ crlf) ++ tail := fun r valid starts =>
          absent (RequestHead.WellFormed.lines valid) ((List.prefix_append _ _).trans starts)
        rcases incomplete_turn httpCallback app clean free with ⟨conn, run⟩ | ⟨conn, run⟩
        · exact ⟨refusal, conn, run, [], [], _, true, rfl, rfl, .nil,
            .inr ⟨shapeless, fun _ _ _ _ => rfl⟩⟩
        · exact ⟨[], conn, run, [], [], _, false, rfl, rfl, .nil,
            .inr ⟨shapeless, fun _ clean' starts => absurd starts (absent clean')⟩⟩

/-- However a byte stream is cut into deliveries, the connection dispatches valid requests
only, each from exactly its bytes; and a valid request, or a complete malformed head, where a
request must start is dispatched, or refused with the fixed 400, unless an earlier request
ended the connection. -/
theorem request_framing (httpCallback : HttpCallback σ) (app : σ) (pieces : List Bytes) :
    ∃ out conn, deliver httpCallback (.fresh app) pieces = some (out, conn) ∧
      Framed pieces.flatten out := by
  obtain ⟨out, conn, returned, run⟩ := deliver_settles httpCallback app pieces
  obtain ⟨out', conn', run', framed⟩ := boundary_framed httpCallback app pieces.flatten
  obtain ⟨rfl, -⟩ := run.unique run'
  exact ⟨out, conn, returned, framed⟩

end AIService.Http
