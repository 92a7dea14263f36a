import AIService.Data.Search
import AIService.Data.Text
import AIService.Sessions.Manager

/-!
# Which id a `Cookie` header names

`getSessionIdFromCookie` searches the whole header, so what it takes depends on the first
pair that mentions `sessionId=` anywhere, be it at the end of a longer name or in a value.
-/

namespace AIService.Sessions

open Http

def equals : UInt8 := 61

/-- A cookie; neither part can end it early. -/
structure Pair where
  name : Bytes
  value : Bytes
  name_free : ∀ b ∈ name, b ≠ equals ∧ b ≠ semicolon ∧ b ≠ 32
  value_free : semicolon ∉ value

def Pair.text (p : Pair) : Bytes := p.name ++ equals :: p.value

/-- A header of cookies, each after its spaces. -/
def cookieHeader : List (Nat × Pair) → Bytes
  | [] => []
  | [(spaces, p)] => List.replicate spaces 32 ++ p.text
  | (spaces, p) :: q :: rest =>
      List.replicate spaces 32 ++ p.text ++ semicolon :: cookieHeader (q :: rest)

/-- The value of the first cookie named `sessionId`. -/
def sessionCookie (pairs : List (Nat × Pair)) : Bytes :=
  ((pairs.find? fun q => q.2.name = bytes "sessionId").map (·.2.value)).getD []

/-- The text of the cookie contains `sessionId=`. -/
def Pair.Mentions (p : Pair) : Prop := bytes "sessionId=" <:+: p.text

instance (p : Pair) : Decidable p.Mentions := inferInstanceAs (Decidable (_ <:+: _))

/-- The first cookie that mentions `sessionId=`, if there is one, is the one of that name. -/
def SessionFirst (pairs : List (Nat × Pair)) : Prop :=
  ∀ q ∈ pairs.find? fun q => q.2.Mentions, q.2.name = bytes "sessionId"

/-- In the text of the cookie `v` stands after the first `sessionId=`. -/
def Pair.Shows (p : Pair) (v : Bytes) : Prop :=
  ∃ l, FirstAt (bytes "sessionId=") p.text l v

/-! ## One cookie -/

theorem afterFirst_eq (needle text : Bytes) :
    afterFirst needle text = (cutAt needle text).map Prod.snd := by
  induction text with
  | nil =>
      rw [afterFirst, cutAt]
      cases needle <;> rfl
  | cons b rest ih =>
      rw [afterFirst, cutAt]
      split
      · rfl
      · rw [ih]
        cases cutAt needle rest <;> rfl

/-- A name ends in `stem`, or the search goes on in the value. -/
theorem cutAt_name (stem : Bytes) {name : Bytes} (bare : equals ∉ stem) (plain : equals ∉ name)
    (value : Bytes) :
    (stem <:+ name →
      (cutAt (stem ++ [equals]) (name ++ equals :: value)).map Prod.snd = some value) ∧
      (¬ stem <:+ name →
        (cutAt (stem ++ [equals]) (name ++ equals :: value)).map Prod.snd =
          (cutAt (stem ++ [equals]) value).map Prod.snd) := by
  induction name with
  | nil =>
      rw [List.nil_append, cutAt, List.suffix_nil]
      refine ⟨fun empty => by simp [empty], fun nonempty => ?_⟩
      have other : ¬ (stem ++ [equals]).isPrefixOf (equals :: value) = true := by
        intro here
        obtain ⟨tail, eq⟩ := List.isPrefixOf_iff_prefix.mp here
        cases stem with
        | nil => exact nonempty rfl
        | cons b stem => exact bare ((List.cons.inj eq).1 ▸ List.mem_cons_self)
      rw [if_neg other, Option.map_map]
      rfl
  | cons b name ih =>
      have here : (stem ++ [equals]).isPrefixOf (b :: (name ++ equals :: value)) = true ↔
          stem = b :: name := by
        rw [List.isPrefixOf_iff_prefix]
        constructor
        · rintro ⟨tail, eq⟩
          rw [List.append_assoc] at eq
          have cuts := congrArg (cut equals) eq
          change cut equals (stem ++ equals :: tail) =
            cut equals ((b :: name) ++ equals :: value) at cuts
          rw [cut_append bare, cut_append plain] at cuts
          exact (Prod.mk.inj (Option.some.inj cuts)).1
        · rintro rfl
          exact ⟨value, by simp⟩
      obtain ⟨ends, goes⟩ := ih fun member => plain (List.mem_cons_of_mem b member)
      rw [List.cons_append, cutAt, List.suffix_cons_iff]
      by_cases same : stem = b :: name
      · rw [if_pos (here.mpr same), same]
        simp
      · rw [if_neg (mt here.mp same), Option.map_map]
        exact ⟨fun suffix => ends (suffix.resolve_left same),
          fun other => goes fun suffix => other (.inr suffix)⟩

/-- Spaces before a name do not matter. -/
theorem suffix_spaces {stem : Bytes} (word : (32 : UInt8) ∉ stem) (spaces : Nat) (name : Bytes) :
    stem <:+ List.replicate spaces 32 ++ name ↔ stem <:+ name := by
  induction spaces with
  | zero => rfl
  | succ n ih =>
      rw [List.replicate_succ, List.cons_append, List.suffix_cons_iff, ih]
      constructor
      · rintro (whole | inner)
        · exact absurd (whole ▸ List.mem_cons_self) word
        · exact inner
      · exact .inr

/-- What stands in a cookie after the first `sessionId=`. -/
def Pair.shown (p : Pair) : Option Bytes := (cutAt (bytes "sessionId=") p.text).map Prod.snd

theorem Pair.shown_eq_some_iff {p : Pair} {v : Bytes} : p.shown = some v ↔ p.Shows v := by
  rw [Pair.shown, Option.map_eq_some_iff]
  constructor
  · rintro ⟨⟨l, r⟩, found, rfl⟩
    exact ⟨l, cutAt_eq_some_iff.mp found⟩
  · rintro ⟨l, first⟩
    exact ⟨(l, v), cutAt_eq_some_iff.mpr first, rfl⟩

theorem Pair.shown_eq_none_iff {p : Pair} : p.shown = none ↔ ¬ p.Mentions := by
  rw [Pair.shown, Option.map_eq_none_iff]
  exact cutAt_eq_none_iff

theorem Pair.plain (p : Pair) : equals ∉ p.name := fun member => (p.name_free _ member).1 rfl

theorem Pair.shown_own {p : Pair} (own : p.name = bytes "sessionId") : p.shown = some p.value :=
  (cutAt_name (bytes "sessionId") (by decide) p.plain p.value).1 (own ▸ List.suffix_rfl)

theorem Pair.shown_spaces (p : Pair) (spaces : Nat) :
    (cutAt (bytes "sessionId=") (List.replicate spaces 32 ++ p.text)).map Prod.snd = p.shown := by
  have plain : equals ∉ List.replicate spaces 32 ++ p.name := by
    intro member
    rcases List.mem_append.mp member with space | inner
    · exact absurd (List.eq_of_mem_replicate space) (by decide)
    · exact p.plain inner
  obtain ⟨ends, goes⟩ := cutAt_name (bytes "sessionId") (by decide) p.plain p.value
  obtain ⟨ends', goes'⟩ := cutAt_name (bytes "sessionId") (by decide) plain p.value
  rw [suffix_spaces (by decide), List.append_assoc] at ends' goes'
  by_cases suffix : bytes "sessionId" <:+ p.name
  · exact (ends' suffix).trans (ends suffix).symm
  · exact (goes' suffix).trans (goes suffix).symm

/-- What a cookie shows ends with the cookie. -/
theorem Pair.shown_free {p : Pair} {v : Bytes} (shown : p.shown = some v) : semicolon ∉ v := by
  obtain ⟨l, first⟩ := Pair.shown_eq_some_iff.mp shown
  intro member
  have inside : semicolon ∈ p.text := by
    rw [first.split]
    exact List.mem_append_right _ member
  rcases List.mem_append.mp inside with name | value
  · exact (p.name_free _ name).2.1 rfl
  · rcases List.mem_cons.mp value with same | value
    · exact absurd same (by decide)
    · exact p.value_free value

/-! ## The header -/

theorem takeWhile_semicolon {v : Bytes} (free : semicolon ∉ v) (rest : Bytes) :
    (v ++ semicolon :: rest).takeWhile (· ≠ semicolon) = v ∧
      v.takeWhile (· ≠ semicolon) = v := by
  induction v with
  | nil => simp
  | cons b v ih =>
      have other : b ≠ semicolon := fun same => free (same ▸ List.mem_cons_self)
      have inner := ih fun member => free (List.mem_cons_of_mem b member)
      simpa [other] using inner

/-- The scan answers from the first cookie that shows anything. -/
theorem getSessionIdFromCookie_eq (pairs : List (Nat × Pair)) :
    getSessionIdFromCookie (cookieHeader pairs) = (pairs.findSome? (·.2.shown)).getD [] := by
  rw [getSessionIdFromCookie, afterFirst_eq]
  induction pairs with
  | nil => rfl
  | cons q rest ih =>
      obtain ⟨spaces, p⟩ := q
      have own := p.shown_spaces spaces
      rw [List.findSome?_cons]
      cases rest with
      | nil =>
          rw [cookieHeader, own]
          cases shown : p.shown with
          | none => rfl
          | some v => exact (takeWhile_semicolon (Pair.shown_free shown) []).2
      | cons q rest =>
          rw [cookieHeader, cutAt_append_cons (by decide) (by decide)]
          cases found : cutAt (bytes "sessionId=") (List.replicate spaces 32 ++ p.text) with
          | none =>
              rw [found] at own
              change none = p.shown at own
              rw [← own]
              refine Eq.trans ?_ ih
              simp only [Option.map_map]
              rfl
          | some parts =>
              rw [found] at own
              change some parts.2 = p.shown at own
              rw [← own]
              exact (takeWhile_semicolon (Pair.shown_free own.symm) _).1

theorem Pair.mentions_own {p : Pair} (own : p.name = bytes "sessionId") : p.Mentions := by
  by_contra unmentioned
  have silent := Pair.shown_eq_none_iff.mpr unmentioned
  rw [Pair.shown_own own] at silent
  cases silent

/-- Only the first cookie that mentions `sessionId=` matters. -/
theorem findSome?_shown (pairs : List (Nat × Pair)) :
    pairs.findSome? (·.2.shown) = (pairs.find? fun q => q.2.Mentions).bind (·.2.shown) := by
  induction pairs with
  | nil => rfl
  | cons q rest ih =>
      by_cases mentioned : q.2.Mentions
      · rw [List.find?_cons_of_pos (by simpa using mentioned), List.findSome?_cons, Option.bind_some]
        cases shown : q.2.shown with
        | none => exact absurd mentioned (Pair.shown_eq_none_iff.mp shown)
        | some v => rfl
      · rw [List.find?_cons_of_neg (by simp [mentioned]), List.findSome?_cons,
          Pair.shown_eq_none_iff.mpr mentioned]
        exact ih

theorem SessionFirst.find {pairs : List (Nat × Pair)} (first : SessionFirst pairs) :
    (pairs.find? fun q => q.2.name = bytes "sessionId") = pairs.find? fun q => q.2.Mentions := by
  induction pairs with
  | nil => rfl
  | cons q rest ih =>
      by_cases mentioned : q.2.Mentions
      · have found : (q :: rest).find? (fun r => r.2.Mentions) = some q :=
          List.find?_cons_of_pos (by simpa using mentioned)
        rw [found, List.find?_cons_of_pos (by simpa using first q found)]
      · have passed : (q :: rest).find? (fun r => r.2.Mentions) = rest.find? fun r => r.2.Mentions :=
          List.find?_cons_of_neg (by simpa using mentioned)
        have other : ¬ q.2.name = bytes "sessionId" := mt Pair.mentions_own mentioned
        rw [passed, List.find?_cons_of_neg (by simpa using other)]
        exact ih fun r member => first r (passed.trans member)

theorem getSessionIdFromCookie_of_first {pairs : List (Nat × Pair)} (first : SessionFirst pairs) :
    getSessionIdFromCookie (cookieHeader pairs) = sessionCookie pairs := by
  rw [getSessionIdFromCookie_eq, findSome?_shown, sessionCookie, first.find]
  cases found : pairs.find? fun q => q.2.Mentions with
  | none => rfl
  | some q => rw [Option.bind_some, Option.map_some, Pair.shown_own (first q found)]

/-- The value is that of the cookie `sessionId` if the first cookie that mentions `sessionId=` has
that name.  Where it has another, it is taken whatever cookies follow, and so some go wrong. -/
theorem getSessionIdFromCookie_first (pairs : List (Nat × Pair)) :
    (SessionFirst pairs → getSessionIdFromCookie (cookieHeader pairs) = sessionCookie pairs) ∧
    ∀ before q after, pairs = before ++ q :: after → (∀ r ∈ before, ¬ r.2.Mentions) → q.2.Mentions →
      (q.2.name = bytes "sessionId" ↔ ∀ others,
        getSessionIdFromCookie (cookieHeader (before ++ q :: others)) =
          sessionCookie (before ++ q :: others)) := by
  refine ⟨getSessionIdFromCookie_of_first, fun before q after _ unmentioned mentioned => ?_⟩
  have passed : before.find? (fun r => r.2.Mentions) = none := by
    rw [List.find?_eq_none]
    exact fun r member => by simpa using unmentioned r member
  have found (others : List (Nat × Pair)) :
      (before ++ q :: others).find? (fun r => r.2.Mentions) = some q := by
    rw [List.find?_append, passed, Option.none_or, List.find?_cons_of_pos (by simpa using mentioned)]
  constructor
  · intro own others
    refine getSessionIdFromCookie_of_first fun r member => ?_
    rw [found] at member
    cases member
    exact own
  · intro right
    by_contra other
    cases shown : q.2.shown with
    | none => exact Pair.shown_eq_none_iff.mp shown mentioned
    | some v =>
        -- a session cookie behind it whose value is not what it shows
        have free : semicolon ∉ v ++ [97] := by
          rw [List.mem_append, not_or]
          exact ⟨Pair.shown_free shown, by decide⟩
        let own : Pair := ⟨bytes "sessionId", v ++ [97], by decide +kernel, free⟩
        have unnamed : before.find? (fun r => r.2.name = bytes "sessionId") = none := by
          rw [List.find?_eq_none]
          exact fun r member => by simpa using mt Pair.mentions_own (unmentioned r member)
        have value : sessionCookie (before ++ q :: [(0, own)]) = v ++ [97] := by
          rw [sessionCookie, List.find?_append, unnamed, Option.none_or,
            List.find?_cons_of_neg (by simpa using other), List.find?_cons_of_pos (by simp [own])]
          rfl
        have taken := right [(0, own)]
        rw [value, getSessionIdFromCookie_eq, findSome?_shown, found, Option.bind_some, shown] at taken
        have lengths := congrArg List.length taken
        simp at lengths

/-- `xsessionId=a; sessionId=b` is taken for `a`. -/
theorem getSessionIdFromCookie_longer_name :
    ∃ pairs, cookieHeader pairs = bytes "xsessionId=a; sessionId=b" ∧
      sessionCookie pairs = bytes "b" ∧
        getSessionIdFromCookie (cookieHeader pairs) = bytes "a" :=
  ⟨[(0, ⟨bytes "xsessionId", bytes "a", by decide +kernel, by decide⟩),
    (1, ⟨bytes "sessionId", bytes "b", by decide +kernel, by decide⟩)], by decide, by decide, by decide⟩

end AIService.Sessions
