import AIService.Data.JsonText

/-!
# The values within a value

`Json.Within` is a JSON value or one that lies in it.  What a codec promises of the strings it reads, it
promises at every depth (`JsonCodec.ReadsDeep`), and the text form does.
-/

namespace AIService

/-- `v` is the value, or lies in it. -/
inductive Json.Within (v : Json) : Json → Prop
  | self : Within v v
  | item {items : List Json} {j : Json} : j ∈ items → Within v j → Within v (.arr items)
  | member {fields : List (Bytes × Json)} {f : Bytes × Json} : f ∈ fields → Within v f.2 →
    Within v (.obj fields)

/-- Every string that is read is UTF-8, and every integer in range. -/
def JsonCodec.ReadsDeep (codec : JsonCodec) : Prop :=
  ∀ text j v, codec.parse text = some j → Json.Within v j → v.Readable

namespace Json.Within

variable {u v j : Json} {key : Bytes}

protected theorem trans (inner : Within u v) (outer : Within v j) : Within u j := by
  induction outer with
  | self => exact inner
  | item member _ ih => exact .item member ih
  | member member _ ih => exact .member member ih

theorem field (found : j.field? key = some v) : Within v j := by
  obtain ⟨fields, rfl, f, member, rfl⟩ := mem_of_field? found
  exact .member member .self

theorem first {rest : List Json} : Within v (.arr (v :: rest)) := .item List.mem_cons_self .self

theorem string {s : Bytes} (found : v.string? = some s) : v = .str s := by
  cases v with
  | str t =>
      cases found
      rfl
  | _ => cases found

end Json.Within

/-- A string that lies in what was read is UTF-8. -/
theorem JsonCodec.ReadsDeep.valid {codec : JsonCodec} (deep : codec.ReadsDeep) {text s : Bytes} {j : Json}
    (parsed : codec.parse text = some j) (within : Json.Within (.str s) j) : ValidUtf8 s :=
  deep text j (.str s) parsed within

section text

variable {fuel : Nat} {text rest : Bytes}

/-- An array and an object are empty or read part by part. -/
theorem parts_of_readJson {j : Json} (read : readJson (fuel + 1) text = some (j, rest)) :
    (∀ items, j = .arr items → items = [] ∨ ∃ more rest', readItems fuel more = some (items, rest')) ∧
    ∀ fields, j = .obj fields → fields = [] ∨ ∃ members more rest',
      readMembers fuel more = some (members, rest') ∧ fields = gathered members := by
  unfold readJson at read
  split at read
  case h_4 =>
    obtain ⟨⟨s, rest⟩, -, checked⟩ := Option.bind_eq_some_iff.mp read
    dsimp only at checked
    split at checked
    · cases checked
      constructor <;> (intro _ same; cases same)
    · cases checked
  case h_5 =>
    cases read
    exact ⟨fun _ same => .inl (Json.arr.inj same).symm, fun _ same => by cases same⟩
  case h_6 =>
    obtain ⟨⟨_, _⟩, there, eq⟩ := Option.map_eq_some_iff.mp read
    cases eq
    refine ⟨fun items same => .inr ?_, fun _ same => by cases same⟩
    cases same
    exact ⟨_, _, there⟩
  case h_7 =>
    cases read
    exact ⟨fun _ same => (by cases same), fun _ same => .inl (Json.obj.inj same).symm⟩
  case h_8 =>
    obtain ⟨⟨_, _⟩, there, eq⟩ := Option.map_eq_some_iff.mp read
    cases eq
    refine ⟨fun _ same => (by cases same), fun fields same => .inr ?_⟩
    cases same
    exact ⟨_, _, _, there, rfl⟩
  case h_9 =>
    obtain ⟨n, rfl, -⟩ := int_of_readInt read
    constructor <;> (intro _ same; cases same)
  all_goals
    cases read
    constructor <;> (intro _ same; cases same)

/-- An item was read as a value. -/
theorem read_of_readItems {items : List Json} (read : readItems fuel text = some (items, rest)) :
    ∀ j ∈ items, ∃ less more rest', readJson less more = some (j, rest') := by
  induction fuel generalizing text items with
  | zero => cases read
  | succ fuel ih =>
      unfold readItems at read
      obtain ⟨⟨j, rest⟩, value, more⟩ := Option.bind_eq_some_iff.mp read
      dsimp only at more
      have own : ∃ less more rest', readJson less more = some (j, rest') := ⟨fuel, _, _, value⟩
      split at more
      · obtain ⟨⟨later, _⟩, there, eq⟩ := Option.map_eq_some_iff.mp more
        cases eq
        intro i member
        rcases List.mem_cons.mp member with rfl | member
        · exact own
        · exact ih there i member
      · cases more
        intro i member
        rw [List.mem_singleton.mp member]
        exact own
      · cases more

theorem read_of_readMembers {fields : List (Bytes × Json)}
    (read : readMembers fuel text = some (fields, rest)) :
    ∀ f ∈ fields, ∃ less more rest', readJson less more = some (f.2, rest') := by
  induction fuel generalizing text fields with
  | zero => cases read
  | succ fuel ih =>
      unfold readMembers at read
      split at read
      case h_2 => cases read
      obtain ⟨⟨key, rest⟩, -, more⟩ := Option.bind_eq_some_iff.mp read
      dsimp only at more
      split at more
      case h_2 => cases more
      obtain ⟨⟨j, rest⟩, value, more⟩ := Option.bind_eq_some_iff.mp more
      dsimp only at more
      have own : ∃ less more rest', readJson less more = some (j, rest') := ⟨fuel, _, _, value⟩
      split at more
      · obtain ⟨⟨later, _⟩, there, eq⟩ := Option.map_eq_some_iff.mp more
        cases eq
        intro f member
        rcases List.mem_cons.mp member with rfl | member
        · exact own
        · exact ih there f member
      · cases more
        intro f member
        rw [List.mem_singleton.mp member]
        exact own
      · cases more

/-- Whatever lies in a value that was read was read as a value. -/
theorem read_of_within {v j : Json} (within : Json.Within v j) (read : readJson fuel text = some (j, rest)) :
    ∃ less more rest', readJson less more = some (v, rest') := by
  induction within generalizing fuel text rest with
  | self => exact ⟨fuel, text, rest, read⟩
  | item member _ ih =>
      cases fuel with
      | zero => cases read
      | succ fuel =>
          rcases (parts_of_readJson read).1 _ rfl with rfl | ⟨more, rest', items⟩
          · cases member
          · obtain ⟨_, _, _, value⟩ := read_of_readItems items _ member
            exact ih value
  | member member _ ih =>
      cases fuel with
      | zero => cases read
      | succ fuel =>
          rcases (parts_of_readJson read).2 _ rfl with rfl | ⟨members, more, rest', there, rfl⟩
          · cases member
          · obtain ⟨_, _, _, value⟩ := read_of_readMembers there _ (mem_of_gathered member)
            exact ih value

theorem textCodec_readsDeep : textCodec.ReadsDeep := by
  intro text j v parsed within
  dsimp only [textCodec] at parsed
  split at parsed
  · next read =>
      cases parsed
      obtain ⟨_, _, _, value⟩ := read_of_within within read
      exact readable_of_readJson value
  · cases parsed

end text

end AIService
