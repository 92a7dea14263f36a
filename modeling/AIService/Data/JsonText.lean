import AIService.Data.Decimal
import AIService.Data.Utf8

/-!
# JSON text

`JsonCodec.Faithful` is what the sources rely on where they write and read JSON: strings are
UTF-8, integers are those of the signed and the unsigned 64-bit types, objects list their members
by key, and a text has no raw newline.  `textCodec` is such a codec for all values but floats, in
the compact form the library writes.
-/

namespace AIService

/-- The values of `int64_t` and of `uint64_t`. -/
def InJsonRange (n : Int) : Prop := -9223372036854775808 ≤ n ∧ n ≤ 18446744073709551615

instance (n : Int) : Decidable (InJsonRange n) := inferInstanceAs (Decidable (_ ∧ _))

/-- The keys of a `std::map` increase. -/
def ByKey (fields : List (Bytes × Json)) : Prop := fields.Pairwise fun f g => f.1 < g.1

instance (fields : List (Bytes × Json)) : Decidable (ByKey fields) :=
  inferInstanceAs (Decidable (fields.Pairwise _))

/-- `dump()` does not throw on the value, which has no floats. -/
inductive Json.Writable : Json → Prop
  | null : Writable .null
  | bool (value : Bool) : Writable (.bool value)
  | int {n : Int} : InJsonRange n → Writable (.int n)
  | str {s : Bytes} : ValidUtf8 s → Writable (.str s)
  | arr {items : List Json} : (∀ j ∈ items, Writable j) → Writable (.arr items)
  | obj {fields : List (Bytes × Json)} : ByKey fields → (∀ f ∈ fields, ValidUtf8 f.1) →
    (∀ f ∈ fields, Writable f.2) → Writable (.obj fields)

/-- A string or an integer that `json::parse` may give. -/
def Json.Readable : Json → Prop
  | .str s => ValidUtf8 s
  | .int n => InJsonRange n
  | _ => True

structure JsonCodec.Faithful (codec : JsonCodec) : Prop extends codec.Lawful where
  dump_writable {j : Json} : j.Writable → ∃ text, codec.dump j = some text
  dump_text {j : Json} {text : Bytes} : codec.dump j = some text → ValidUtf8 text ∧ (10 : UInt8) ∉ text
  dump_obj {fields : List (Bytes × Json)} {text : Bytes} :
    codec.dump (.obj fields) = some text → ∃ rest, text = 123 :: rest
  parse_readable {text : Bytes} {j : Json} {key : Bytes} {v : Json} :
    codec.parse text = some j → j.field? key = some v → v.Readable

theorem Json.byKey_object (fields : List (Bytes × Json)) :
    ByKey (fields.foldr (fun f rest => SortedMap.place f.1 f.2 rest) []) := by
  induction fields with
  | nil => exact .nil
  | cons f rest ih => exact SortedMap.place_sorted ih

theorem Json.mem_object {fields : List (Bytes × Json)} {f : Bytes × Json}
    (member : f ∈ fields.foldr (fun f rest => SortedMap.place f.1 f.2 rest) []) : f ∈ fields := by
  induction fields with
  | nil => exact member
  | cons head rest ih =>
      rcases SortedMap.mem_place member with rfl | old
      · exact List.mem_cons_self
      · exact List.mem_cons_of_mem head (ih old)

theorem Json.writable_object {fields : List (Bytes × Json)} (names : ∀ f ∈ fields, ValidUtf8 f.1)
    (values : ∀ f ∈ fields, f.2.Writable) : (Json.object fields).Writable :=
  .obj (byKey_object fields) (fun f member => names f (mem_object member))
    fun f member => values f (mem_object member)

/-! ## Strings -/

/-- The letter of a two-byte escape. -/
def escapeLetter (b : UInt8) : Option UInt8 :=
  if b = 34 ∨ b = 92 then some b
  else if b = 8 then some 98
  else if b = 9 then some 116
  else if b = 10 then some 110
  else if b = 12 then some 102
  else if b = 13 then some 114
  else none

def unescapeLetter (letter : UInt8) : Option UInt8 :=
  if letter = 34 ∨ letter = 92 ∨ letter = 47 then some letter
  else if letter = 98 then some 8
  else if letter = 116 then some 9
  else if letter = 110 then some 10
  else if letter = 102 then some 12
  else if letter = 114 then some 13
  else none

def nibbleLetter (n : UInt8) : UInt8 := if n < 10 then 48 + n else 87 + n

def nibbleValue (letter : UInt8) : Option UInt8 :=
  if 48 ≤ letter ∧ letter ≤ 57 then some (letter - 48)
  else if 97 ≤ letter ∧ letter ≤ 102 then some (letter - 87)
  else none

def escapeByte (b : UInt8) : Bytes :=
  match escapeLetter b with
  | some letter => [92, letter]
  | none =>
      if b < 32 then [92, 117, 48, 48, nibbleLetter (b / 16), nibbleLetter (b % 16)] else [b]

def writeString (s : Bytes) : Option Bytes :=
  if ValidUtf8 s then some (34 :: (s.flatMap escapeByte ++ [34])) else none

/-- The rest of a string, after its first quote. -/
def readString : Bytes → Option (Bytes × Bytes)
  | [] => none
  | b :: rest =>
      if b = 34 then some ([], rest)
      else if b = 92 then
        match rest with
        | 117 :: 48 :: 48 :: high :: low :: rest =>
            (nibbleValue high).bind fun high => (nibbleValue low).bind fun low =>
              (readString rest).map fun (s, rest) => ((high * 16 + low) :: s, rest)
        | letter :: rest =>
            (unescapeLetter letter).bind fun b => (readString rest).map fun (s, rest) => (b :: s, rest)
        | [] => none
      else if b < 32 then none
      else (readString rest).map fun (s, rest) => (b :: s, rest)

theorem escapeLetter_spec : ∀ b : UInt8, ∀ letter ∈ escapeLetter b,
    letter ≠ 117 ∧ unescapeLetter letter = some b ∧ letter ≠ 10 ∧ letter < 128 :=
  forall_byte (by decide +kernel)

theorem control_spec : ∀ b : UInt8, b < 32 →
    nibbleValue (nibbleLetter (b / 16)) = some (b / 16) ∧
      nibbleValue (nibbleLetter (b % 16)) = some (b % 16) ∧ b / 16 * 16 + b % 16 = b :=
  forall_byte (by decide +kernel)

theorem escapeLetter_none : ∀ b : UInt8, escapeLetter b = none → b ≠ 34 ∧ b ≠ 92 :=
  forall_byte (by decide +kernel)

/-- An escaped byte is read back. -/
theorem readString_escapeByte (b : UInt8) (rest : Bytes) :
    readString (escapeByte b ++ rest) = (readString rest).map fun (s, rest) => (b :: s, rest) := by
  unfold escapeByte
  split
  · next letter escaped =>
      obtain ⟨other, back, -⟩ := escapeLetter_spec b letter escaped
      change readString (92 :: letter :: rest) = _
      rw [readString.eq_def]
      dsimp only
      rw [if_neg (by decide), if_pos rfl]
      split
      · next eq =>
          cases eq
          exact absurd rfl other
      · next eq =>
          cases eq
          rw [back, Option.bind_some]
      · next eq => cases eq
  · next plain =>
      obtain ⟨quote, slash⟩ := escapeLetter_none b plain
      split
      · next control =>
          obtain ⟨high, low, whole⟩ := control_spec b control
          change readString (92 :: 117 :: 48 :: 48 :: nibbleLetter (b / 16) ::
            nibbleLetter (b % 16) :: rest) = _
          rw [readString.eq_def]
          dsimp only
          rw [if_neg (by decide), if_pos rfl]
          simp only [high, low, Option.bind_some, whole]
      · next printable =>
          change readString (b :: rest) = _
          rw [readString.eq_def]
          dsimp only
          rw [if_neg quote, if_neg slash, if_neg printable]

theorem readString_writeString (s rest : Bytes) :
    readString (s.flatMap escapeByte ++ 34 :: rest) = some (s, rest) := by
  induction s with
  | nil =>
      change readString (34 :: rest) = _
      rw [readString.eq_def]
      exact if_pos rfl
  | cons b s ih =>
      rw [List.flatMap_cons, List.append_assoc, readString_escapeByte, ih]
      rfl

/-! ## Values -/

def writeInt (n : Int) : Option Bytes := if InJsonRange n then some (decimal n) else none

mutual

def write : Json → Option Bytes
  | .null => some (bytes "null")
  | .bool true => some (bytes "true")
  | .bool false => some (bytes "false")
  | .int n => writeInt n
  | .float _ => none
  | .str s => writeString s
  | .arr items => (writeItems items).map fun text => 91 :: (text ++ [93])
  | .obj fields =>
      if ByKey fields then (writeMembers fields).map fun text => 123 :: (text ++ [125]) else none

def writeItems : List Json → Option Bytes
  | [] => some []
  | j :: rest =>
      (write j).bind fun text => (writeItems rest).map fun more =>
        if rest.isEmpty then text else text ++ 44 :: more

def writeMembers : List (Bytes × Json) → Option Bytes
  | [] => some []
  | (key, j) :: rest =>
      (writeString key).bind fun name => (write j).bind fun text =>
        (writeMembers rest).map fun more =>
          if rest.isEmpty then name ++ 58 :: text else name ++ 58 :: (text ++ 44 :: more)

end

/-- The map that the members of a text give, the last one of a key. -/
def gathered (members : List (Bytes × Json)) : List (Bytes × Json) :=
  members.foldl (fun fields f => SortedMap.place f.1 f.2 fields) []

def readInt (text : Bytes) : Option (Json × Bytes) :=
  let (negative, text) := match text with
    | 45 :: rest => (true, rest)
    | _ => (false, text)
  let row := text.takeWhile isDigit
  let n : Int := if negative then -digitsValue row else digitsValue row
  if row ≠ [] ∧ InJsonRange n then some (.int n, text.dropWhile isDigit) else none

mutual

/-- The value at the start of a text; `none` also when it is nested deeper than `fuel`. -/
def readJson : Nat → Bytes → Option (Json × Bytes)
  | 0, _ => none
  | fuel + 1, text =>
      match text with
      | 110 :: 117 :: 108 :: 108 :: rest => some (.null, rest)
      | 116 :: 114 :: 117 :: 101 :: rest => some (.bool true, rest)
      | 102 :: 97 :: 108 :: 115 :: 101 :: rest => some (.bool false, rest)
      | 34 :: rest =>
          (readString rest).bind fun (s, rest) => if ValidUtf8 s then some (.str s, rest) else none
      | 91 :: 93 :: rest => some (.arr [], rest)
      | 91 :: rest => (readItems fuel rest).map fun (items, rest) => (.arr items, rest)
      | 123 :: 125 :: rest => some (.obj [], rest)
      | 123 :: rest => (readMembers fuel rest).map fun (members, rest) => (.obj (gathered members), rest)
      | _ => readInt text

def readItems : Nat → Bytes → Option (List Json × Bytes)
  | 0, _ => none
  | fuel + 1, text =>
      (readJson fuel text).bind fun (j, rest) =>
        match rest with
        | 44 :: rest => (readItems fuel rest).map fun (items, rest) => (j :: items, rest)
        | 93 :: rest => some ([j], rest)
        | _ => none

def readMembers : Nat → Bytes → Option (List (Bytes × Json) × Bytes)
  | 0, _ => none
  | fuel + 1, text =>
      match text with
      | 34 :: rest =>
          (readString rest).bind fun (key, rest) =>
            match rest with
            | 58 :: rest =>
                (readJson fuel rest).bind fun (j, rest) =>
                  match rest with
                  | 44 :: rest =>
                      (readMembers fuel rest).map fun (fields, rest) => ((key, j) :: fields, rest)
                  | 125 :: rest => some ([(key, j)], rest)
                  | _ => none
            | _ => none
      | _ => none

end

def textCodec : JsonCodec where
  dump := write
  parse text :=
    match readJson (text.length + 1) text with
    | some (j, []) => some j
    | _ => none

/-! ## The members of an object -/

theorem foldl_place {before fields : List (Bytes × Json)} (sorted : ByKey (before ++ fields)) :
    fields.foldl (fun fields f => SortedMap.place f.1 f.2 fields) before = before ++ fields := by
  induction fields generalizing before with
  | nil => exact (List.append_nil before).symm
  | cons f rest ih =>
      have below : ∀ g ∈ before, g.1 < f.1 := fun g member =>
        (List.pairwise_append.mp sorted).2.2 g member f List.mem_cons_self
      rw [List.append_cons] at sorted
      rw [List.foldl_cons, SortedMap.place_last below, List.append_cons before f rest]
      exact ih sorted

/-- Members that are written by key are gathered as they stand. -/
theorem gathered_of_byKey {fields : List (Bytes × Json)} (sorted : ByKey fields) :
    gathered fields = fields := by
  have start : ByKey ([] ++ fields) := sorted
  exact foldl_place start

theorem mem_of_foldl {members before : List (Bytes × Json)} {f : Bytes × Json}
    (member : f ∈ members.foldl (fun fields f => SortedMap.place f.1 f.2 fields) before) :
    f ∈ before ∨ f ∈ members := by
  induction members generalizing before with
  | nil => exact .inl member
  | cons g rest ih =>
      rw [List.foldl_cons] at member
      rcases ih member with early | late
      · rcases SortedMap.mem_place early with rfl | old
        · exact .inr List.mem_cons_self
        · exact .inl old
      · exact .inr (List.mem_cons_of_mem g late)

theorem mem_of_gathered {members : List (Bytes × Json)} {f : Bytes × Json}
    (member : f ∈ gathered members) : f ∈ members :=
  (mem_of_foldl member).resolve_left List.not_mem_nil

theorem write_obj {fields : List (Bytes × Json)} {text : Bytes} (written : write (.obj fields) = some text) :
    ByKey fields ∧ ∃ inner, writeMembers fields = some inner ∧ text = 123 :: (inner ++ [125]) := by
  rw [write] at written
  split at written
  · next sorted =>
      obtain ⟨inner, wrote, rfl⟩ := Option.map_eq_some_iff.mp written
      exact ⟨sorted, inner, wrote, rfl⟩
  · cases written

/-! ## What is written is read back -/

/-- A number that stands before `rest` ends there. -/
def EndsNumber (rest : Bytes) : Prop := ∀ b more, rest = b :: more → isDigit b = false

theorem endsNumber_cons {b : UInt8} (stop : isDigit b = false) (rest : Bytes) :
    EndsNumber (b :: rest) := by
  rintro _ _ ⟨⟩
  exact stop

theorem digits_then {n : Nat} {rest : Bytes} (ends : EndsNumber rest) :
    (digits n ++ rest).takeWhile isDigit = digits n ∧ (digits n ++ rest).dropWhile isDigit = rest := by
  cases rest with
  | nil =>
      have rows : ∀ b ∈ digits n, isDigit b = true := by
        intro b member
        obtain ⟨low, high⟩ := (digits_spec n).2.1 b member
        simp [isDigit, low, high]
      rw [List.append_nil]
      exact ⟨List.takeWhile_eq_self_iff.mpr rows, List.dropWhile_eq_nil_iff.mpr rows⟩
  | cons b rest => exact takeWhile_digits n (ends b rest rfl) rest

/-- A value that starts like no other is a number. -/
theorem readJson_number {b : UInt8} {fuel : Nat} {rest : Bytes}
    (plain : b ≠ 110 ∧ b ≠ 116 ∧ b ≠ 102 ∧ b ≠ 34 ∧ b ≠ 91 ∧ b ≠ 123) :
    readJson (fuel + 1) (b :: rest) = readInt (b :: rest) := by
  obtain ⟨n, t, f, q, a, o⟩ := plain
  unfold readJson
  split
  case h_9 => rfl
  all_goals
    next eq =>
      obtain ⟨rfl, -⟩ := List.cons.inj eq
      contradiction

theorem digit_plain {b : UInt8} (digit : isDigit b = true) :
    b ≠ 110 ∧ b ≠ 116 ∧ b ≠ 102 ∧ b ≠ 34 ∧ b ≠ 91 ∧ b ≠ 123 ∧ b ≠ 45 ∧ b ≠ 93 := by
  refine ⟨?_, ?_, ?_, ?_, ?_, ?_, ?_, ?_⟩ <;> rintro rfl <;> cases digit

theorem readJson_writeInt {n : Int} {text : Bytes} (written : writeInt n = some text) {fuel : Nat}
    {rest : Bytes} (ends : EndsNumber rest) :
    readJson (fuel + 1) (text ++ rest) = some (.int n, rest) := by
  rw [writeInt] at written
  split at written
  case isFalse => cases written
  next range =>
  cases written
  obtain ⟨taken, left⟩ := digits_then (n := n.natAbs) ends
  obtain ⟨nonempty, -, value⟩ := digits_spec n.natAbs
  rw [decimal]
  split
  · next negative =>
      have back : -(n.natAbs : Int) = n := by omega
      change readJson (fuel + 1) (45 :: (digits n.natAbs ++ rest)) = _
      rw [readJson_number (by decide), readInt]
      simp only [taken, left, value, if_true, back]
      exact if_pos ⟨nonempty, range⟩
  · next positive =>
      have back : (n.natAbs : Int) = n := by omega
      obtain ⟨b, more, split⟩ := List.exists_cons_of_ne_nil nonempty
      have digit : isDigit b = true := 
        head_digit (by rw [split]; rfl : digits n.natAbs ++ [] = b :: (more ++ []))
      obtain ⟨p₁, p₂, p₃, p₄, p₅, p₆, minus, -⟩ := digit_plain digit
      rw [split] at taken left nonempty value ⊢
      rw [List.cons_append] at taken left ⊢
      rw [readJson_number ⟨p₁, p₂, p₃, p₄, p₅, p₆⟩, readInt]
      · simp only [taken, left, value, Bool.false_eq_true, if_false, back]
        exact if_pos ⟨nonempty, range⟩
      · intro tail eq
        exact minus (List.cons.inj eq).1

/-- No value starts with a closing bracket. -/
theorem write_head {j : Json} {text : Bytes} (written : write j = some text) :
    ∃ b more, text = b :: more ∧ b ≠ 93 := by
  cases j with
  | null =>
      rw [write] at written
      cases written
      exact ⟨110, _, rfl, by decide⟩
  | bool b =>
      cases b <;> rw [write] at written <;> cases written <;> exact ⟨_, _, rfl, by decide⟩
  | int n =>
      rw [write, writeInt] at written
      split at written
      case isFalse => cases written
      cases written
      rw [decimal]
      split
      · exact ⟨45, _, rfl, by decide⟩
      · obtain ⟨b, more, split⟩ := List.exists_cons_of_ne_nil (digits_spec n.natAbs).1
        have digit : isDigit b = true :=
          head_digit (by rw [split]; rfl : digits n.natAbs ++ [] = b :: (more ++ []))
        exact ⟨b, more, split, (digit_plain digit).2.2.2.2.2.2.2⟩
  | float q =>
      rw [write] at written
      cases written
  | str s =>
      rw [write, writeString] at written
      split at written
      · cases written
        exact ⟨34, _, rfl, by decide⟩
      · cases written
  | arr items =>
      rw [write] at written
      obtain ⟨more, -, rfl⟩ := Option.map_eq_some_iff.mp written
      exact ⟨91, _, rfl, by decide⟩
  | obj fields =>
      obtain ⟨-, more, -, rfl⟩ := write_obj written
      exact ⟨123, _, rfl, by decide⟩

theorem readJson_items {b : UInt8} (other : b ≠ 93) (fuel : Nat) (tail : Bytes) :
    readJson (fuel + 1) (91 :: b :: tail) =
      (readItems fuel (b :: tail)).map fun (items, rest) => (.arr items, rest) := by
  unfold readJson
  split
  case h_6 eq =>
      obtain ⟨-, rfl⟩ := List.cons.inj eq
      rfl
  all_goals
    next eq =>
      try simp only [List.cons.injEq] at eq
      first | exact absurd eq.2.1 other | simp_all

theorem writeMembers_head {fields : List (Bytes × Json)} {text : Bytes} (nonempty : fields ≠ [])
    (written : writeMembers fields = some text) : ∃ more, text = 34 :: more := by
  match fields, nonempty, written with
  | (key, j) :: rest, _, written =>
      rw [writeMembers] at written
      obtain ⟨name, named, wrote⟩ := Option.bind_eq_some_iff.mp written
      obtain ⟨first, here, wrote⟩ := Option.bind_eq_some_iff.mp wrote
      obtain ⟨later, -, rfl⟩ := Option.map_eq_some_iff.mp wrote
      rw [writeString] at named
      split at named
      · cases named
        split <;> exact ⟨_, rfl⟩
      · cases named

/-- The name of a member, and its colon. -/
theorem readMembers_name {key name : Bytes} (named : writeString key = some name) (fuel : Nat)
    (tail : Bytes) :
    readMembers (fuel + 1) (name ++ 58 :: tail) =
      (readJson fuel tail).bind fun (j, rest) =>
        match rest with
        | 44 :: rest =>
            (readMembers fuel rest).map fun (fields, rest) => ((key, j) :: fields, rest)
        | 125 :: rest => some ([(key, j)], rest)
        | _ => none := by
  rw [writeString] at named
  split at named
  case isFalse => cases named
  cases named
  rw [List.cons_append, List.append_assoc, List.singleton_append, readMembers,
    readString_writeString, Option.bind_some]
  rfl

mutual

theorem readJson_write {j : Json} {text : Bytes} (written : write j = some text) {fuel : Nat}
    (enough : text.length < fuel) {rest : Bytes} (ends : EndsNumber rest) :
    readJson fuel (text ++ rest) = some (j, rest) := by
  obtain ⟨fuel, rfl⟩ : ∃ n, fuel = n + 1 := ⟨fuel - 1, by omega⟩
  match j, written with
  | .null, written =>
      rw [write] at written
      cases written
      rfl
  | .bool true, written =>
      rw [write] at written
      cases written
      rfl
  | .bool false, written =>
      rw [write] at written
      cases written
      rfl
  | .int n, written =>
      rw [write] at written
      exact readJson_writeInt written ends
  | .float q, written =>
      rw [write] at written
      cases written
  | .str s, written =>
      rw [write, writeString] at written
      split at written
      case isFalse => cases written
      next valid =>
      cases written
      rw [List.cons_append, List.append_assoc, List.singleton_append]
      change ((readString (s.flatMap escapeByte ++ 34 :: rest)).bind _) = _
      rw [readString_writeString, Option.bind_some]
      exact if_pos valid
  | .arr [], written =>
      rw [write, writeItems] at written
      cases written
      rfl
  | .arr (first :: items), written =>
      rw [write] at written
      obtain ⟨inner, wrote, rfl⟩ := Option.map_eq_some_iff.mp written
      have room : inner.length + 1 < fuel := by
        simp at enough
        omega
      have read : readItems fuel (inner ++ 93 :: rest) = some (first :: items, rest) :=
        readItems_writeItems (List.cons_ne_nil first items) wrote room
      rw [writeItems] at wrote
      obtain ⟨text, here, wrote⟩ := Option.bind_eq_some_iff.mp wrote
      obtain ⟨later, -, rfl⟩ := Option.map_eq_some_iff.mp wrote
      obtain ⟨b, tail, rfl, other⟩ := write_head here
      have starts : ∃ more, (if items.isEmpty then b :: tail else b :: tail ++ 44 :: later) = b :: more := by
        split <;> exact ⟨_, rfl⟩
      obtain ⟨more, eq⟩ := starts
      rw [eq] at read ⊢
      rw [List.cons_append, List.append_assoc, List.singleton_append]
      rw [List.cons_append] at read ⊢
      rw [readJson_items other, read]
      rfl
  | .obj [], written =>
      obtain ⟨-, inner, wrote, rfl⟩ := write_obj written
      rw [writeMembers] at wrote
      cases wrote
      rfl
  | .obj (first :: fields), written =>
      obtain ⟨sorted, inner, wrote, rfl⟩ := write_obj written
      have room : inner.length + 1 < fuel := by
        simp at enough
        omega
      have read : readMembers fuel (inner ++ 125 :: rest) = some (first :: fields, rest) :=
        readMembers_writeMembers (List.cons_ne_nil first fields) wrote room
      obtain ⟨more, rfl⟩ := writeMembers_head (List.cons_ne_nil first fields) wrote
      rw [List.cons_append, List.append_assoc, List.singleton_append]
      change Option.map _ (readMembers fuel (34 :: more ++ 125 :: rest)) = _
      rw [read, Option.map_some]
      dsimp only
      rw [gathered_of_byKey sorted]

theorem readItems_writeItems {items : List Json} {text : Bytes} (nonempty : items ≠ [])
    (written : writeItems items = some text) {fuel : Nat} {rest : Bytes}
    (enough : text.length + 1 < fuel) :
    readItems fuel (text ++ 93 :: rest) = some (items, rest) := by
  obtain ⟨fuel, rfl⟩ : ∃ n, fuel = n + 1 := ⟨fuel - 1, by omega⟩
  match items, nonempty, written with
  | [j], _, written =>
      rw [writeItems, writeItems] at written
      obtain ⟨first, here, wrote⟩ := Option.bind_eq_some_iff.mp written
      have eq : first = text := Option.some.inj wrote
      subst eq
      have read : readJson fuel (first ++ 93 :: rest) = some (j, 93 :: rest) :=
        readJson_write here (by omega) (endsNumber_cons rfl rest)
      rw [readItems, read, Option.bind_some]
      rfl
  | j :: next :: more, _, written =>
      rw [writeItems] at written
      obtain ⟨first, here, wrote⟩ := Option.bind_eq_some_iff.mp written
      obtain ⟨later, there, eq⟩ := Option.map_eq_some_iff.mp wrote
      change first ++ 44 :: later = text at eq
      subst eq
      rw [List.length_append, List.length_cons] at enough
      have read : readJson fuel (first ++ 44 :: (later ++ 93 :: rest)) =
          some (j, 44 :: (later ++ 93 :: rest)) :=
        readJson_write here (by omega) (endsNumber_cons rfl _)
      have readMore : readItems fuel (later ++ 93 :: rest) = some (next :: more, rest) :=
        readItems_writeItems (List.cons_ne_nil next more) there (by omega)
      rw [List.append_assoc, List.cons_append, readItems, read, Option.bind_some]
      change Option.map _ (readItems fuel (later ++ 93 :: rest)) = _
      rw [readMore]
      rfl

theorem readMembers_writeMembers {fields : List (Bytes × Json)} {text : Bytes}
    (nonempty : fields ≠ []) (written : writeMembers fields = some text) {fuel : Nat} {rest : Bytes}
    (enough : text.length + 1 < fuel) :
    readMembers fuel (text ++ 125 :: rest) = some (fields, rest) := by
  obtain ⟨fuel, rfl⟩ : ∃ n, fuel = n + 1 := ⟨fuel - 1, by omega⟩
  match fields, nonempty, written with
  | [(key, j)], _, written =>
      rw [writeMembers, writeMembers] at written
      obtain ⟨name, named, wrote⟩ := Option.bind_eq_some_iff.mp written
      obtain ⟨first, here, wrote⟩ := Option.bind_eq_some_iff.mp wrote
      have eq : name ++ 58 :: first = text := Option.some.inj wrote
      subst eq
      rw [List.length_append, List.length_cons] at enough
      have read : readJson fuel (first ++ 125 :: rest) = some (j, 125 :: rest) :=
        readJson_write here (by omega) (endsNumber_cons rfl rest)
      rw [List.append_assoc, List.cons_append, readMembers_name named, read, Option.bind_some]
      rfl
  | (key, j) :: next :: more, _, written =>
      rw [writeMembers] at written
      obtain ⟨name, named, wrote⟩ := Option.bind_eq_some_iff.mp written
      obtain ⟨first, here, wrote⟩ := Option.bind_eq_some_iff.mp wrote
      obtain ⟨later, there, eq⟩ := Option.map_eq_some_iff.mp wrote
      change name ++ 58 :: (first ++ 44 :: later) = text at eq
      subst eq
      rw [List.length_append, List.length_cons, List.length_append, List.length_cons] at enough
      have read : readJson fuel (first ++ 44 :: (later ++ 125 :: rest)) =
          some (j, 44 :: (later ++ 125 :: rest)) :=
        readJson_write here (by omega) (endsNumber_cons rfl _)
      have readMore : readMembers fuel (later ++ 125 :: rest) = some (next :: more, rest) :=
        readMembers_writeMembers (List.cons_ne_nil next more) there (by omega)
      rw [List.append_assoc, List.cons_append, List.append_assoc, List.cons_append,
        readMembers_name named, read, Option.bind_some]
      change Option.map _ (readMembers fuel (later ++ 125 :: rest)) = _
      rw [readMore]
      rfl

end

/-! ## What is written is one line of UTF-8 -/

/-- Valid UTF-8 with no newline. -/
def IsLine (text : Bytes) : Prop := ValidUtf8 text ∧ (10 : UInt8) ∉ text

theorem IsLine.append {text text' : Bytes} (line : IsLine text) (line' : IsLine text') :
    IsLine (text ++ text') :=
  ⟨line.1.append line'.1, fun member => (List.mem_append.mp member).elim line.2 line'.2⟩

theorem isLine_of_ascii {text : Bytes} (ascii : ∀ b ∈ text, b < 128 ∧ b ≠ 10) : IsLine text :=
  ⟨validUtf8_of_ascii fun b member => (ascii b member).1, fun member => (ascii 10 member).2 rfl⟩

theorem IsLine.cons {b : UInt8} {text : Bytes} (line : IsLine text) (ascii : b < 128 ∧ b ≠ 10) :
    IsLine (b :: text) :=
  (isLine_of_ascii fun _ member => (List.mem_singleton.mp member) ▸ ascii).append line

theorem escapeByte_spec : ∀ b : UInt8, (10 : UInt8) ∉ escapeByte b ∧
    (b < 128 → ∀ c ∈ escapeByte b, c < 128) ∧ (128 ≤ b.toNat → escapeByte b = [b]) :=
  forall_byte (by decide +kernel)

/-- Only an ASCII character has a byte below 128. -/
theorem utf8EncodeChar_cases (c : Char) :
    (∃ b, b < 128 ∧ String.utf8EncodeChar c = [b]) ∨
      ∀ b ∈ String.utf8EncodeChar c, 128 ≤ b.toNat := by
  unfold String.utf8EncodeChar
  dsimp only
  split
  · next one =>
      refine .inl ⟨_, ?_, rfl⟩
      rw [UInt8.lt_iff_toNat_lt, Utf8Decoder.toNat_ofNat_of_lt (by omega)]
      exact Nat.lt_succ_of_le one
  · right
    split
    · intro b member
      simp only [List.mem_cons, List.not_mem_nil, or_false] at member
      rcases member with rfl | rfl <;> rw [Utf8Decoder.toNat_ofNat_of_lt (by omega)] <;> omega
    split
    · intro b member
      simp only [List.mem_cons, List.not_mem_nil, or_false] at member
      rcases member with rfl | rfl | rfl <;> rw [Utf8Decoder.toNat_ofNat_of_lt (by omega)] <;> omega
    · intro b member
      simp only [List.mem_cons, List.not_mem_nil, or_false] at member
      rcases member with rfl | rfl | rfl | rfl <;> rw [Utf8Decoder.toNat_ofNat_of_lt (by omega)] <;>
        omega

theorem flatMap_escapeByte_of_high {text : Bytes} (high : ∀ b ∈ text, 128 ≤ b.toNat) :
    text.flatMap escapeByte = text := by
  induction text with
  | nil => rfl
  | cons b text ih =>
      have own := (escapeByte_spec b).2.2 (high b List.mem_cons_self)
      rw [List.flatMap_cons, own, ih fun c member => high c (List.mem_cons_of_mem b member)]
      rfl

theorem isLine_escaped {s : Bytes} (valid : ValidUtf8 s) : IsLine (s.flatMap escapeByte) := by
  obtain ⟨chars, rfl⟩ := valid
  have silent : (10 : UInt8) ∉ (utf8 chars).flatMap escapeByte := by
    intro member
    obtain ⟨b, -, inside⟩ := List.mem_flatMap.mp member
    exact (escapeByte_spec b).1 inside
  refine ⟨?_, silent⟩
  clear silent
  induction chars with
  | nil => exact ⟨[], rfl⟩
  | cons c chars ih =>
      rw [utf8_cons, List.flatMap_append]
      refine ValidUtf8.append ?_ ih
      rcases utf8EncodeChar_cases c with ⟨b, small, one⟩ | high
      · rw [one, List.flatMap_cons, List.flatMap_nil, List.append_nil]
        exact validUtf8_of_ascii ((escapeByte_spec b).2.1 small)
      · rw [flatMap_escapeByte_of_high high]
        exact ⟨[c], (List.append_nil _).symm⟩

theorem isLine_decimal (n : Int) : IsLine (decimal n) := by
  apply isLine_of_ascii
  intro b member
  have fine : b = 45 ∨ 48 ≤ b ∧ b ≤ 57 := by
    rw [decimal] at member
    split at member
    · rcases List.mem_cons.mp member with sign | row
      · exact .inl sign
      · exact .inr ((digits_spec _).2.1 b row)
    · exact .inr ((digits_spec _).2.1 b member)
  rcases fine with rfl | ⟨low, high⟩
  · decide
  · constructor
    · exact UInt8.lt_of_le_of_lt high (by decide)
    · rintro rfl
      exact absurd low (by decide)

theorem isLine_writeString {s text : Bytes} (written : writeString s = some text) : IsLine text := by
  rw [writeString] at written
  split at written
  · next valid =>
      cases written
      apply IsLine.cons _ (by decide)
      exact (isLine_escaped valid).append (isLine_of_ascii (by decide +kernel))
  · cases written

mutual

theorem isLine_write {j : Json} {text : Bytes} (written : write j = some text) : IsLine text := by
  match j, written with
  | .null, written =>
      rw [write] at written
      cases written
      exact isLine_of_ascii (by decide +kernel)
  | .bool true, written =>
      rw [write] at written
      cases written
      exact isLine_of_ascii (by decide +kernel)
  | .bool false, written =>
      rw [write] at written
      cases written
      exact isLine_of_ascii (by decide +kernel)
  | .int n, written =>
      rw [write, writeInt] at written
      split at written
      · cases written
        exact isLine_decimal n
      · cases written
  | .float q, written =>
      rw [write] at written
      cases written
  | .str s, written =>
      rw [write] at written
      exact isLine_writeString written
  | .arr items, written =>
      rw [write] at written
      obtain ⟨inner, wrote, rfl⟩ := Option.map_eq_some_iff.mp written
      exact ((isLine_writeItems wrote).append (isLine_of_ascii (by decide +kernel))).cons (by decide)
  | .obj fields, written =>
      obtain ⟨-, inner, wrote, rfl⟩ := write_obj written
      exact ((isLine_writeMembers wrote).append (isLine_of_ascii (by decide +kernel))).cons (by decide)

theorem isLine_writeItems {items : List Json} {text : Bytes}
    (written : writeItems items = some text) : IsLine text := by
  match items, written with
  | [], written =>
      rw [writeItems] at written
      cases written
      exact isLine_of_ascii nofun
  | j :: rest, written =>
      rw [writeItems] at written
      obtain ⟨first, here, wrote⟩ := Option.bind_eq_some_iff.mp written
      obtain ⟨later, there, rfl⟩ := Option.map_eq_some_iff.mp wrote
      split
      · exact isLine_write here
      · exact (isLine_write here).append ((isLine_writeItems there).cons (by decide))

theorem isLine_writeMembers {fields : List (Bytes × Json)} {text : Bytes}
    (written : writeMembers fields = some text) : IsLine text := by
  match fields, written with
  | [], written =>
      rw [writeMembers] at written
      cases written
      exact isLine_of_ascii nofun
  | (key, j) :: rest, written =>
      rw [writeMembers] at written
      obtain ⟨name, named, wrote⟩ := Option.bind_eq_some_iff.mp written
      obtain ⟨first, here, wrote⟩ := Option.bind_eq_some_iff.mp wrote
      obtain ⟨later, there, rfl⟩ := Option.map_eq_some_iff.mp wrote
      have line := (isLine_writeMembers there).cons (b := 44) (by decide)
      split
      · exact (isLine_writeString named).append ((isLine_write here).cons (by decide))
      · exact (isLine_writeString named).append (((isLine_write here).append line).cons (by decide))

end

/-! ## The codec -/

theorem writeItems_of_writable {items : List Json} (each : ∀ j ∈ items, ∃ text, write j = some text) :
    ∃ text, writeItems items = some text := by
  induction items with
  | nil => exact ⟨[], by rw [writeItems]⟩
  | cons j rest ih =>
      obtain ⟨first, here⟩ := each j List.mem_cons_self
      obtain ⟨later, there⟩ := ih fun j member => each j (List.mem_cons_of_mem _ member)
      exact ⟨_, by rw [writeItems, here, there, Option.bind_some, Option.map_some]⟩

theorem writeMembers_of_writable {fields : List (Bytes × Json)} (names : ∀ f ∈ fields, ValidUtf8 f.1)
    (each : ∀ f ∈ fields, ∃ text, write f.2 = some text) :
    ∃ text, writeMembers fields = some text := by
  induction fields with
  | nil => exact ⟨[], by rw [writeMembers]⟩
  | cons f rest ih =>
      obtain ⟨key, j⟩ := f
      obtain ⟨first, here⟩ := each _ List.mem_cons_self
      obtain ⟨later, there⟩ := ih (fun f member => names f (List.mem_cons_of_mem _ member))
        fun f member => each f (List.mem_cons_of_mem _ member)
      have named : writeString key = some _ := if_pos (names _ List.mem_cons_self)
      exact ⟨_, by rw [writeMembers, named, here, there, Option.bind_some, Option.bind_some,
        Option.map_some]⟩

theorem write_of_writable {j : Json} (writable : j.Writable) : ∃ text, write j = some text := by
  induction writable with
  | null => exact ⟨_, by rw [write]⟩
  | bool value => cases value <;> exact ⟨_, by rw [write]⟩
  | int range => exact ⟨_, by rw [write, writeInt, if_pos range]⟩
  | str valid => exact ⟨_, by rw [write, writeString, if_pos valid]⟩
  | arr _ ih =>
      obtain ⟨text, written⟩ := writeItems_of_writable ih
      exact ⟨_, by rw [write, written, Option.map_some]⟩
  | obj sorted names _ ih =>
      obtain ⟨text, written⟩ := writeMembers_of_writable names ih
      exact ⟨_, by rw [write, if_pos sorted, written, Option.map_some]⟩

theorem int_of_readInt {text rest : Bytes} {j : Json} (read : readInt text = some (j, rest)) :
    ∃ n, j = .int n ∧ InJsonRange n := by
  unfold readInt at read
  generalize (match text with
    | 45 :: rest => (true, rest)
    | _ => (false, text)) = signed at read
  dsimp only at read
  by_cases fine : List.takeWhile isDigit signed.2 ≠ [] ∧ InJsonRange (if signed.1 = true then
      -(digitsValue (List.takeWhile isDigit signed.2) : Int)
    else digitsValue (List.takeWhile isDigit signed.2))
  · rw [if_pos fine] at read
    cases read
    exact ⟨_, rfl, fine.2⟩
  · rw [if_neg fine] at read
    cases read

/-- A string or an integer that was read is in range. -/
theorem readable_of_readJson {fuel : Nat} {text rest : Bytes} {j : Json}
    (read : readJson fuel text = some (j, rest)) : j.Readable := by
  cases fuel with
  | zero => cases read
  | succ fuel =>
      unfold readJson at read
      split at read
      case h_4 =>
        obtain ⟨⟨s, rest⟩, -, checked⟩ := Option.bind_eq_some_iff.mp read
        dsimp only at checked
        split at checked
        · next valid =>
            cases checked
            exact valid
        · cases checked
      case h_6 =>
        obtain ⟨_, -, eq⟩ := Option.map_eq_some_iff.mp read
        cases eq
        trivial
      case h_8 =>
        obtain ⟨_, -, eq⟩ := Option.map_eq_some_iff.mp read
        cases eq
        trivial
      case h_9 =>
        obtain ⟨n, rfl, range⟩ := int_of_readInt read
        exact range
      all_goals
        cases read
        trivial

theorem readable_of_readMembers {fuel : Nat} {text rest : Bytes} {fields : List (Bytes × Json)}
    (read : readMembers fuel text = some (fields, rest)) : ∀ f ∈ fields, f.2.Readable := by
  induction fuel generalizing text fields with
  | zero => cases read
  | succ fuel ih =>
      unfold readMembers at read
      split at read
      case h_2 => cases read
      obtain ⟨⟨key, rest⟩, -, more⟩ := Option.bind_eq_some_iff.mp read
      dsimp only at more
      split at more
      case h_2 => cases more
      obtain ⟨⟨j, rest⟩, value, more⟩ := Option.bind_eq_some_iff.mp more
      have own := readable_of_readJson value
      dsimp only at more
      split at more
      · obtain ⟨⟨later, _⟩, there, eq⟩ := Option.map_eq_some_iff.mp more
        cases eq
        intro f member
        rcases List.mem_cons.mp member with rfl | member
        · exact own
        · exact ih there f member
      · cases more
        intro f member
        rw [List.mem_singleton.mp member]
        exact own
      · cases more

/-- The member that `lookup` finds. -/
theorem mem_of_field? {j : Json} {key : Bytes} {v : Json} (found : j.field? key = some v) :
    ∃ fields, j = .obj fields ∧ ∃ f ∈ fields, f.2 = v := by
  cases j with
  | obj fields =>
      refine ⟨fields, rfl, ?_⟩
      change SortedMap.lookup key fields = some v at found
      induction fields with
      | nil => cases found
      | cons f rest ih =>
          obtain ⟨k, w⟩ := f
          rw [SortedMap.lookup] at found
          split at found
          · cases found
            exact ⟨(k, v), List.mem_cons_self, rfl⟩
          · obtain ⟨f, member, eq⟩ := ih found
            exact ⟨f, List.mem_cons_of_mem _ member, eq⟩
  | _ => cases found

/-- An object is read after a brace, and its strings and integers are in range. -/
theorem obj_of_readJson {fuel : Nat} {text rest : Bytes} {fields : List (Bytes × Json)}
    (read : readJson fuel text = some (.obj fields, rest)) :
    (∃ more, text = 123 :: more) ∧ ∀ f ∈ fields, f.2.Readable := by
  cases fuel with
  | zero => cases read
  | succ fuel =>
      unfold readJson at read
      split at read
      case h_4 =>
        obtain ⟨⟨s, rest⟩, -, checked⟩ := Option.bind_eq_some_iff.mp read
        dsimp only at checked
        split at checked <;> cases checked
      case h_6 =>
        obtain ⟨_, -, eq⟩ := Option.map_eq_some_iff.mp read
        cases eq
      case h_7 =>
        cases read
        exact ⟨⟨_, rfl⟩, nofun⟩
      case h_8 =>
        obtain ⟨⟨_, _⟩, there, eq⟩ := Option.map_eq_some_iff.mp read
        cases eq
        exact ⟨⟨_, rfl⟩, fun f member => readable_of_readMembers there f (mem_of_gathered member)⟩
      case h_9 =>
        obtain ⟨n, eq, -⟩ := int_of_readInt read
        cases eq
      all_goals cases read

theorem obj_of_parse {text : Bytes} {fields : List (Bytes × Json)}
    (parsed : textCodec.parse text = some (.obj fields)) :
    (∃ more, text = 123 :: more) ∧ ∀ f ∈ fields, f.2.Readable := by
  change (match readJson (text.length + 1) text with
    | some (j, []) => some j
    | _ => none) = some (.obj fields) at parsed
  split at parsed
  · next read =>
      cases parsed
      exact obj_of_readJson read
  · cases parsed

theorem textCodec_faithful : textCodec.Faithful where
  parse_dump {j text} written := by
    have read : readJson (text.length + 1) (text ++ []) = some (j, []) :=
      readJson_write written (Nat.lt_succ_self _) nofun
    rw [List.append_nil] at read
    change (match readJson (text.length + 1) text with
      | some (j, []) => some j
      | _ => none) = some j
    rw [read]
  dump_writable := write_of_writable
  dump_text := isLine_write
  dump_obj {fields text} written := by
    obtain ⟨-, inner, -, rfl⟩ := write_obj written
    exact ⟨_, rfl⟩
  parse_readable parsed found := by
    obtain ⟨fields, rfl, f, member, rfl⟩ := mem_of_field? found
    exact (obj_of_parse parsed).2 f member

end AIService
