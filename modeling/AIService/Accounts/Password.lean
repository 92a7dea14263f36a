import AIService.Data.Decimal
import AIService.Data.Text

/-!
# `http::PasswordUtil`

PBKDF2 and the random salt belong to the crypto library: `Pbkdf2` is a parameter, which
answers nothing where the call fails, and a salt is an argument.
-/

namespace AIService.Accounts

/-- `std::array<unsigned char, n>`. -/
abbrev Block (n : Nat) := { block : Bytes // block.length = n }

abbrev Salt := Block 16

abbrev Key := Block 32

/-- `PKCS5_PBKDF2_HMAC` with `EVP_sha256`: the password, the salt and the cost. -/
abbrev Pbkdf2 := Bytes → Salt → Nat → Option Key

def iterations : Nat := 600000

def hashPrefix : Bytes := bytes "pbkdf2_sha256$"

def dollar : UInt8 := 36

def hexDigit (digit : UInt8) : UInt8 := if digit < 10 then 48 + digit else 87 + digit

def hex (block : Bytes) : Bytes :=
  block.flatMap fun (byte : UInt8) => [hexDigit (byte >>> 4), hexDigit (byte &&& 15)]

/-- The lambda of `unhex`. -/
def digit (value : UInt8) : Option UInt8 :=
  if 48 ≤ value ∧ value ≤ 57 then some (value - 48)
  else if 97 ≤ value ∧ value ≤ 102 then some (value - 97 + 10)
  else none

/-- The loop of `unhex`. -/
def unhexPairs : Bytes → Option Bytes
  | [] => some []
  | [_] => none
  | high :: low :: rest => do
      let high ← digit high
      let low ← digit low
      let block ← unhexPairs rest
      return (high <<< 4 ||| low) :: block

def unhex (n : Nat) (input : Bytes) : Option (Block n) :=
  if input.length ≠ n * 2 then none
  else do
    let block ← unhexPairs input
    if size : block.length = n then some ⟨block, size⟩ else none

/-- `std::from_chars` of an `int`, where it takes all of the text. -/
def fromChars (text : Bytes) : Option Int :=
  let (negative, row) := match text with
    | 45 :: rest => (true, rest)
    | _ => (false, text)
  let value : Int := if negative then -digitsValue row else digitsValue row
  if row = [] ∨ row.takeWhile isDigit ≠ row ∨ value < -2147483648 ∨ 2147483647 < value then none
  else some value

variable (kdf : Pbkdf2)

def derive (password : Bytes) (salt : Salt) (cost : Nat) : Option Key :=
  if 2147483647 < password.length then none else kdf password salt cost

/-- `hash`, from the salt that `RAND_bytes` drew; `none` is its exception. -/
def hash (salt : Option Salt) (password : Bytes) : Option Bytes := do
  let salt ← salt
  let key ← derive kdf password salt iterations
  return hashPrefix ++ (digits iterations ++ dollar :: (hex salt.val ++ dollar :: hex key.val))

def isHash (encoded : Bytes) : Bool := hashPrefix.isPrefixOf encoded

def verify (password encoded : Bytes) : Bool :=
  if !isHash encoded then false
  else
    match cut dollar (encoded.drop hashPrefix.length) with
    | none => false
    | some (cost, rest) =>
        match fromChars cost with
        | none => false
        | some cost =>
            if cost < 100000 ∨ 2000000 < cost then false
            else
              match cut dollar rest with
              | none => false
              | some (salt, expected) =>
                  match unhex 16 salt with
                  | none => false
                  | some salt =>
                      match unhex 32 expected with
                      | none => false
                      | some expected => derive kdf password salt cost.toNat = some expected

def verifyLegacy (password stored : Bytes) : Bool := !isHash stored && password == stored

/-! ## What a hash accepts -/

/-- The two digits of a byte give it back. -/
theorem byte_spec : ∀ byte : UInt8,
    digit (hexDigit (byte >>> 4)) = some (byte >>> 4) ∧
      digit (hexDigit (byte &&& 15)) = some (byte &&& 15) ∧
        (byte >>> 4) <<< 4 ||| (byte &&& 15) = byte ∧
          hexDigit (byte >>> 4) ≠ dollar ∧ hexDigit (byte &&& 15) ≠ dollar :=
  forall_byte (by decide +kernel)

theorem hex_length (block : Bytes) : (hex block).length = block.length * 2 := by
  induction block with
  | nil => rfl
  | cons byte block ih =>
      change (hex block).length + 2 = (block.length + 1) * 2
      omega

theorem unhexPairs_hex (block : Bytes) : unhexPairs (hex block) = some block := by
  induction block with
  | nil => rfl
  | cons byte block ih =>
      obtain ⟨high, low, whole, -⟩ := byte_spec byte
      change unhexPairs (hexDigit (byte >>> 4) :: hexDigit (byte &&& 15) :: hex block) = _
      rw [unhexPairs, high, low, ih]
      change some (((byte >>> 4) <<< 4 ||| (byte &&& 15)) :: block) = _
      rw [whole]

theorem unhex_hex {n : Nat} (block : Block n) : unhex n (hex block.val) = some block := by
  rw [unhex, hex_length, block.property, if_neg (by simp), unhexPairs_hex]
  exact dif_pos block.property

theorem dollar_not_mem_hex (block : Bytes) : dollar ∉ hex block := by
  intro member
  obtain ⟨byte, -, inside⟩ := List.mem_flatMap.mp member
  obtain ⟨-, -, -, high, low⟩ := byte_spec byte
  rcases List.mem_cons.mp inside with same | inside
  · exact high same.symm
  · exact low (List.mem_singleton.mp inside).symm

theorem cut_iterations (rest : Bytes) :
    cut dollar (digits iterations ++ dollar :: rest) = some (digits iterations, rest) := by
  apply cut_append
  intro member
  exact absurd ((digits_spec iterations).2.1 dollar member).1 (by decide)

theorem fromChars_iterations : fromChars (digits iterations) = some 600000 := by decide

theorem isHash_hash {salt : Option Salt} {password encoded : Bytes}
    (hashed : hash kdf salt password = some encoded) : isHash encoded = true := by
  obtain ⟨salt, -, keyed⟩ := Option.bind_eq_some_iff.mp hashed
  obtain ⟨key, -, eq⟩ := Option.bind_eq_some_iff.mp keyed
  obtain rfl := Option.some.inj eq
  exact List.isPrefixOf_iff_prefix.mpr (List.prefix_append _ _)

/-- A password passes just when it has the key of the hashed one. -/
theorem verify_hash {salt : Option Salt} {password encoded : Bytes}
    (hashed : hash kdf salt password = some encoded) (presented : Bytes) :
    verify kdf presented encoded = true ↔
      ∃ salt key, derive kdf password salt iterations = some key ∧
        derive kdf presented salt iterations = some key ∧
          encoded = hashPrefix ++
            (digits iterations ++ dollar :: (hex salt.val ++ dollar :: hex key.val)) := by
  have isHash_ := isHash_hash kdf hashed
  obtain ⟨salt, -, keyed⟩ := Option.bind_eq_some_iff.mp hashed
  obtain ⟨key, own, eq⟩ := Option.bind_eq_some_iff.mp keyed
  obtain rfl := Option.some.inj eq
  have reads (salt : Salt) (key : Key) :
      verify kdf presented (hashPrefix ++
        (digits iterations ++ dollar :: (hex salt.val ++ dollar :: hex key.val))) =
          decide (derive kdf presented salt iterations = some key) := by
    have here : isHash (hashPrefix ++
        (digits iterations ++ dollar :: (hex salt.val ++ dollar :: hex key.val))) = true :=
      List.isPrefixOf_iff_prefix.mpr (List.prefix_append _ _)
    rw [verify, here, List.drop_left, cut_iterations]
    simp only [Bool.not_true, Bool.false_eq_true, if_false, fromChars_iterations]
    rw [if_neg (by decide), cut_append (dollar_not_mem_hex _)]
    simp only [unhex_hex]
    rfl
  constructor
  · intro passes
    rw [reads] at passes
    exact ⟨salt, key, own, of_decide_eq_true passes, rfl⟩
  · rintro ⟨salt', key', -, same, eq⟩
    rw [eq, reads]
    exact decide_eq_true same

/-- One key for each password under each salt, where there is a key. -/
def Injective : Prop :=
  ∀ password password' salt cost key, kdf password salt cost = some key →
    kdf password' salt cost = some key → password = password'

variable {kdf}

theorem derive_eq_some {password : Bytes} {salt : Salt} {cost : Nat} {key : Key}
    (derived : derive kdf password salt cost = some key) : kdf password salt cost = some key := by
  rw [derive] at derived
  split at derived
  · cases derived
  · exact derived

/-- A hash accepts the password it was made of, and no other. -/
theorem verify_hash_iff (injective : Injective kdf) {salt : Option Salt} {password encoded : Bytes}
    (hashed : hash kdf salt password = some encoded) (presented : Bytes) :
    verify kdf presented encoded = true ↔ presented = password := by
  constructor
  · intro passes
    obtain ⟨salt, key, own, same, -⟩ := (verify_hash kdf hashed presented).mp passes
    exact injective _ _ salt iterations key (derive_eq_some same) (derive_eq_some own)
  · rintro rfl
    obtain ⟨salt', -, keyed⟩ := Option.bind_eq_some_iff.mp hashed
    obtain ⟨key, own, eq⟩ := Option.bind_eq_some_iff.mp keyed
    exact (verify_hash kdf hashed presented).mpr ⟨salt', key, own, own, (Option.some.inj eq).symm⟩

end AIService.Accounts
