import AIService.Accounts.Password

/-!
# The table `users`

One statement on the table is one function here.  The uniqueness of the columns comes with
the table, so that a statement that would break it has to fail.
-/

namespace AIService.Accounts

structure User where
  id : Int
  username : Bytes
  password : Bytes
deriving DecidableEq, Repr

structure Users where
  rows : List User
  id_unique : (rows.map (·.id)).Nodup
  id_pos : ∀ row ∈ rows, 0 < row.id
  username_unique : (rows.map (·.username)).Nodup

/-- The characters of a UTF-8 text. -/
def charLength (text : Bytes) : Nat := text.countP fun b => b &&& 0xC0 ≠ 0x80

/-- What the columns of a new row hold. -/
def Fits (username password : Bytes) : Prop := charLength username ≤ 128 ∧ charLength password ≤ 255

instance (username password : Bytes) : Decidable (Fits username password) :=
  inferInstanceAs (Decidable (_ ∧ _))

namespace Users

variable (users : Users)

/-- `SELECT ... FROM users WHERE username = ?`. -/
def find? (username : Bytes) : Option User := users.rows.find? (·.username = username)

/-- What `AUTO_INCREMENT` may give to a new row. -/
def Fresh (id : Int) : Prop := 0 < id ∧ id ∉ users.rows.map (·.id)

/-- `INSERT INTO users (username, password) VALUES (?, ?)`; `none` is its exception. -/
def insert (id : Int) (fresh : users.Fresh id) (username password : Bytes) : Option Users :=
  if new : username ∉ users.rows.map (·.username) ∧ Fits username password then
    some
      { rows := ⟨id, username, password⟩ :: users.rows
        id_unique := List.nodup_cons.mpr ⟨fresh.2, users.id_unique⟩
        id_pos := by
          intro row member
          rcases List.mem_cons.mp member with rfl | old
          · exact fresh.1
          · exact users.id_pos row old
        username_unique := List.nodup_cons.mpr ⟨new.1, users.username_unique⟩ }
  else none

/-- Give every row the password `password` has for it. -/
def mapPassword (password : User → Bytes) : Users :=
  { rows := users.rows.map fun row => { row with password := password row }
    id_unique := by
      rw [List.map_map]
      exact users.id_unique
    id_pos := by simpa using users.id_pos
    username_unique := by
      rw [List.map_map]
      exact users.username_unique }

/-- `UPDATE users SET password = ? WHERE id = ? AND BINARY password = ?`, and how many rows it
changed. -/
def replacePassword (encoded : Bytes) (id : Int) (password : Bytes) : Nat × Users :=
  (users.rows.countP fun row => row.id = id ∧ row.password = password ∧ password ≠ encoded,
    users.mapPassword fun row =>
      if row.id = id ∧ row.password = password then encoded else row.password)

variable {users} {username password : Bytes} {row : User}

theorem find?_some (found : users.find? username = some row) :
    row ∈ users.rows ∧ row.username = username :=
  ⟨List.mem_of_find?_eq_some found, by simpa using List.find?_some found⟩

theorem find?_insert {id : Int} {fresh : users.Fresh id} {users' : Users}
    (inserted : users.insert id fresh username password = some users') :
    users'.find? username = some ⟨id, username, password⟩ := by
  rw [insert] at inserted
  split at inserted
  · cases inserted
    exact List.find?_cons_of_pos (decide_eq_true rfl)
  · cases inserted

theorem find?_mapPassword {change : User → Bytes} :
    (users.mapPassword change).find? username =
      (users.find? username).map fun row => { row with password := change row } :=
  List.find?_map

/-- The row that an `UPDATE` by id changes is the one with that id. -/
theorem replacePassword_of_mem {encoded : Bytes} (member : row ∈ users.rows) :
    (users.replacePassword encoded row.id password).1 =
      if row.password = password ∧ password ≠ encoded then 1 else 0 := by
  have only : ∀ other ∈ users.rows, other.id = row.id → other = row := fun other inside same =>
    List.inj_on_of_nodup_map users.id_unique inside member same
  have count : (users.replacePassword encoded row.id password).1 =
      users.rows.countP fun other =>
        other = row ∧ row.password = password ∧ password ≠ encoded := by
    apply List.countP_congr
    intro other inside
    constructor
    · intro changed
      obtain ⟨same, rest⟩ := of_decide_eq_true changed
      obtain rfl := only other inside same
      exact decide_eq_true ⟨rfl, rest⟩
    · intro changed
      obtain ⟨rfl, rest⟩ := of_decide_eq_true changed
      exact decide_eq_true ⟨rfl, rest⟩
  rw [count]
  split
  · next changes =>
      have once : users.rows.count row = 1 :=
        List.count_eq_one_of_mem (users.id_unique.of_map _) member
      simpa [changes, List.count, BEq.beq] using once
  · next stays =>
      rw [List.countP_eq_zero]
      intro other _ changed
      exact stays (of_decide_eq_true changed).2

end Users

/-! ## The columns of a hash -/

end AIService.Accounts
