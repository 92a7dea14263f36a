import Mathlib.Data.List.Lex
import Mathlib.Data.List.Pairwise
import Mathlib.Data.List.Nodup
import Mathlib.Order.Lattice

/-!
# Finite maps as sorted association lists

`SortedMap κ ν` is a finite map whose entries are strictly sorted by key, so a map is
determined by its lookups (`SortedMap.ext`).  It models `std::map`, whose iteration
order it has, and also `std::unordered_map` where no iteration order is observed.
-/

namespace AIService

instance linearOrderUInt8 : LinearOrder UInt8 where
  le_refl := UInt8.le_refl
  le_trans _ _ _ := UInt8.le_trans
  le_antisymm _ _ := UInt8.le_antisymm
  le_total := UInt8.le_total
  lt_iff_le_not_ge a b := by
    rw [UInt8.lt_iff_toNat_lt, UInt8.le_iff_toNat_le, UInt8.le_iff_toNat_le]
    omega
  toDecidableLE := inferInstance

/-- A finite map; its entries are listed in increasing order of the keys. -/
structure SortedMap (κ ν : Type) [LinearOrder κ] where
  entries : List (κ × ν)
  sorted : entries.Pairwise fun a b => a.1 < b.1

namespace SortedMap

variable {κ ν : Type} [LinearOrder κ]

/-- The value of the first entry with key `k`. -/
def lookup (k : κ) : List (κ × ν) → Option ν
  | [] => none
  | (k', v) :: rest => if k' = k then some v else lookup k rest

/-- Put `(k, v)` at its place among sorted entries, over an entry with the same key. -/
def place (k : κ) (v : ν) : List (κ × ν) → List (κ × ν)
  | [] => [(k, v)]
  | (k', v') :: rest =>
      if k < k' then (k, v) :: (k', v') :: rest
      else if k' < k then (k', v') :: place k v rest
      else (k, v) :: rest

theorem mem_place {k : κ} {v : ν} {xs : List (κ × ν)} {p : κ × ν} (h : p ∈ place k v xs) :
    p = (k, v) ∨ p ∈ xs := by
  induction xs with
  | nil => exact Or.inl (List.mem_singleton.mp h)
  | cons head rest ih =>
      obtain ⟨k', v'⟩ := head
      simp only [place] at h
      split at h
      · simpa using h
      split at h
      · rcases List.mem_cons.mp h with rfl | later
        · exact Or.inr List.mem_cons_self
        · exact (ih later).imp_right (List.mem_cons_of_mem _)
      · exact (List.mem_cons.mp h).imp_right (List.mem_cons_of_mem _)

theorem place_sorted {k : κ} {v : ν} {xs : List (κ × ν)}
    (sorted : xs.Pairwise fun a b => a.1 < b.1) :
    (place k v xs).Pairwise fun a b => a.1 < b.1 := by
  induction xs with
  | nil => exact List.pairwise_singleton _ _
  | cons head rest ih =>
      obtain ⟨k', v'⟩ := head
      obtain ⟨above, restSorted⟩ := List.pairwise_cons.mp sorted
      simp only [place]
      split
      · rename_i less
        refine List.pairwise_cons.mpr ⟨fun p hp => ?_, sorted⟩
        rcases List.mem_cons.mp hp with rfl | later
        · exact less
        · exact less.trans (above p later)
      split
      · rename_i greater
        refine List.pairwise_cons.mpr ⟨fun p hp => ?_, ih restSorted⟩
        rcases mem_place hp with rfl | later
        · exact greater
        · exact above p later
      · rename_i notLess notGreater
        have same : k' = k := le_antisymm (not_lt.mp notLess) (not_lt.mp notGreater)
        subst same
        exact List.pairwise_cons.mpr ⟨above, restSorted⟩

theorem length_place_le (k : κ) (v : ν) (xs : List (κ × ν)) :
    (place k v xs).length ≤ xs.length + 1 := by
  induction xs with
  | nil => simp [place]
  | cons head rest ih =>
      simp only [place]
      split
      · simp
      split
      · simpa using ih
      · simp

theorem lookup_eq_none {k : κ} {xs : List (κ × ν)} (absent : ∀ p ∈ xs, p.1 ≠ k) :
    lookup k xs = none := by
  induction xs with
  | nil => rfl
  | cons head rest ih =>
      rw [lookup, if_neg (absent head List.mem_cons_self)]
      exact ih fun p hp => absent p (List.mem_cons_of_mem _ hp)

theorem lookup_place (k k' : κ) (v : ν) (xs : List (κ × ν)) :
    lookup k' (place k v xs) = if k = k' then some v else lookup k' xs := by
  induction xs with
  | nil => rfl
  | cons head rest ih =>
      obtain ⟨key, w⟩ := head
      simp only [place]
      split
      · rfl
      rename_i notLess
      split
      · rename_i greater
        simp only [lookup, ih]
        by_cases here : key = k'
        · subst here
          rw [if_pos rfl, if_pos rfl, if_neg greater.ne']
        · rw [if_neg here, if_neg here]
      · rename_i notGreater
        have same : key = k := le_antisymm (not_lt.mp notLess) (not_lt.mp notGreater)
        subst same
        simp only [lookup]
        split <;> rfl

theorem lookup_filter {p : κ × ν → Bool} {k : κ} {xs : List (κ × ν)}
    (sorted : xs.Pairwise fun a b => a.1 < b.1) :
    lookup k (xs.filter p) = (lookup k xs).filter fun v => p (k, v) := by
  induction xs with
  | nil => rfl
  | cons head rest ih =>
      obtain ⟨key, v⟩ := head
      obtain ⟨above, restSorted⟩ := List.pairwise_cons.mp sorted
      have tail := ih restSorted
      by_cases here : key = k
      · subst here
        have absent : lookup key (rest.filter p) = none :=
          lookup_eq_none fun q hq => (above q (List.mem_filter.mp hq).1).ne'
        cases keep : p (key, v) <;> simp [lookup, keep, absent, Option.filter]
      · cases keep : p (key, v) <;> simp [lookup, keep, here, tail]

theorem lookup_map {μ : Type} (f : κ → ν → μ) (k : κ) (xs : List (κ × ν)) :
    lookup k (xs.map fun e => (e.1, f e.1 e.2)) = (lookup k xs).map (f k) := by
  induction xs with
  | nil => rfl
  | cons head rest ih =>
      obtain ⟨key, v⟩ := head
      by_cases here : key = k
      · subst here
        simp [lookup]
      · simpa [lookup, here] using ih

theorem mem_iff_lookup {k : κ} {v : ν} {xs : List (κ × ν)}
    (sorted : xs.Pairwise fun a b => a.1 < b.1) : (k, v) ∈ xs ↔ lookup k xs = some v := by
  induction xs with
  | nil => simp [lookup]
  | cons head rest ih =>
      obtain ⟨key, w⟩ := head
      obtain ⟨above, restSorted⟩ := List.pairwise_cons.mp sorted
      by_cases here : key = k
      · subst here
        rw [lookup, if_pos rfl, Option.some.injEq, List.mem_cons]
        constructor
        · rintro (same | later)
          · exact (Prod.mk.inj same).2.symm
          · exact ((above _ later).ne rfl).elim
        · rintro rfl
          exact Or.inl rfl
      · rw [lookup, if_neg here, ← ih restSorted, List.mem_cons]
        exact or_iff_right fun same => here (Prod.mk.inj same).1.symm

theorem place_last {k : κ} {v : ν} {xs : List (κ × ν)} (below : ∀ p ∈ xs, p.1 < k) :
    place k v xs = xs ++ [(k, v)] := by
  induction xs with
  | nil => rfl
  | cons head rest ih =>
      obtain ⟨key, w⟩ := head
      have less : key < k := below _ (.head _)
      rw [place, if_neg less.asymm, if_pos less, ih fun p later => below p (.tail _ later),
        List.cons_append]

/-! ## The operations -/

variable (m : SortedMap κ ν)

/-- `find`. -/
def find? (k : κ) : Option ν := lookup k m.entries

/-- `operator[](k) = v`. -/
def insert (k : κ) (v : ν) : SortedMap κ ν := ⟨place k v m.entries, place_sorted m.sorted⟩

/-- Keep the entries that satisfy `p`. -/
def filter (p : κ → ν → Bool) : SortedMap κ ν :=
  ⟨m.entries.filter fun e => p e.1 e.2, m.sorted.filter _⟩

/-- Another value for every key. -/
def map {μ : Type} (f : κ → ν → μ) : SortedMap κ μ :=
  ⟨m.entries.map fun e => (e.1, f e.1 e.2), m.sorted.map _ fun _ _ less => less⟩

/-- `erase(k)`. -/
def erase (k : κ) : SortedMap κ ν := m.filter fun k' _ => k' ≠ k

def size : Nat := m.entries.length

def empty : SortedMap κ ν := ⟨[], .nil⟩

instance : Inhabited (SortedMap κ ν) := ⟨empty⟩

@[simp] theorem find?_empty (k : κ) : (empty : SortedMap κ ν).find? k = none := rfl

@[simp] theorem size_empty : (empty : SortedMap κ ν).size = 0 := rfl

theorem mem_entries {k : κ} {v : ν} : (k, v) ∈ m.entries ↔ m.find? k = some v :=
  mem_iff_lookup m.sorted

/-- A map is determined by its lookups. -/
@[ext] theorem ext {m n : SortedMap κ ν} (same : ∀ k, m.find? k = n.find? k) : m = n := by
  have nodup {l : SortedMap κ ν} : l.entries.Nodup := by
    refine l.sorted.imp fun {a b} less eq => ?_
    subst eq
    exact less.false
  have perm : m.entries.Perm n.entries := by
    refine (List.perm_ext_iff_of_nodup nodup nodup).mpr fun ⟨k, v⟩ => ?_
    rw [mem_entries, mem_entries, same]
  have eq : m.entries = n.entries :=
    perm.eq_of_pairwise (fun a b _ _ less greater => (less.asymm greater).elim) m.sorted n.sorted
  cases m
  cases n
  cases eq
  rfl

theorem find?_insert (k k' : κ) (v : ν) :
    (m.insert k v).find? k' = if k = k' then some v else m.find? k' :=
  lookup_place k k' v m.entries

@[simp] theorem find?_insert_self (k : κ) (v : ν) : (m.insert k v).find? k = some v := by
  rw [find?_insert, if_pos rfl]

theorem find?_insert_of_ne {k k' : κ} (ne : k ≠ k') (v : ν) :
    (m.insert k v).find? k' = m.find? k' := by
  rw [find?_insert, if_neg ne]

theorem find?_map {μ : Type} (f : κ → ν → μ) (k : κ) :
    (m.map f).find? k = (m.find? k).map (f k) :=
  lookup_map f k m.entries

theorem find?_filter (p : κ → ν → Bool) (k : κ) :
    (m.filter p).find? k = (m.find? k).filter (p k) :=
  lookup_filter m.sorted

theorem find?_erase (k k' : κ) :
    (m.erase k).find? k' = if k = k' then none else m.find? k' := by
  rw [erase, find?_filter]
  by_cases same : k = k'
  · subst same
    cases m.find? k <;> simp
  · cases m.find? k' <;> simp [same, Ne.symm same]

/-- A key above all others goes to the end. -/
theorem entries_insert_last {k : κ} (below : ∀ p ∈ m.entries, p.1 < k) (v : ν) :
    (m.insert k v).entries = m.entries ++ [(k, v)] :=
  place_last below

theorem entries_erase (k : κ) : (m.erase k).entries = m.entries.filter fun e => e.1 ≠ k := rfl

theorem size_insert_le (k : κ) (v : ν) : (m.insert k v).size ≤ m.size + 1 :=
  length_place_le k v m.entries

theorem size_filter_le (p : κ → ν → Bool) : (m.filter p).size ≤ m.size :=
  List.length_filter_le _ _

theorem size_erase_le (k : κ) : (m.erase k).size ≤ m.size := m.size_filter_le _

theorem size_erase {k : κ} {v : ν} (found : m.find? k = some v) : (m.erase k).size + 1 = m.size := by
  obtain ⟨before, after, split⟩ := List.append_of_mem (m.mem_entries.mpr found)
  have sorted := m.sorted
  rw [split] at sorted
  obtain ⟨-, tail, below⟩ := List.pairwise_append.mp sorted
  have above := (List.pairwise_cons.mp tail).1
  have kept {rest : List (κ × ν)} (other : ∀ e ∈ rest, e.1 ≠ k) :
      rest.filter (fun e => e.1 ≠ k) = rest :=
    List.filter_eq_self.mpr fun e member => decide_eq_true (other e member)
  unfold size
  rw [entries_erase, split, List.filter_append, kept fun e member => (below e member _ (.head _)).ne,
    List.filter_cons_of_neg (by simp), kept fun e member => (above e member).ne',
    List.length_append, List.length_append, List.length_cons, Nat.add_assoc]

theorem erase_of_none {k : κ} (absent : m.find? k = none) : m.erase k = m := by
  ext k' v
  rw [find?_erase]
  split
  · next same => rw [← same, absent]
  · rfl

theorem size_le_erase (k : κ) : m.size ≤ (m.erase k).size + 1 := by
  cases found : m.find? k with
  | none =>
      rw [m.erase_of_none found]
      exact Nat.le_succ _
  | some v => rw [m.size_erase found]

theorem filter_filter (p q : κ → ν → Bool) :
    (m.filter p).filter q = m.filter fun k v => p k v && q k v := by
  ext k v
  simp only [find?_filter]
  cases m.find? k with
  | none => rfl
  | some w => cases first : p k w <;> simp [Option.filter, first]

theorem filter_congr {p q : κ → ν → Bool}
    (same : ∀ k v, m.find? k = some v → p k v = q k v) : m.filter p = m.filter q := by
  ext k v
  simp only [find?_filter]
  cases found : m.find? k with
  | none => rfl
  | some w => simp [Option.filter, same k w found]

end SortedMap

end AIService
