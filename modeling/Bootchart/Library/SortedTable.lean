import Mathlib.Data.List.Pairwise
import Mathlib.Data.List.TakeDrop
import Mathlib.Order.Lattice
import Mathlib.Tactic.Common

/-!
# Tables sorted by a key

A table is a list of rows in strictly increasing order of a key. The position
of a key is the index of the first row behind it. Around that position the table
splits into the rows before the key, at most one row with the key, and the rows
behind it; every operation below is described by this split.
-/

namespace Library
namespace SortedTable

variable {α κ : Type*} [LinearOrder κ]

/-- The rows are in strictly increasing order of their keys. -/
def Sorted (key : α → κ) (rows : List α) : Prop :=
  rows.Pairwise fun first second => key first < key second

/-- The index of the first row whose key is greater. -/
def position (key : α → κ) (rows : List α) (wanted : κ) : Nat :=
  rows.findIdx fun row => wanted < key row

/-- The row with a key. -/
def lookup (key : α → κ) (rows : List α) (wanted : κ) : Option α :=
  rows.find? fun row => key row = wanted

/-- The table consisting of three parts. -/
def join (before : List α) (middle : Option α) (behind : List α) : List α :=
  before ++ middle.toList ++ behind

/-- The three parts into which a key splits a table. -/
structure Splits
    (key : α → κ)
    (wanted : κ)
    (before : List α)
    (middle : Option α)
    (behind : List α) : Prop where
  /-- Keys before are smaller. -/
  before_lt : ∀ row ∈ before, key row < wanted
  /-- The row in the middle, if there is one, has the key. -/
  middle_eq : ∀ row ∈ middle, key row = wanted
  /-- Keys behind are greater. -/
  behind_gt : ∀ row ∈ behind, wanted < key row

variable {key : α → κ} {rows : List α} {wanted : κ}

/-- Every key splits every sorted table. -/
theorem Sorted.exists_splits (sorted : Sorted key rows) (wanted : κ) :
    ∃ before middle behind, rows = join before middle behind ∧
      Splits key wanted before middle behind := by
  induction rows with
  | nil => exact ⟨[], none, [], rfl, by simp, by simp, by simp⟩
  | cons row rows inductionHypothesis =>
      obtain ⟨smaller, sortedRows⟩ := List.pairwise_cons.mp sorted
      rcases lt_trichotomy (key row) wanted with less | rfl | greater
      · obtain ⟨before, middle, behind, rfl, splits⟩ :=
          inductionHypothesis sortedRows
        refine ⟨row :: before, middle, behind, rfl, ?_, splits.middle_eq,
          splits.behind_gt⟩
        intro other member
        rcases List.mem_cons.mp member with rfl | inBefore
        · exact less
        · exact splits.before_lt other inBefore
      · exact ⟨[], some row, rows, rfl, by simp, by simp, smaller⟩
      · refine ⟨[], none, row :: rows, rfl, by simp, by simp, ?_⟩
        intro other member
        rcases List.mem_cons.mp member with rfl | inRows
        · exact greater
        · exact greater.trans (smaller other inRows)

namespace Splits

variable {before : List α} {middle : Option α} {behind : List α}

/-- The same split with another row in the middle. -/
theorem replace
    (splits : Splits key wanted before middle behind)
    {replacement : Option α}
    (keyed : ∀ row ∈ replacement, key row = wanted) :
    Splits key wanted before replacement behind :=
  ⟨splits.before_lt, keyed, splits.behind_gt⟩

/-- The position lies behind the rows before the key and the row in the
middle. -/
theorem position_eq (splits : Splits key wanted before middle behind) :
    position key (join before middle behind) wanted =
      before.length + middle.toList.length := by
  have notGreater : ∀ row ∈ before ++ middle.toList, ¬wanted < key row := by
    intro row member
    rcases List.mem_append.mp member with inBefore | inMiddle
    · exact (splits.before_lt row inBefore).not_gt
    · exact (splits.middle_eq row (by simpa using inMiddle)).not_gt
  have first : behind.findIdx (fun row => decide (wanted < key row)) = 0 := by
    cases behind with
    | nil => rfl
    | cons row behind =>
        have greater := splits.behind_gt row (by simp)
        simp [List.findIdx_cons, greater]
  rw [position, join, List.findIdx_append,
    List.findIdx_eq_length_of_false (by simpa using notGreater)]
  simp [first]

/-- The row in the middle is what a lookup returns. -/
theorem lookup_eq (splits : Splits key wanted before middle behind) :
    lookup key (join before middle behind) wanted = middle := by
  have notBefore : before.find? (fun row => key row = wanted) = none := by
    rw [List.find?_eq_none]
    intro row member
    simpa using (splits.before_lt row member).ne
  have notBehind : behind.find? (fun row => key row = wanted) = none := by
    rw [List.find?_eq_none]
    intro row member
    simpa using (splits.behind_gt row member).ne'
  rw [lookup, join, List.find?_append, List.find?_append, notBefore, notBehind]
  cases middle with
  | none => rfl
  | some row => simp [splits.middle_eq row rfl]

/-- Another row in the middle keeps the table sorted. -/
theorem sorted_replace
    (splits : Splits key wanted before middle behind)
    (sorted : Sorted key (join before middle behind))
    {replacement : Option α}
    (keyed : ∀ row ∈ replacement, key row = wanted) :
    Sorted key (join before replacement behind) := by
  rw [Sorted, join, List.pairwise_append, List.pairwise_append] at sorted ⊢
  obtain ⟨⟨sortedBefore, _, _⟩, sortedBehind, _⟩ := sorted
  refine ⟨⟨sortedBefore, ?_, ?_⟩, sortedBehind, ?_⟩
  · cases replacement <;> simp
  · intro first inBefore second inMiddle
    rw [keyed second (by simpa using inMiddle)]
    exact splits.before_lt first inBefore
  · intro first member second inBehind
    refine lt_of_le_of_lt ?_ (splits.behind_gt second inBehind)
    rcases List.mem_append.mp member with inBefore | inMiddle
    · exact (splits.before_lt first inBefore).le
    · exact (keyed first (by simpa using inMiddle)).le

/-- Another row in the middle changes the lookup of its key only. -/
theorem lookup_replace
    (splits : Splits key wanted before middle behind)
    {replacement : Option α}
    (keyed : ∀ row ∈ replacement, key row = wanted)
    (other : κ) :
    lookup key (join before replacement behind) other =
      if other = wanted then replacement
      else lookup key (join before middle behind) other := by
  by_cases same : other = wanted
  · subst same
    rw [if_pos rfl]
    exact (splits.replace keyed).lookup_eq
  · have missing : ∀ middle : Option α, (∀ row ∈ middle, key row = wanted) →
        middle.toList.find? (fun row => key row = other) = none := by
      intro middle keyed
      rw [List.find?_eq_none]
      intro row member
      rw [keyed row (by simpa using member)]
      simpa using Ne.symm same
    rw [if_neg same]
    simp only [lookup, join, List.find?_append, missing replacement keyed,
      missing middle splits.middle_eq]

end Splits

/-- A row found by a lookup has the key and is in the table. -/
theorem lookup_eq_some
    {row : α}
    (found : lookup key rows wanted = some row) :
    row ∈ rows ∧ key row = wanted :=
  ⟨List.mem_of_find?_eq_some found, by simpa using List.find?_some found⟩

/-- The rows of a sorted table are the results of its lookups. -/
theorem Sorted.mem_iff_lookup
    (sorted : Sorted key rows)
    {row : α} :
    row ∈ rows ↔ lookup key rows (key row) = some row := by
  constructor
  · intro member
    obtain ⟨before, middle, behind, rfl, splits⟩ :=
      sorted.exists_splits (key row)
    rw [splits.lookup_eq]
    simp only [join, List.mem_append, Option.mem_toList] at member
    rcases member with (inBefore | inMiddle) | inBehind
    · exact absurd (splits.before_lt row inBefore) (lt_irrefl _)
    · exact inMiddle
    · exact absurd (splits.behind_gt row inBehind) (lt_irrefl _)
  · exact fun found => (lookup_eq_some found).1

/-- Keys of rows are the keys whose lookup succeeds. -/
theorem mem_map_key_iff_isSome :
    wanted ∈ rows.map key ↔ (lookup key rows wanted).isSome := by
  simp [lookup]

end SortedTable
end Library
