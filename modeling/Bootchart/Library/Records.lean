import Mathlib.Data.List.Basic

/-!
# Records in a row

Records lie one behind the other in a memory, each as long as its header says and each at a
multiple of four behind the first.
-/

namespace Library

/-- A length rounded up to a multiple of four. -/
def align4 (length : ℕ) : ℕ := (length + 3) / 4 * 4

/-- Rounded up, a length is less than four more. -/
theorem align4_bounds (length : ℕ) : length ≤ align4 length ∧ align4 length < length + 4 := by
  rw [align4]
  omega

/-- What the headers of records say. -/
structure Layout where
  /-- The length of a header. -/
  header : ℕ
  /-- A header is not empty. -/
  header_pos : 0 < header
  /-- The length of the record at a place, with its header. -/
  lengthAt : ℕ → ℕ

namespace Layout

variable (layout : Layout)

/-- The place behind the record at a place. -/
def next (place : ℕ) : ℕ := place + align4 (layout.lengthAt place)

/-- A record is at a place, and ends before the bytes do. -/
def IsRecord (stop place : ℕ) : Prop :=
  layout.header ≤ layout.lengthAt place ∧ place + layout.lengthAt place ≤ stop

instance (stop place : ℕ) : Decidable (layout.IsRecord stop place) :=
  inferInstanceAs (Decidable (_ ∧ _))

variable {layout} {stop place : ℕ}

/-- Behind a record is a later place. -/
theorem IsRecord.lt_next (isRecord : layout.IsRecord stop place) : place < layout.next place := by
  have positive := layout.header_pos
  have long := isRecord.1
  have aligned := (align4_bounds (layout.lengthAt place)).1
  rw [next]
  omega

/-- A record has its header before the end. -/
theorem IsRecord.header_le (isRecord : layout.IsRecord stop place) :
    place + layout.header ≤ stop :=
  Nat.le_trans (Nat.add_le_add_left isRecord.1 place) isRecord.2

/-- A record begins before the end. -/
theorem IsRecord.lt (isRecord : layout.IsRecord stop place) : place < stop := by
  have positive := layout.header_pos
  have inside := isRecord.header_le
  omega

variable (layout) (stop place)

/-- The places of the records from a place on, up to where there is none. -/
def recordsFrom (place : ℕ) : List ℕ :=
  if _ : layout.IsRecord stop place then place :: recordsFrom (layout.next place) else []
termination_by stop - place
decreasing_by
  have isRecord : layout.IsRecord stop place := by assumption
  have later := isRecord.lt_next
  have before := isRecord.lt
  omega

/-- From a place on there are only records. -/
inductive Filled : ℕ → Prop
  /-- Nothing is left. -/
  | ended (place : ℕ) (isEnd : stop ≤ place) : Filled place
  /-- A record is there, and behind it only records. -/
  | record (place : ℕ) (isRecord : layout.IsRecord stop place)
      (rest : Filled (layout.next place)) : Filled place

variable {layout} {stop place}

/-- The first record and those behind it. -/
theorem recordsFrom_of_isRecord (isRecord : layout.IsRecord stop place) :
    layout.recordsFrom stop place = place :: layout.recordsFrom stop (layout.next place) := by
  rw [recordsFrom, dif_pos isRecord]

/-- Where no record is, none is behind it. -/
theorem recordsFrom_of_not_isRecord (isNone : ¬layout.IsRecord stop place) :
    layout.recordsFrom stop place = [] := by
  rw [recordsFrom, dif_neg isNone]

/-- Behind the end there is no record. -/
theorem recordsFrom_of_le (isEnd : stop ≤ place) : layout.recordsFrom stop place = [] :=
  recordsFrom_of_not_isRecord fun isRecord => absurd isRecord.lt (Nat.not_lt.mpr isEnd)

/-- The records are not before the first place. -/
theorem le_of_mem_recordsFrom {record : ℕ} (isRecord : record ∈ layout.recordsFrom stop place) :
    place ≤ record := by
  induction isLeft : stop - place using Nat.strongRecOn generalizing place with
  | _ left inductionHypothesis =>
  by_cases here : layout.IsRecord stop place
  · rw [recordsFrom_of_isRecord here, List.mem_cons] at isRecord
    rcases isRecord with rfl | behind
    · exact Nat.le_refl _
    · have later := here.lt_next
      have before := here.lt
      exact Nat.le_trans (Nat.le_of_lt later) (inductionHypothesis _ (by omega) behind rfl)
  · rw [recordsFrom_of_not_isRecord here] at isRecord
    exact absurd isRecord List.not_mem_nil

/-- Where only records are, one is at each place before the end. -/
theorem Filled.isRecord (filled : layout.Filled stop place) (before : place < stop) :
    layout.IsRecord stop place := by
  cases filled with
  | ended _ isEnd => omega
  | record _ isRecord _ => exact isRecord

/-- Where only records are, there are only records behind one. -/
theorem Filled.rest (filled : layout.Filled stop place) (before : place < stop) :
    layout.Filled stop (layout.next place) := by
  cases filled with
  | ended _ isEnd => omega
  | record _ _ rest => exact rest

end Layout
end Library
