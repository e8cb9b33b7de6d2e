import Mathlib.Algebra.BigOperators.Group.List.Basic
import Mathlib.Data.List.Nodup
import Mathlib.Tactic.Abel

/-!
# Dictionaries

A dictionary maps keys to values and lists its entries in the order in which
their keys were first set. Each key has one entry; this is part of the type.
-/

namespace Library

/-- A dictionary. -/
structure Dict (κ ν : Type*) where
  /-- The entries, in order. -/
  entries : List (κ × ν)
  /-- Each key has one entry. -/
  nodup : (entries.map Prod.fst).Nodup

namespace Dict

variable {κ ν : Type*}

/-- The empty dictionary. -/
def empty : Dict κ ν where
  entries := []
  nodup := List.nodup_nil

/-- The values, in order. -/
def values (dict : Dict κ ν) : List ν :=
  dict.entries.map Prod.snd

/-- The keys, in order. -/
def keys (dict : Dict κ ν) : List κ :=
  dict.entries.map Prod.fst

/-- Change every value. -/
def mapValues {ω : Type*} (change : κ → ν → ω) (dict : Dict κ ν) : Dict κ ω where
  entries := dict.entries.map fun entry => (entry.1, change entry.1 entry.2)
  nodup := by
    rw [List.map_map]
    exact dict.nodup

/-- Changing the values does not touch the keys. -/
@[simp] theorem keys_mapValues {ω : Type*}
    (change : κ → ν → ω)
    (dict : Dict κ ν) :
    (dict.mapValues change).keys = dict.keys := by
  simp [keys, mapValues]

/-- Change the values that can be changed and drop the others. -/
def filterMapValues {ω : Type*} (change : κ → ν → Option ω) (dict : Dict κ ν) :
    Dict κ ω where
  entries := dict.entries.filterMap fun entry =>
    (change entry.1 entry.2).map fun value => (entry.1, value)
  nodup := by
    refine List.Nodup.sublist ?_ dict.nodup
    induction dict.entries with
    | nil => exact List.Sublist.refl _
    | cons entry entries inductionHypothesis =>
        cases changed : change entry.1 entry.2 with
        | none => simpa [changed] using inductionHypothesis.cons _
        | some value => simpa [changed] using inductionHypothesis

/-- Change every value, unless one cannot be changed. -/
def mapValues? {ω : Type*} (change : κ → ν → Option ω) (dict : Dict κ ν) :
    Option (Dict κ ω) :=
  if dict.entries.all fun entry => (change entry.1 entry.2).isSome then
    some (dict.filterMapValues change)
  else
    none

variable [DecidableEq κ]

/-- The value at a key. -/
def get? (dict : Dict κ ν) (key : κ) : Option ν :=
  (dict.entries.find? (·.1 = key)).map Prod.snd

/-- Set a value in a list of entries. -/
def setIn (key : κ) (value : ν) : List (κ × ν) → List (κ × ν)
  | [] => [(key, value)]
  | entry :: rest =>
      if entry.1 = key then (key, value) :: rest
      else entry :: setIn key value rest

/-- The keys after setting a value. -/
theorem map_fst_setIn (key : κ) (value : ν) (entries : List (κ × ν)) :
    (setIn key value entries).map Prod.fst =
      if key ∈ entries.map Prod.fst then entries.map Prod.fst
      else entries.map Prod.fst ++ [key] := by
  induction entries with
  | nil => rfl
  | cons entry rest inductionHypothesis =>
      by_cases same : entry.1 = key
      · simp [setIn, same]
      · have different : key ≠ entry.1 := fun equal => same equal.symm
        simp only [setIn, if_neg same, List.map_cons, inductionHypothesis,
          List.mem_cons, different, false_or]
        split <;> rfl

/-- Set the value at a key. -/
def set (dict : Dict κ ν) (key : κ) (value : ν) : Dict κ ν where
  entries := setIn key value dict.entries
  nodup := by
    rw [map_fst_setIn]
    split
    · exact dict.nodup
    · rename_i fresh
      rw [List.nodup_append]
      refine ⟨dict.nodup, by simp, ?_⟩
      intro old member new isNew
      rw [List.mem_singleton.mp isNew]
      exact fun same => fresh (same ▸ member)

@[simp] theorem get?_empty (key : κ) : (empty : Dict κ ν).get? key = none := rfl

/-- The entries are the results of looking up keys. -/
theorem mem_entries {dict : Dict κ ν} {key : κ} {value : ν} :
    (key, value) ∈ dict.entries ↔ dict.get? key = some value := by
  obtain ⟨entries, nodup⟩ := dict
  simp only [get?]
  induction entries with
  | nil => simp
  | cons entry rest inductionHypothesis =>
      obtain ⟨fresh, nodupRest⟩ := List.nodup_cons.mp nodup
      by_cases same : entry.1 = key
      · subst same
        have absent : (entry.1, value) ∉ rest := fun member =>
          fresh (List.mem_map.mpr ⟨_, member, rfl⟩)
        simp [absent, Prod.ext_iff, eq_comm]
      · have different : (key, value) ≠ entry := fun equal => same (equal ▸ rfl)
        simp only [List.mem_cons, different, false_or, List.find?_cons, same,
          decide_false]
        exact inductionHypothesis nodupRest

/-- The keys are those with a value. -/
theorem mem_keys {dict : Dict κ ν} {key : κ} :
    key ∈ dict.keys ↔ ∃ value, dict.get? key = some value := by
  simp only [keys, List.mem_map, ← mem_entries]
  constructor
  · rintro ⟨⟨_, value⟩, member, rfl⟩
    exact ⟨value, member⟩
  · rintro ⟨value, member⟩
    exact ⟨(key, value), member, rfl⟩

/-- Looking up after setting a value. -/
theorem get?_set (dict : Dict κ ν) (key : κ) (value : ν) (other : κ) :
    (dict.set key value).get? other =
      if other = key then some value else dict.get? other := by
  obtain ⟨entries, nodup⟩ := dict
  simp only [get?, set]
  clear nodup
  induction entries with
  | nil =>
      by_cases same : key = other
      · simp [setIn, same]
      · simp [setIn, same, Ne.symm same]
  | cons entry rest inductionHypothesis =>
      by_cases here : entry.1 = key
      · by_cases same : key = other
        · simp [setIn, here, same]
        · simp [setIn, here, same, Ne.symm same]
      · by_cases same : entry.1 = other
        · have different : other ≠ key := fun equal => here (same.trans equal)
          simp [setIn, same, different]
        · simp only [setIn, if_neg here, List.find?_cons, same, decide_false]
          exact inductionHypothesis

@[simp] theorem get?_set_self (dict : Dict κ ν) (key : κ) (value : ν) :
    (dict.set key value).get? key = some value := by
  simp [get?_set]

/-- Looking up another key than the one set. -/
theorem get?_set_of_ne
    {key other : κ}
    (different : other ≠ key)
    (dict : Dict κ ν)
    (value : ν) :
    (dict.set key value).get? other = dict.get? other := by
  simp [get?_set, different]

section Fold

variable {α : Type*} {key : α → κ} {value : α → ν}

/-- Setting values under other keys. -/
theorem get?_foldl_set_of_not_mem
    {elements : List α}
    {other : κ}
    (absent : other ∉ elements.map key)
    (dict : Dict κ ν) :
    (elements.foldl (fun dict a => dict.set (key a) (value a)) dict).get? other =
      dict.get? other := by
  induction elements generalizing dict with
  | nil => rfl
  | cons a elements inductionHypothesis =>
      rw [List.map_cons, List.mem_cons, not_or] at absent
      rw [List.foldl_cons, inductionHypothesis absent.2, get?_set_of_ne absent.1]

/-- Setting values under distinct keys. -/
theorem get?_foldl_set
    {elements : List α}
    (distinct : (elements.map key).Nodup)
    {a : α}
    (member : a ∈ elements)
    (dict : Dict κ ν) :
    (elements.foldl (fun dict a => dict.set (key a) (value a)) dict).get? (key a) =
      some (value a) := by
  induction elements generalizing dict with
  | nil => contradiction
  | cons b elements inductionHypothesis =>
      rw [List.map_cons, List.nodup_cons] at distinct
      rw [List.foldl_cons]
      rcases List.mem_cons.mp member with rfl | inRest
      · rw [get?_foldl_set_of_not_mem distinct.1, get?_set_self]
      · exact inductionHypothesis distinct.2 inRest _

end Fold

/-- Setting a value twice. -/
@[simp] theorem set_set (dict : Dict κ ν) (key : κ) (first second : ν) :
    (dict.set key first).set key second = dict.set key second := by
  obtain ⟨entries, nodup⟩ := dict
  simp only [set, mk.injEq]
  clear nodup
  induction entries with
  | nil => simp [setIn]
  | cons entry rest inductionHypothesis =>
      by_cases here : entry.1 = key
      · simp [setIn, here]
      · simp [setIn, here, inductionHypothesis]

/-- Looking up after changing every value. -/
theorem get?_mapValues {ω : Type*}
    (change : κ → ν → ω)
    (dict : Dict κ ν)
    (key : κ) :
    (dict.mapValues change).get? key = (dict.get? key).map (change key) := by
  obtain ⟨entries, nodup⟩ := dict
  simp only [get?, mapValues]
  clear nodup
  induction entries with
  | nil => rfl
  | cons entry rest inductionHypothesis =>
      by_cases same : entry.1 = key
      · simp [same]
      · simpa [same] using inductionHypothesis

/-- Looking up after changing the values that can be changed. -/
theorem get?_filterMapValues {ω : Type*}
    (change : κ → ν → Option ω)
    (dict : Dict κ ν)
    (key : κ) :
    (dict.filterMapValues change).get? key = (dict.get? key).bind (change key) := by
  rw [Option.ext_iff]
  intro value
  rw [Option.bind_eq_some_iff]
  simp only [← mem_entries, filterMapValues, List.mem_filterMap, Option.map_eq_some_iff]
  constructor
  · rintro ⟨⟨_, old⟩, member, _, changed, ⟨⟩⟩
    exact ⟨old, member, changed⟩
  · rintro ⟨old, member, changed⟩
    exact ⟨(key, old), member, value, changed, rfl⟩

/-- Every value was changed. -/
theorem mapValues?_eq_some {ω : Type*}
    {change : κ → ν → Option ω}
    {dict : Dict κ ν}
    {changed : Dict κ ω} :
    dict.mapValues? change = some changed ↔
      (∀ key value, dict.get? key = some value → (change key value).isSome) ∧
        dict.filterMapValues change = changed := by
  unfold mapValues?
  split
  next all =>
    rw [List.all_eq_true] at all
    have present : ∀ key value, dict.get? key = some value →
        (change key value).isSome := fun key value isValue =>
      all (key, value) (mem_entries.mpr isValue)
    exact ⟨fun same => ⟨present, Option.some.inj same⟩, fun both => by rw [both.2]⟩
  next notAll =>
    simp only [reduceCtorEq, false_iff, not_and]
    intro present
    refine absurd (List.all_eq_true.mpr fun entry member => ?_) notAll
    exact present entry.1 entry.2 (mem_entries.mp member)

/-! ## Sums over a dictionary -/

variable {M : Type*} [AddCommMonoid M]

/-- The sum of a value of each entry. -/
def sum (dict : Dict κ ν) (value : κ → ν → M) : M :=
  (dict.entries.map fun entry => value entry.1 entry.2).sum

omit [DecidableEq κ] in
@[simp] theorem sum_empty (value : κ → ν → M) :
    (empty : Dict κ ν).sum value = 0 := rfl

omit [DecidableEq κ] in
/-- The sum behind a change of every value. -/
theorem sum_mapValues {ω : Type*}
    (change : κ → ν → ω)
    (dict : Dict κ ν)
    (value : κ → ω → M) :
    (dict.mapValues change).sum value = dict.sum fun key old => value key (change key old) := by
  rw [sum, mapValues, List.map_map]
  rfl

/-- Setting a value replaces the contribution of its key. -/
theorem sum_set (dict : Dict κ ν) (key : κ) (new : ν) (value : κ → ν → M) :
    (dict.set key new).sum value + ((dict.get? key).map (value key)).getD 0 =
      dict.sum value + value key new := by
  obtain ⟨entries, nodup⟩ := dict
  simp only [sum, set, get?]
  clear nodup
  induction entries with
  | nil => simp [setIn]
  | cons entry rest inductionHypothesis =>
      by_cases here : entry.1 = key
      · subst here
        simp only [setIn, if_pos, List.map_cons, List.sum_cons, List.find?_cons,
          decide_true, Option.map_some, Option.getD_some]
        abel
      · have elsewhere : (decide (entry.1 = key)) = false := decide_eq_false here
        simp only [setIn, if_neg here, List.map_cons, List.sum_cons,
          List.find?_cons, elsewhere]
        rw [add_assoc, inductionHypothesis, add_assoc]

end Dict
end Library
