import Bootchart.Trace.Compile

/-!
# The search for a parent

`find_parent_id_for` climbs along the log of parents until it finds a process that was
sampled. It returns the nearest proper ancestor that was, unless it comes into a cycle of
processes that were not, or back to the process itself.
-/

namespace Bootchart
namespace Trace

open Library (Dict Ends)
open Parsing (ParentMap)

/-- The parent in the log. Zero stands for no process. -/
def loggedParent (parentMap : ParentMap) (pid : Int) : Option Int :=
  if pid = 0 then none else (parentMap.get? pid).filter (· ≠ 0)

/-- A process has an entry in the process map. -/
def Sampled (processMap : Dict Int Process) (pid : Int) : Prop :=
  pid * 1000 ∈ processMap.keys

/-- The first process with an entry above another one, as an ancestor of `pid`: the process
itself is passed, as it is no proper ancestor. -/
inductive NearestSampled (parentMap : ParentMap) (processMap : Dict Int Process) (pid : Int) :
    Int → Int → Prop
  /-- The parent has an entry. -/
  | parent {child ppid : Int}
      (isParent : loggedParent parentMap child = some ppid)
      (isSampled : Sampled processMap ppid)
      (isProper : ppid ≠ pid) :
      NearestSampled parentMap processMap pid child ppid
  /-- The parent is passed, and the ancestor is the nearest one above it. -/
  | above {child ppid ancestor : Int}
      (isParent : loggedParent parentMap child = some ppid)
      (isPassed : ¬Sampled processMap ppid ∨ ppid = pid)
      (nearest : NearestSampled parentMap processMap pid ppid ancestor) :
      NearestSampled parentMap processMap pid child ancestor

/-- The nearest ancestor above a process with an entry, zero if there is none. -/
def IsNearest
    (parentMap : ParentMap)
    (processMap : Dict Int Process)
    (pid child result : Int) : Prop :=
  NearestSampled parentMap processMap pid child result ∨
    result = 0 ∧ ∀ ancestor, ¬NearestSampled parentMap processMap pid child ancestor

/-- What the search is for: the nearest proper ancestor with an entry, zero if there is
none. -/
def IsParentId
    (parentMap : ParentMap)
    (processMap : Dict Int Process)
    (pid result : Int) : Prop :=
  IsNearest parentMap processMap pid pid result

/-- A process is reached from another one along logged parents without an entry. -/
def Reached (parentMap : ParentMap) (processMap : Dict Int Process) : Int → Int → Prop :=
  Relation.ReflTransGen fun pid ppid => unsampledParent parentMap processMap pid = some ppid

/-- A process is its own ancestor along logged parents without an entry. -/
def Cyclic (parentMap : ParentMap) (processMap : Dict Int Process) (pid : Int) : Prop :=
  Relation.TransGen (fun pid ppid => unsampledParent parentMap processMap pid = some ppid)
    pid pid

section Search

variable {parentMap : ParentMap} {processMap : Dict Int Process}
variable {pid child ppid result : Int}

/-- The parent in the log, if it is a process. -/
theorem loggedParent_eq_some :
    loggedParent parentMap child = some ppid ↔
      child ≠ 0 ∧ parentMap.get? child = some ppid ∧ ppid ≠ 0 := by
  unfold loggedParent
  split
  next isZero => simp [isZero]
  next notZero => simp [notZero, Option.filter_eq_some_iff]

/-- A search goes on with the logged parent if that has no entry. -/
theorem unsampledParent_eq_some :
    unsampledParent parentMap processMap child = some ppid ↔
      loggedParent parentMap child = some ppid ∧ ¬Sampled processMap ppid := by
  rw [loggedParent_eq_some]
  unfold unsampledParent Sampled
  split
  next isZero => simp [isZero]
  next notZero => simp [notZero, Option.filter_eq_some_iff, and_assoc]

/-- A search that ends at a logged parent returns it. -/
theorem foundAt_of_loggedParent (isParent : loggedParent parentMap child = some ppid) :
    foundAt parentMap child = ppid := by
  obtain ⟨notZero, logged, -⟩ := loggedParent_eq_some.mp isParent
  rw [foundAt, if_neg notZero, logged, Option.getD_some]

/-- Without a parent there is no ancestor. -/
theorem isNearest_zero (noParent : loggedParent parentMap child = none) :
    IsNearest parentMap processMap pid child 0 := by
  refine .inr ⟨rfl, fun ancestor nearest => ?_⟩
  cases nearest with
  | parent isParent => simp [noParent] at isParent
  | above isParent => simp [noParent] at isParent

/-- Above a parent that is passed there is the same nearest ancestor. -/
theorem nearestSampled_above
    (isParent : loggedParent parentMap child = some ppid)
    (isPassed : ¬Sampled processMap ppid ∨ ppid = pid)
    (ancestor : Int) :
    NearestSampled parentMap processMap pid child ancestor ↔
      NearestSampled parentMap processMap pid ppid ancestor := by
  constructor
  · intro nearest
    cases nearest with
    | parent isOther isSampled isProper =>
        obtain rfl := Option.some.inj (isParent.symm.trans isOther)
        exact absurd isPassed (not_or.mpr ⟨not_not.mpr isSampled, isProper⟩)
    | above isOther _ further =>
        obtain rfl := Option.some.inj (isParent.symm.trans isOther)
        exact further
  · exact .above isParent isPassed

/-- A process is not an ancestor of itself that counts. -/
theorem ne_of_nearestSampled
    (nearest : NearestSampled parentMap processMap pid child result) : result ≠ pid := by
  induction nearest with
  | parent _ _ isProper => exact isProper
  | above _ _ _ inductionHypothesis => exact inductionHypothesis

/-- The search finds the nearest ancestor, if it does not come back to the process. -/
theorem isNearest_findParentIdFor
    {fuel : Nat}
    (found : findParentIdFor parentMap processMap fuel child = some result)
    (away : ∀ other, Reached parentMap processMap child other →
      loggedParent parentMap other ≠ some pid) :
    IsNearest parentMap processMap pid child result := by
  fun_induction findParentIdFor parentMap processMap fuel child with
  | case1 => contradiction
  | case2 fuel =>
      obtain rfl := Option.some.inj found
      exact isNearest_zero (if_pos rfl)
  | case3 fuel child notZero missing =>
      obtain rfl := Option.some.inj found
      apply isNearest_zero
      rw [loggedParent, if_neg notZero, missing]
      rfl
  | case4 fuel child notZero noProcess =>
      obtain rfl := Option.some.inj found
      apply isNearest_zero
      rw [loggedParent, if_neg notZero, noProcess]
      rfl
  | case5 fuel child notZero ppid logged isProcess unsampled inductionHypothesis =>
      have isParent := loggedParent_eq_some.mpr ⟨notZero, logged, isProcess⟩
      have goesOn := unsampledParent_eq_some.mpr ⟨isParent, unsampled⟩
      have sameNearest (ancestor : Int) : NearestSampled parentMap processMap pid child ancestor ↔
          NearestSampled parentMap processMap pid ppid ancestor :=
        nearestSampled_above isParent (.inl unsampled) ancestor
      rw [IsNearest, sameNearest, forall_congr' fun ancestor => not_congr (sameNearest ancestor)]
      exact inductionHypothesis found fun other reached => away other (.head goesOn reached)
  | case6 fuel child notZero ppid logged isProcess isSampled =>
      obtain rfl := Option.some.inj found
      have isParent := loggedParent_eq_some.mpr ⟨notZero, logged, isProcess⟩
      refine .inl (.parent isParent (not_not.mp isSampled) ?_)
      rintro rfl
      exact away child .refl isParent

variable (parentMap processMap pid) in
/-- The search returns, with the nearest proper ancestor that has an entry or zero, if and only
if no process that it comes to along parents without an entry is its own ancestor along such
parents, or has the process as its parent. -/
theorem finds_parentId_iff :
    (∃ fuel result, findParentIdFor parentMap processMap fuel pid = some result ∧
        IsParentId parentMap processMap pid result) ↔
      ∀ other, Reached parentMap processMap pid other →
        ¬Cyclic parentMap processMap other ∧ loggedParent parentMap other ≠ some pid := by
  have ends_iff : Ends (unsampledParent parentMap processMap) pid ↔
      ∀ other, Reached parentMap processMap pid other → ¬Cyclic parentMap processMap other :=
    Library.ends_iff_no_cycle fun _ _ => mem_keys_of_unsampledParent
  constructor
  · rintro ⟨fuel, result, found, isParentId⟩ other reached
    rw [findParentIdFor_eq, Option.map_eq_some_iff] at found
    obtain ⟨top, climbed, isFound⟩ := found
    have acyclic := ends_iff.mp ⟨fuel, top, climbed⟩
    refine ⟨acyclic other reached, fun isParent => ?_⟩
    by_cases isSampled : Sampled processMap pid
    · -- The search ends there and returns the process itself.
      have noneAbove : unsampledParent parentMap processMap other = none := by
        rw [Option.eq_none_iff_forall_ne_some]
        intro ppid goesOn
        obtain ⟨isOther, unsampled⟩ := unsampledParent_eq_some.mp goesOn
        obtain rfl := Option.some.inj (isParent.symm.trans isOther)
        exact unsampled isSampled
      obtain rfl := Library.top_eq_of_reached reached noneAbove climbed
      rw [foundAt_of_loggedParent isParent] at isFound
      rcases isParentId with nearest | ⟨isZero, -⟩
      · exact ne_of_nearestSampled nearest isFound.symm
      · exact (loggedParent_eq_some.mp isParent).2.2 (isFound.trans isZero)
    · -- The process is its own ancestor.
      have goesOn := unsampledParent_eq_some.mpr ⟨isParent, isSampled⟩
      exact acyclic pid .refl (.tail' reached goesOn)
  · intro away
    obtain ⟨fuel, top, climbed⟩ := ends_iff.mpr fun other reached => (away other reached).1
    have found : findParentIdFor parentMap processMap fuel pid =
        some (foundAt parentMap top) := by
      rw [findParentIdFor_eq, climbed, Option.map_some]
    exact ⟨fuel, _, found, isNearest_findParentIdFor found fun other reached =>
      (away other reached).2⟩

end Search

/-- A process below two pids that are each other's parents, as when a pid is used again. -/
def crossedPids : ParentMap :=
  ((Dict.empty.set 600 700).set 700 800).set 800 700

/-- The process map with that process only. -/
def oneSampled : Dict Int Process :=
  Dict.empty.set 600000 (Process.new 600000 ['a'] 700000 0)

/-- If the two were not sampled, the search does not return. -/
theorem not_finds_crossedPids :
    600000 ∈ oneSampled.keys ∧
      ¬∃ fuel result, findParentIdFor crossedPids oneSampled fuel 600 = some result ∧
        IsParentId crossedPids oneSampled 600 result := by
  have logged : crossedPids.get? 600 = some 700 ∧ crossedPids.get? 700 = some 800 ∧
      crossedPids.get? 800 = some 700 := by
    refine ⟨?_, ?_, ?_⟩ <;> decide
  have unsampled : 700 * 1000 ∉ oneSampled.keys ∧ 800 * 1000 ∉ oneSampled.keys := by
    constructor <;> decide
  have endless (fuel : Nat) : findParentIdFor crossedPids oneSampled fuel 700 = none ∧
      findParentIdFor crossedPids oneSampled fuel 800 = none := by
    induction fuel with
    | zero => exact ⟨rfl, rfl⟩
    | succ fuel inductionHypothesis =>
        -- Either search goes on with the other process.
        simp only [findParentIdFor, logged, unsampled]
        exact ⟨inductionHypothesis.2, inductionHypothesis.1⟩
  refine ⟨by decide, ?_⟩
  rintro ⟨fuel, result, found, -⟩
  cases fuel with
  | zero => contradiction
  | succ fuel =>
      simp only [findParentIdFor, logged, unsampled] at found
      exact absurd ((endless fuel).1.symm.trans found) (by simp)

end Trace
end Bootchart
