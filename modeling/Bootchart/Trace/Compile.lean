import Bootchart.Parsing.Cmdline
import Bootchart.Parsing.ParentMap
import Bootchart.Library.Ascent
import Bootchart.Samples
import Mathlib.Data.Rat.Floor

/-!
# Linking the processes of a trace

`Trace.compile` adds command lines to the processes, looks for a better parent
where a log of parents is there, and turns parent pids into references. The search
for a parent climbs past processes that were not sampled; if it runs into a cycle
of such processes it never returns.
-/

namespace Bootchart

open Library (Text Dict)
open Parsing (Cmdline ParentMap)

/-- `int(process.pid // 1000)`. -/
def Process.realPid (process : Process) : Int :=
  ⌊process.pid / 1000⌋

/-- Take the executable and the arguments from the log of command lines, if it is
there. -/
def Process.mergeCmdline (cmdline : Option (Dict Int Cmdline)) (process : Process) :
    Process :=
  match cmdline.bind (·.get? process.realPid) with
  | some cmd => { process with exe := cmd.exe, args := cmd.args }
  | none => process

/-- The key of a process map equal to a pid. -/
def keyOfPid (processMap : Dict Int Process) (pid : ℚ) : Option Int :=
  if pid.den = 1 ∧ pid.num ∈ processMap.keys then some pid.num else none

/-- `Process.set_parent`, without its warning. -/
def Process.setParent (processMap : Dict Int Process) (process : Process) : Process :=
  { process with parent := (keyOfPid processMap process.ppid).map .mapped }

namespace Trace

/-- `find_parent_id_for`, for a recursion at most `fuel` deep. -/
def findParentIdFor (parentMap : ParentMap) (processMap : Dict Int Process) :
    Nat → Int → Option Int
  | 0, _ => none
  | fuel + 1, pid =>
      if pid = 0 then some 0
      else
        match parentMap.get? pid with
        | none => some 0
        | some ppid =>
            if ppid = 0 then some 0
            else if ppid * 1000 ∉ processMap.keys then
              findParentIdFor parentMap processMap fuel ppid
            else some ppid

/-- A recursion that is deeper never returns. -/
def parentFuel (parentMap : ParentMap) : Nat :=
  parentMap.keys.length + 1

/-- Re-parent a process, if the log of parents is there, unless the search for its
parent does not return. -/
def reparent
    (parentMap : Option ParentMap)
    (processMap : Dict Int Process)
    (process : Process) : Option Process :=
  match parentMap with
  | none => some process
  | some log =>
      (findParentIdFor log processMap (parentFuel log) process.realPid).map
        fun (ppid : Int) =>
          if ppid = 0 then process else { process with ppid := (ppid * 1000 : Int) }

/-- `Trace.compile`: the linked processes, nothing if it does not return. -/
def compile
    (cmdline : Option (Dict Int Cmdline))
    (parentMap : Option ParentMap)
    (psStats : ProcessStats) : Option ProcessStats := do
  let processMap := psStats.processMap.mapValues fun _ => Process.mergeCmdline cmdline
  let processMap ← processMap.mapValues? fun _ => reparent parentMap processMap
  let processMap := processMap.mapValues fun _ => Process.setParent processMap
  let processMap :=
    processMap.mapValues fun _ process => process.calcStats psStats.samplePeriod
  return { psStats with processMap := processMap }

/-! ## The search for a parent -/

section Search

variable (parentMap : ParentMap) (processMap : Dict Int Process)

/-- The process a search goes on with: the logged parent, if it is not sampled. -/
def unsampledParent (pid : Int) : Option Int :=
  if pid = 0 then none
  else (parentMap.get? pid).filter fun ppid =>
    ppid ≠ 0 ∧ ppid * 1000 ∉ processMap.keys

/-- What a search finds at a process: the logged parent, or zero. -/
def foundAt (pid : Int) : Int :=
  if pid = 0 then 0 else (parentMap.get? pid).getD 0

/-- The search climbs along unsampled parents. -/
theorem findParentIdFor_eq (fuel : Nat) (pid : Int) :
    findParentIdFor parentMap processMap fuel pid =
      (Library.climb (unsampledParent parentMap processMap) fuel pid).map
        (foundAt parentMap) := by
  induction fuel generalizing pid with
  | zero => rfl
  | succ fuel inductionHypothesis =>
      cases parent : unsampledParent parentMap processMap pid with
      | some ppid =>
          obtain ⟨notZero, logged⟩ : ¬pid = 0 ∧ (parentMap.get? pid).filter (fun ppid =>
              ppid ≠ 0 ∧ ppid * 1000 ∉ processMap.keys) = some ppid := by
            simpa [unsampledParent] using parent
          obtain ⟨isLogged, unsampled⟩ := Option.filter_eq_some_iff.mp logged
          obtain ⟨notRoot, unsampled⟩ := of_decide_eq_true unsampled
          rw [Library.climb_of_some parent, ← inductionHypothesis, findParentIdFor,
            if_neg notZero, isLogged]
          simp only [if_neg notRoot, if_pos unsampled]
      | none =>
          rw [Library.climb_of_none parent, findParentIdFor, Option.map_some, foundAt]
          split
          · rfl
          next notZero =>
            rw [unsampledParent, if_neg notZero] at parent
            cases logged : parentMap.get? pid with
            | none => rfl
            | some ppid =>
                rw [logged, Option.filter_eq_none_iff] at parent
                have found := parent ppid rfl
                simp only [Option.getD_some]
                split
                next isRoot => rw [isRoot]
                next notRoot =>
                  rw [if_neg fun unsampled => found (decide_eq_true ⟨notRoot, unsampled⟩)]

variable {parentMap processMap} in
/-- Only a process in the log has a logged parent that is not sampled. -/
theorem mem_keys_of_unsampledParent
    {pid ppid : Int}
    (parent : unsampledParent parentMap processMap pid = some ppid) :
    pid ∈ parentMap.keys := by
  unfold unsampledParent at parent
  split at parent
  · contradiction
  · exact Dict.mem_keys.mpr ⟨ppid, (Option.filter_eq_some_iff.mp parent).1⟩

/-- A search that returns does so within its fuel. -/
theorem isSome_findParentIdFor (pid : Int) :
    (findParentIdFor parentMap processMap (parentFuel parentMap) pid).isSome ↔
      Library.Ends (unsampledParent parentMap processMap) pid := by
  rw [findParentIdFor_eq, Option.isSome_map, Option.isSome_iff_exists]
  constructor
  · rintro ⟨top, climbed⟩
    exact ⟨_, top, climbed⟩
  · exact Library.climb_of_ends fun _ _ => mem_keys_of_unsampledParent

end Search

end Trace
end Bootchart
