import Bootchart.Collector.Output
import Bootchart.Library.Run

/-!
# The session of a dumper

`buffers_extract_and_dump` stops the collector, looks for its buffers, and either lets it go on
and tries again, or dumps the buffers and terminates it. Every call may fail. What the calls are
to each other is said by an automaton: what a dumper holds of the collector, and which calls are
in order then.
-/

namespace Bootchart
namespace Collector

open Library (run run_append)

/-- A call of the dumper that concerns the collector, with its outcome. -/
inductive DumperCall
  /-- `ptrace (PTRACE_ATTACH, …)`. -/
  | attach (succeeds : Bool)
  /-- `waitpid`, with whether the collector has stopped then. -/
  | waitpid (stopped : Bool)
  /-- `open` of the memory. -/
  | openMem (succeeds : Bool)
  /-- `find_chunks`, with the map that it finds. -/
  | findChunks (map : Option StackMap)
  /-- `dump_buffers`. -/
  | dumpBuffers (map : StackMap)
  /-- `kill (…, SIGTERM)`. -/
  | kill
  /-- `ptrace (PTRACE_DETACH, …)`. -/
  | detach
  /-- `close` of the memory. -/
  | closeMem
  /-- `access` of the command line, to see whether the collector is still there. -/
  | access (succeeds : Bool)

/-- What the kernel does in one attempt. -/
structure Attempt where
  /-- Attaching succeeds. -/
  attaches : Bool
  /-- `waitpid` succeeds. -/
  waits : Bool
  /-- It reports that the collector has stopped. -/
  stops : Bool
  /-- The memory can be opened. -/
  opens : Bool
  /-- What `find_chunks` finds. -/
  map : Option StackMap
  /-- How often the collector is still there when it is looked for. -/
  lingers : Nat

/-- `open_pid`, with whether it returns a state. -/
def openPid (attempt : Attempt) : List DumperCall × Bool :=
  if !attempt.attaches then ([.attach false], false)
  else if !attempt.waits || !attempt.stops then
    ([.attach true, .waitpid false, .detach], false)
  else if !attempt.opens then
    ([.attach true, .waitpid true, .openMem false, .detach], false)
  else ([.attach true, .waitpid true, .openMem true], true)

/-- `close_pid`. -/
def closePid (avoidKill : Bool) : List DumperCall :=
  (if avoidKill then [] else [.kill]) ++ [.detach, .closeMem]

/-- `close_wait_pid`, which looks for the collector a hundred times at most. -/
def closeWaitPid (attempt : Attempt) (avoidKill : Bool) : List DumperCall :=
  closePid avoidKill ++ List.replicate (min attempt.lingers 100) (.access true) ++
    if attempt.lingers < 100 then [.access false] else []

/-- The loop of `buffers_extract_and_dump`, with so many attempts left: the calls, the dumped
files and the returned value. -/
def extractLoop (files : Bytes → Bytes) (ret : Int) :
    List Attempt → List DumperCall × (Bytes → Bytes) × Int
  | [] => ([], files, ret)
  | attempt :: attempts =>
      let opened := openPid attempt
      if !opened.2 then (opened.1, files, 1)
      else
        match attempt.map with
        | none =>
            let rest := extractLoop files 1 attempts
            (opened.1 ++ .findChunks none :: closePid true ++ rest.1, rest.2)
        | some map =>
            (opened.1 ++ .findChunks (some map) :: .dumpBuffers map :: closeWaitPid attempt false,
              dumpBuffers map files, 0)

/-- `buffers_extract_and_dump`, once the collector is found. -/
def buffersExtractAndDump (attempts : Nat → Attempt) (files : Bytes → Bytes) :
    List DumperCall × (Bytes → Bytes) × Int :=
  extractLoop files 0 ((List.range 8).map attempts)

/-! ## The order of the calls -/

/-- What a dumper holds of the collector. -/
structure Held where
  /-- It traces the collector. -/
  attached : Bool
  /-- The collector has stopped. -/
  stopped : Bool
  /-- The memory is open. -/
  opened : Bool
  /-- The buffers were found. -/
  found : Bool
  /-- They were dumped. -/
  dumped : Bool
  /-- The collector was told to terminate. -/
  signalled : Bool
  deriving DecidableEq

namespace Held

/-- Nothing. -/
def nothing : Held where
  attached := false
  stopped := false
  opened := false
  found := false
  dumped := false
  signalled := false

/-- Nothing any more of a collector whose buffers were dumped. -/
def finished : Held :=
  { nothing with dumped := true, signalled := true }

/-- A call is made when it is in order: the collector is read while it is stopped, dumped once,
terminated only after that and while it is still stopped, and never left behind traced. -/
def step (held : Held) : DumperCall → Option Held
  | .attach succeeds =>
      if !held.attached && !held.opened && !held.dumped then
        some { held with attached := succeeds }
      else none
  | .waitpid stopped =>
      if held.attached && !held.stopped then some { held with stopped := stopped } else none
  | .openMem succeeds =>
      if held.stopped && !held.opened then some { held with opened := succeeds } else none
  | .findChunks map =>
      if held.stopped && held.opened then some { held with found := map.isSome } else none
  | .dumpBuffers _ =>
      if held.stopped && held.opened && held.found && !held.dumped then
        some { held with dumped := true }
      else none
  | .kill =>
      if held.stopped && held.dumped && !held.signalled then
        some { held with signalled := true }
      else none
  | .detach =>
      if held.attached then some { held with attached := false, stopped := false } else none
  | .closeMem =>
      if held.opened && !held.attached then some { held with opened := false, found := false }
      else none
  | .access _ => if held.signalled && !held.attached then some held else none

end Held

namespace Attempt

/-- The buffers are looked for and not found. -/
def Misses (attempt : Attempt) : Prop :=
  (openPid attempt).2 = true ∧ attempt.map = none

/-- The buffers are found. -/
def Finds (attempt : Attempt) (map : StackMap) : Prop :=
  (openPid attempt).2 = true ∧ attempt.map = some map

end Attempt

/-- The calls of `open_pid` are in order, and it leaves nothing behind when it fails. -/
theorem run_openPid (attempt : Attempt) :
    run Held.step Held.nothing (openPid attempt).1 =
      some (if (openPid attempt).2 then
        { Held.nothing with attached := true, stopped := true, opened := true }
      else Held.nothing) := by
  unfold openPid
  split
  · rfl
  · split
    · rfl
    · split
      · rfl
      · rfl

/-- Looking for the collector changes nothing. -/
theorem run_replicate_access (count : Nat) :
    run Held.step Held.finished (List.replicate count (.access true)) = some Held.finished := by
  induction count with
  | zero => rfl
  | succ count inductionHypothesis =>
      rw [List.replicate_succ, Library.run_cons]
      exact inductionHypothesis

/-- The calls behind a dump are in order. -/
theorem run_closeWaitPid (attempt : Attempt) :
    run Held.step
        { Held.finished with
          attached := true, stopped := true, opened := true, found := true, signalled := false }
        (closeWaitPid attempt false) =
      some Held.finished := by
  rw [closeWaitPid, run_append, run_append]
  change ((run Held.step Held.finished _).bind fun _ => _) = _
  rw [run_replicate_access, Option.bind_some]
  split
  · rfl
  · rfl

/-- What the loop does, with attempts left. -/
theorem extractLoop_cases (files : Bytes → Bytes) (attempts : List Attempt) :
    (∃ before attempt behind map, attempts = before ++ attempt :: behind ∧
      (∀ other ∈ before, other.Misses) ∧ attempt.Finds map ∧
      (extractLoop files 1 attempts).2 = (dumpBuffers map files, 0) ∧
      run Held.step Held.nothing (extractLoop files 1 attempts).1 = some Held.finished) ∨
    ((∀ before attempt behind map, attempts = before ++ attempt :: behind →
      (∀ other ∈ before, other.Misses) → ¬attempt.Finds map) ∧
      (extractLoop files 1 attempts).2 = (files, 1) ∧
      run Held.step Held.nothing (extractLoop files 1 attempts).1 = some Held.nothing) := by
  induction attempts with
  | nil => exact Or.inr ⟨by simp, rfl, rfl⟩
  | cons attempt attempts inductionHypothesis =>
      have calls := run_openPid attempt
      rw [extractLoop]
      by_cases opened : (openPid attempt).2 = true
      · rw [if_pos opened] at calls
        rw [opened, Bool.not_true, if_neg Bool.false_ne_true]
        cases found : attempt.map with
        | some map =>
            refine Or.inl ⟨[], attempt, attempts, map, rfl, by simp, ⟨opened, found⟩, rfl, ?_⟩
            dsimp only
            rw [run_append, calls, Option.bind_some]
            exact run_closeWaitPid attempt
        | none =>
            have missed : attempt.Misses := ⟨opened, found⟩
            have again : ∀ rest, run Held.step Held.nothing
                ((openPid attempt).1 ++ .findChunks none :: closePid true ++ rest) =
                  run Held.step Held.nothing rest := by
              intro rest
              rw [List.append_assoc, run_append, calls, Option.bind_some]
              rfl
            dsimp only
            rw [again]
            rcases inductionHypothesis with
              ⟨before, other, behind, map, rfl, misses, finds, result, inOrder⟩ |
              ⟨never, result, inOrder⟩
            · refine Or.inl ⟨attempt :: before, other, behind, map, rfl, ?_, finds, result, inOrder⟩
              exact List.forall_mem_cons.mpr ⟨missed, misses⟩
            · refine Or.inr ⟨?_, result, inOrder⟩
              intro before other behind map split misses finds
              rcases List.cons_eq_append_iff.mp split with ⟨rfl, isOther⟩ | ⟨rest, rfl, isRest⟩
              · obtain ⟨rfl, rfl⟩ := List.cons.inj isOther
                have isNone := missed.2
                rw [finds.2] at isNone
                cases isNone
              · exact never rest other behind map isRest
                  (fun one member => misses one (List.mem_cons_of_mem _ member)) finds
      · rw [Bool.not_eq_true] at opened
        rw [opened, Bool.not_false, if_pos rfl]
        rw [opened, if_neg Bool.false_ne_true] at calls
        refine Or.inr ⟨?_, rfl, calls⟩
        intro before other behind map split misses finds
        rcases List.cons_eq_append_iff.mp split with ⟨rfl, isOther⟩ | ⟨rest, rfl, isRest⟩
        · obtain ⟨rfl, rfl⟩ := List.cons.inj isOther
          rw [finds.1] at opened
          cases opened
        · rw [(misses attempt List.mem_cons_self).1] at opened
          cases opened

/-- Elements of a list of values, and what is in front of them. -/
theorem map_range_split {α : Type*} {size : Nat} {values : Nat → α} {before behind : List α}
    {value : α} (split : (List.range size).map values = before ++ value :: behind) :
    before.length < size ∧ values before.length = value ∧
      ∀ earlier < before.length, values earlier ∈ before := by
  have length := congrArg List.length split
  rw [List.length_map, List.length_range, List.length_append, List.length_cons] at length
  have bound : before.length < size := by omega
  have isValue : ∀ index < size, (before ++ value :: behind)[index]? = some (values index) := by
    intro index inside
    rw [← split, List.getElem?_map, List.getElem?_range inside, Option.map_some]
  refine ⟨bound, ?_, ?_⟩
  · have here := isValue before.length bound
    rw [List.getElem?_append_right (le_refl _), Nat.sub_self, List.getElem?_cons_zero] at here
    exact (Option.some.inj here).symm
  · intro earlier isEarlier
    have there := isValue earlier (by omega)
    rw [List.getElem?_append_left isEarlier] at there
    exact List.mem_of_getElem? there

/-- The values of a range, split at one of them. -/
theorem map_range_eq_append {α : Type*} {size count : Nat} (values : Nat → α)
    (inside : count < size) :
    (List.range size).map values = (List.range count).map values ++ values count ::
      ((List.range (size - count - 1)).map fun index => values (count + 1 + index)) := by
  have sizes : size = count + (1 + (size - count - 1)) := by omega
  conv_lhs => rw [sizes, List.range_add, List.range_add]
  simp [Function.comp_def, Nat.add_assoc]

/-- However the kernel answers, the calls are in order and the collector is let go: either its
buffers were dumped, once, and it was told to terminate after that, or no buffers were found, no
file has changed, and the collector goes on. -/
theorem buffersExtractAndDump_inOrder (attempts : Nat → Attempt) (files : Bytes → Bytes) :
    ((buffersExtractAndDump attempts files).2.2 = 0 ∧
      run Held.step Held.nothing (buffersExtractAndDump attempts files).1 = some Held.finished ∧
      ∃ count map, count < 8 ∧ (∀ earlier < count, (attempts earlier).Misses) ∧
        (attempts count).Finds map ∧
        (buffersExtractAndDump attempts files).2.1 = dumpBuffers map files) ∨
    ((buffersExtractAndDump attempts files).2.2 = 1 ∧
      run Held.step Held.nothing (buffersExtractAndDump attempts files).1 = some Held.nothing ∧
      (buffersExtractAndDump attempts files).2.1 = files ∧
      ∀ count map, count < 8 → (∀ earlier < count, (attempts earlier).Misses) →
        ¬(attempts count).Finds map) := by
  have loop : buffersExtractAndDump attempts files =
      extractLoop files 1 ((List.range 8).map attempts) := rfl
  rw [loop]
  rcases extractLoop_cases files ((List.range 8).map attempts) with
    ⟨before, attempt, behind, map, split, misses, finds, result, inOrder⟩ | ⟨never, result, inOrder⟩
  · obtain ⟨inside, isAttempt, areBefore⟩ := map_range_split split
    rw [result]
    refine Or.inl ⟨rfl, inOrder, before.length, map, inside, ?_, ?_, rfl⟩
    · intro earlier isEarlier
      exact misses _ (areBefore earlier isEarlier)
    · rw [isAttempt]
      exact finds
  · rw [result]
    refine Or.inr ⟨rfl, inOrder, rfl, ?_⟩
    intro count map inside misses
    apply never _ _ _ map (map_range_eq_append attempts inside)
    intro other member
    obtain ⟨earlier, isEarlier, rfl⟩ := List.mem_map.mp member
    exact misses earlier (List.mem_range.mp isEarlier)

end Collector
end Bootchart
