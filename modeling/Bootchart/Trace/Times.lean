import Bootchart.Trace.Init

/-!
# The times to annotate

`Trace.__init__` adds a time for every process that it passes until it finds the first with
one of the names, so that there is one entry for each argument of `annotate` only if the
first process of the map has one of its names, or is the only one.
-/

namespace Bootchart

open Library (Text Dict)

namespace Trace

/-- `times`. -/
def timesOf
    (idle : Option ℚ)
    (annotate : List Text)
    (processMap : Dict Int Process) : List (Option ℚ) :=
  idle :: annotate.flatMap fun procnames => annotated (shortNames procnames) processMap.values

/-- The earliest start of the processes with one of the names, none if there are no such
processes. -/
def IsEarliest (names : List Text) (processes : List Process) : Option ℚ → Prop
  | none => ∀ proc ∈ processes, proc.cmd ∉ names
  | some time =>
      (∃ proc ∈ processes, proc.cmd ∈ names ∧ proc.startTime = time) ∧
        ∀ proc ∈ processes, proc.cmd ∈ names → time ≤ proc.startTime

/-- One entry for the idle time, and one for each argument of `annotate`, in their order. -/
def Aligned
    (idle : Option ℚ)
    (annotate : List Text)
    (processMap : Dict Int Process)
    (times : List (Option ℚ)) : Prop :=
  ∃ entries, times = idle :: entries ∧
    List.Forall₂ (fun procnames entry =>
      IsEarliest (shortNames procnames) processMap.values entry) annotate entries

/-- There is only one process, or the first has one of the names and none of the others
with one of them starts earlier. -/
def FirstStarts (names : List Text) (processes : List Process) : Prop :=
  (∃ proc, processes = [proc]) ∨
    ∃ first rest, processes = first :: rest ∧ first.cmd ∈ names ∧
      ∀ proc ∈ rest, proc.cmd ∈ names → first.startTime ≤ proc.startTime

section Annotated

variable {names : List Text} {processes : List Process}

/-- The first process is found. -/
theorem annotated_of_mem {first : Process} (isNamed : first.cmd ∈ names)
    (rest : List Process) : annotated names (first :: rest) = [some first.startTime] := by
  rw [annotated, if_pos]
  exact List.any_eq_true.mpr ⟨_, isNamed, decide_eq_true rfl⟩

/-- A process that is passed. -/
theorem annotated_of_notMem {first : Process} (notNamed : first.cmd ∉ names)
    (rest : List Process) :
    annotated names (first :: rest) = none :: annotated names rest := by
  rw [annotated, if_neg]
  intro named
  obtain ⟨name, member, same⟩ := List.any_eq_true.mp named
  exact notNamed (of_decide_eq_true same ▸ member)

/-- If there is a process there is an entry. -/
theorem annotated_eq_nil : annotated names processes = [] ↔ processes = [] := by
  cases processes with
  | nil => simp [annotated]
  | cons first rest =>
      by_cases isNamed : first.cmd ∈ names
      · simp [annotated_of_mem isNamed]
      · simp [annotated_of_notMem isNamed]

/-- What is added for one argument is one right entry if and only if the first process with
one of the names is the first of all and the earliest, or there is one process only. -/
theorem annotated_eq_singleton_iff :
    (∃ entry, annotated names processes = [entry] ∧ IsEarliest names processes entry) ↔
      FirstStarts names processes := by
  cases processes with
  | nil => simp [annotated, FirstStarts]
  | cons first rest =>
      by_cases isNamed : first.cmd ∈ names
      · rw [annotated_of_mem isNamed]
        constructor
        · rintro ⟨entry, same, earliest⟩
          obtain rfl := List.singleton_inj.mp same
          exact .inr ⟨first, rest, rfl, isNamed, fun proc member =>
            earliest.2 proc (List.mem_cons_of_mem _ member)⟩
        · intro starts
          refine ⟨_, rfl, ⟨first, List.mem_cons_self, isNamed, rfl⟩, ?_⟩
          rintro proc member isProcNamed
          rcases List.mem_cons.mp member with rfl | inRest
          · exact le_rfl
          · rcases starts with ⟨other, isOnly⟩ | ⟨other, others, same, -, earlier⟩
            · rw [(List.cons.inj isOnly).2] at inRest
              contradiction
            · obtain ⟨rfl, rfl⟩ := List.cons.inj same
              exact earlier proc inRest isProcNamed
      · rw [annotated_of_notMem isNamed]
        constructor
        · rintro ⟨entry, same, -⟩
          obtain ⟨-, noRest⟩ := List.cons.inj same
          rw [annotated_eq_nil] at noRest
          exact .inl ⟨first, by rw [noRest]⟩
        · rintro (⟨other, isOnly⟩ | ⟨other, others, same, isOtherNamed, -⟩)
          · obtain ⟨rfl, rfl⟩ := List.cons.inj isOnly
            refine ⟨none, rfl, ?_⟩
            rintro proc member
            rwa [List.mem_singleton.mp member]
          · obtain ⟨rfl, rfl⟩ := List.cons.inj same
            exact absurd isOtherNamed isNamed

end Annotated

/-- There is one right entry for each argument of `annotate` if and only if the first
process has a name of each and is the earliest with one, or there is one process only. -/
theorem aligned_timesOf_iff
    (idle : Option ℚ)
    (annotate : List Text)
    (processMap : Dict Int Process) :
    Aligned idle annotate processMap (timesOf idle annotate processMap) ↔
      ∀ procnames ∈ annotate, FirstStarts (shortNames procnames) processMap.values := by
  have entries : Aligned idle annotate processMap (timesOf idle annotate processMap) ↔
      List.Forall₂ (fun procnames entry =>
        IsEarliest (shortNames procnames) processMap.values entry) annotate
        (annotate.flatMap fun procnames =>
          annotated (shortNames procnames) processMap.values) := by
    simp [Aligned, timesOf]
  rw [entries]
  by_cases isEmpty : processMap.values = []
  · have noEntries : (annotate.flatMap fun procnames =>
        annotated (shortNames procnames) processMap.values) = [] :=
      List.flatMap_eq_nil_iff.mpr fun _ _ => annotated_eq_nil.mpr isEmpty
    rw [noEntries, List.forall₂_nil_right_iff, isEmpty]
    constructor
    · rintro rfl procnames absent
      contradiction
    · intro starts
      apply List.eq_nil_iff_forall_not_mem.mpr
      intro procnames member
      simpa [FirstStarts] using starts procnames member
  · rw [Library.forall₂_flatMap_iff fun _ _ => mt annotated_eq_nil.mp isEmpty]
    exact forall₂_congr fun _ _ => annotated_eq_singleton_iff

/-- The times of a trace. -/
theorem times_init
    {paths : List Text}
    {files : List File}
    {options : Options}
    {made : Made}
    (isMade : init paths files options = .ok made) :
    ∃ idle, made.times = timesOf idle options.annotate made.stats.psStats.processMap := by
  obtain ⟨state, stats, idle, -, -, -, -, isTimes, -⟩ := init_eq_ok isMade
  exact ⟨idle, isTimes⟩

/-- Two processes. -/
def twoStarts : Dict Int Process :=
  (Dict.empty.set 1000 (Process.new 1000 ['a'] 0 0)).set 2000 (Process.new 2000 ['b'] 0 5)

/-- There are two entries for the second one. -/
theorem not_aligned_twoStarts :
    ¬Aligned none [['b']] twoStarts (timesOf none [['b']] twoStarts) := by
  rintro ⟨entries, same, related⟩
  have isOnly := related.length_eq
  have number := congrArg List.length same
  rw [List.length_cons, ← isOnly] at number
  exact absurd number (by decide +kernel)

end Trace
end Bootchart
