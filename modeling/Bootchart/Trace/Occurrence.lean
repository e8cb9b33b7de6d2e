import Bootchart.ProcessTree.Build
import Bootchart.Trace.Compile

/-!
# Every process in the tree

After linking and building, every process of the list occurs once in the tree if and
only if every search for a parent ends and no process is its own ancestor along the
parents that are found.
-/

namespace Bootchart
namespace Trace

open Library (Dict Forest Ends climb)
open Parsing (Cmdline ParentMap)
open ProcessTree (objects processIds sortByPid tree)

/-- The search for the parent of a process ends: it does not run into a cycle of
processes that were not sampled. -/
def SearchEnds
    (parentMap : Option ParentMap)
    (processMap : Dict Int Process)
    (process : Process) : Prop :=
  ∀ log ∈ parentMap, Ends (unsampledParent log processMap) process.realPid

/-- The pid of the parent of a process: the nearest sampled ancestor in the log of
parents if there is one, else the one that was logged with the process. -/
def ResolvedPpid
    (parentMap : Option ParentMap)
    (processMap : Dict Int Process)
    (process : Process)
    (ppid : ℚ) : Prop :=
  match parentMap with
  | none => ppid = process.ppid
  | some log =>
      ∃ fuel top, climb (unsampledParent log processMap) fuel process.realPid = some top ∧
        ppid = if foundAt log top = 0 then process.ppid else (foundAt log top * 1000 : Int)

/-- The process under a key has the one under another as parent. -/
def ParentKey
    (parentMap : Option ParentMap)
    (processMap : Dict Int Process)
    (key parent : Int) : Prop :=
  ∃ process ppid, processMap.get? key = some process ∧
    ResolvedPpid parentMap processMap process ppid ∧
      keyOfPid processMap ppid = some parent

/-- The list of processes of a tree. -/
def processList (kernel : List Process) (processMap : Dict Int Process) :
    List ProcessId :=
  sortByPid (objects kernel processMap) (processIds kernel processMap)

/-- Linking returns, and every process of the list occurs in the tree once. -/
def OccurOnce
    (kernel : List Process)
    (cmdline : Option (Dict Int Cmdline))
    (parentMap : Option ParentMap)
    (psStats : ProcessStats) : Prop :=
  ∃ linked, compile cmdline parentMap psStats = some linked ∧
    ∀ proc ∈ processList kernel linked.processMap,
      (tree (objects kernel linked.processMap)
        (processList kernel linked.processMap)).toList.count proc = 1

/-! ## What linking does -/

section Linking

variable {cmdline : Option (Dict Int Cmdline)} {parentMap : Option ParentMap}
variable {psStats linked : ProcessStats}

/-- Command lines change neither the pid nor the parent. -/
theorem mergeCmdline_pid (cmdline : Option (Dict Int Cmdline)) (process : Process) :
    (process.mergeCmdline cmdline).pid = process.pid ∧
      (process.mergeCmdline cmdline).ppid = process.ppid := by
  unfold Process.mergeCmdline
  split <;> exact ⟨rfl, rfl⟩

/-- Statistics do not change the parent. -/
theorem calcStats_parent (process : Process) (samplePeriod : ℚ) :
    (process.calcStats samplePeriod).parent = process.parent := by
  unfold Process.calcStats
  simp only
  split <;> rfl

/-- What a process is searched for and found depends on the keys of the map alone. -/
theorem unsampledParent_congr
    {first second : Dict Int Process}
    (sameKeys : ∀ key, key ∈ first.keys ↔ key ∈ second.keys)
    (log : ParentMap) :
    unsampledParent log first = unsampledParent log second := by
  funext pid
  simp only [unsampledParent, sameKeys]

/-- The search depends on the pid and the keys alone. -/
theorem searchEnds_congr
    {first second : Dict Int Process}
    (sameKeys : ∀ key, key ∈ first.keys ↔ key ∈ second.keys)
    {process other : Process}
    (samePid : process.pid = other.pid) :
    SearchEnds parentMap first process ↔ SearchEnds parentMap second other := by
  simp only [SearchEnds, unsampledParent_congr sameKeys, Process.realPid, samePid]

/-- So does the parent that is found, apart from the one logged with the process. -/
theorem resolvedPpid_congr
    {first second : Dict Int Process}
    (sameKeys : ∀ key, key ∈ first.keys ↔ key ∈ second.keys)
    {process other : Process}
    (samePid : process.pid = other.pid)
    (samePpid : process.ppid = other.ppid)
    (ppid : ℚ) :
    ResolvedPpid parentMap first process ppid ↔
      ResolvedPpid parentMap second other ppid := by
  cases parentMap with
  | none => simp only [ResolvedPpid, samePpid]
  | some log =>
      simp only [ResolvedPpid, unsampledParent_congr sameKeys, Process.realPid, samePid,
        samePpid]

/-- A process is re-parented if the search for its parent ends. -/
theorem isSome_reparent
    (parentMap : Option ParentMap)
    (processMap : Dict Int Process)
    (process : Process) :
    (reparent parentMap processMap process).isSome ↔
      SearchEnds parentMap processMap process := by
  cases parentMap with
  | none => simp [reparent, SearchEnds]
  | some log =>
      rw [reparent, Option.isSome_map, isSome_findParentIdFor]
      simp [SearchEnds]

/-- A process is re-parented to the parent that is found. -/
theorem resolvedPpid_of_reparent
    {processMap : Dict Int Process}
    {process reparented : Process}
    (found : reparent parentMap processMap process = some reparented)
    (ppid : ℚ) :
    ResolvedPpid parentMap processMap process ppid ↔ reparented.ppid = ppid := by
  cases parentMap with
  | none =>
      obtain rfl := Option.some.inj found
      exact eq_comm
  | some log =>
      rw [reparent, findParentIdFor_eq, Option.map_map, Option.map_eq_some_iff] at found
      obtain ⟨top, climbed, rfl⟩ := found
      have unique : ∀ fuel other, climb (unsampledParent log processMap) fuel
          process.realPid = some other → other = top := by
        intro fuel other climbedOther
        exact Library.climb_unique climbedOther climbed
      constructor
      · rintro ⟨fuel, other, climbedOther, rfl⟩
        obtain rfl := unique fuel other climbedOther
        simp only [Function.comp_apply]
        split <;> rfl
      · intro isPpid
        refine ⟨_, top, climbed, ?_⟩
        rw [← isPpid]
        simp only [Function.comp_apply]
        split <;> rfl

/-- The processes with their command lines. -/
def merged (cmdline : Option (Dict Int Cmdline)) (psStats : ProcessStats) :
    Dict Int Process :=
  psStats.processMap.mapValues fun _ => Process.mergeCmdline cmdline

/-- Command lines do not change the keys. -/
theorem mem_keys_merged {c : Option (Dict Int Cmdline)} (key : Int) :
    key ∈ (merged c psStats).keys ↔ key ∈ psStats.processMap.keys := by
  rw [merged, Dict.keys_mapValues]

/-- Linking returns if and only if every search for a parent ends. -/
theorem isSome_compile :
    (compile cmdline parentMap psStats).isSome ↔
      ∀ key process, psStats.processMap.get? key = some process →
        SearchEnds parentMap psStats.processMap process := by
  have searches : (compile cmdline parentMap psStats).isSome ↔
      ∀ key process, (merged cmdline psStats).get? key = some process →
        (reparent parentMap (merged cmdline psStats) process).isSome := by
    rw [Option.isSome_iff_exists]
    constructor
    · rintro ⟨linked, compiled⟩
      obtain ⟨reparented, found, -⟩ := Option.bind_eq_some_iff.mp compiled
      exact (Dict.mapValues?_eq_some.mp found).1
    · intro all
      exact ⟨_, Option.bind_eq_some_iff.mpr
        ⟨_, Dict.mapValues?_eq_some.mpr ⟨all, rfl⟩, rfl⟩⟩
  rw [searches]
  apply forall_congr'
  intro key
  simp only [isSome_reparent, merged, Dict.get?_mapValues, Option.map_eq_some_iff,
    forall_exists_index, and_imp, forall_apply_eq_imp_iff₂]
  refine forall_congr' fun process => imp_congr_right fun _ => ?_
  exact searchEnds_congr mem_keys_merged (mergeCmdline_pid cmdline process).1

/-- The keys and values after linking. -/
theorem get?_compile (compiled : compile cmdline parentMap psStats = some linked) :
    ∃ reparented : Dict Int Process,
      (∀ key, key ∈ reparented.keys ↔ key ∈ psStats.processMap.keys) ∧
      linked.processMap.keys = reparented.keys ∧
      ∀ key, linked.processMap.get? key =
        (psStats.processMap.get? key).bind fun process =>
          (reparent parentMap (merged cmdline psStats) (process.mergeCmdline cmdline)).map
            fun process =>
              (process.setParent reparented).calcStats psStats.samplePeriod := by
  obtain ⟨reparented, found, same⟩ := Option.bind_eq_some_iff.mp compiled
  obtain ⟨present, isReparented⟩ := Dict.mapValues?_eq_some.mp found
  obtain rfl := Option.some.inj same
  change ∀ key value, (merged cmdline psStats).get? key = some value → _ at present
  have lookedUp : ∀ key, reparented.get? key =
      ((merged cmdline psStats).get? key).bind
        (reparent parentMap (merged cmdline psStats)) := fun key => by
    rw [← isReparented, Dict.get?_filterMapValues]
    rfl
  refine ⟨reparented, fun key => ?_, by simp, fun key => ?_⟩
  · refine Iff.trans ?_ (mem_keys_merged (c := cmdline) key)
    rw [Dict.mem_keys, Dict.mem_keys]
    constructor
    · rintro ⟨value, isValue⟩
      rw [lookedUp, Option.bind_eq_some_iff] at isValue
      obtain ⟨process, isProcess, -⟩ := isValue
      exact ⟨process, isProcess⟩
    · rintro ⟨process, isProcess⟩
      obtain ⟨value, isValue⟩ := Option.isSome_iff_exists.mp (present key process isProcess)
      exact ⟨value, by rw [lookedUp, isProcess]; exact isValue⟩
  · simp only [Dict.get?_mapValues, lookedUp, merged]
    cases psStats.processMap.get? key with
    | none => rfl
    | some process => simp [Option.map_map, Function.comp_def]

/-- Linking does not change the keys. -/
theorem mem_keys_compile
    (compiled : compile cmdline parentMap psStats = some linked)
    (key : Int) :
    key ∈ linked.processMap.keys ↔ key ∈ psStats.processMap.keys := by
  obtain ⟨reparented, keys, same, -⟩ := get?_compile compiled
  rw [same, keys]

/-- After linking a process refers to the parent that is found. -/
theorem parent_compile
    (compiled : compile cmdline parentMap psStats = some linked)
    {key : Int}
    {process : Process}
    (isProcess : linked.processMap.get? key = some process)
    (parent : ProcessId) :
    process.parent = some parent ↔ ∃ parentKey, parent = .mapped parentKey ∧
      ParentKey parentMap psStats.processMap key parentKey := by
  obtain ⟨reparented, keys, -, lookedUp⟩ := get?_compile compiled
  rw [lookedUp, Option.bind_eq_some_iff] at isProcess
  obtain ⟨original, isOriginal, isLinked⟩ := isProcess
  obtain ⟨found, isFound, rfl⟩ := Option.map_eq_some_iff.mp isLinked
  have sameKey : ∀ ppid, keyOfPid reparented ppid = keyOfPid psStats.processMap ppid := by
    intro ppid
    simp only [keyOfPid, keys]
  have resolved : ∀ ppid, ResolvedPpid parentMap psStats.processMap original ppid ↔
      found.ppid = ppid := fun ppid =>
    (resolvedPpid_congr mem_keys_merged (mergeCmdline_pid cmdline original).1
      (mergeCmdline_pid cmdline original).2 ppid).symm.trans
        (resolvedPpid_of_reparent isFound ppid)
  rw [calcStats_parent, Process.setParent, Option.map_eq_some_iff, sameKey]
  constructor
  · rintro ⟨parentKey, isKey, rfl⟩
    exact ⟨parentKey, rfl, original, found.ppid, isOriginal, (resolved _).mpr rfl, isKey⟩
  · rintro ⟨parentKey, rfl, other, ppid, isOther, isResolved, isKey⟩
    obtain rfl := Option.some.inj (isOriginal.symm.trans isOther)
    exact ⟨parentKey, (resolved ppid).mp isResolved ▸ isKey, rfl⟩

end Linking

/-! ## The tree -/

section Tree

variable {kernel : List Process} {processMap : Dict Int Process}

/-- The list has each process once. -/
theorem nodup_processList : (processList kernel processMap).Nodup := by
  rw [processList, sortByPid, (List.mergeSort_perm _ _).nodup_iff]
  exact ProcessTree.nodup_processIds kernel processMap

/-- The processes of the list. -/
theorem mem_processList {proc : ProcessId} :
    proc ∈ processList kernel processMap ↔
      (∃ index < kernel.length, proc = .kernel index) ∨
        ∃ key ∈ processMap.keys, proc = .mapped key := by
  rw [processList, sortByPid, (List.mergeSort_perm _ _).mem_iff, processIds]
  simp [eq_comm]

/-- Processes of the kernel log have no parents, and those that are not there neither. -/
theorem parent_objects_kernel
    (unlinked : ∀ process ∈ kernel, process.parent = none)
    (index : Nat) :
    (objects kernel processMap (.kernel index)).parent = none := by
  rw [objects, List.getD_eq_getElem?_getD]
  cases present : kernel[index]? with
  | none => rfl
  | some process => exact unlinked process (List.mem_of_getElem? present)

/-- A process of the map refers to its parent. -/
theorem parent_objects_mapped (key : Int) (parent : ProcessId) :
    (objects kernel processMap (.mapped key)).parent = some parent ↔
      ∃ process, processMap.get? key = some process ∧ process.parent = some parent := by
  rw [objects]
  cases processMap.get? key with
  | none => simp [Process.new]
  | some process => simp

end Tree

section Main

variable {kernel : List Process} {cmdline : Option (Dict Int Cmdline)}
variable {parentMap : Option ParentMap} {psStats linked : ProcessStats}

/-- The parent of an object after linking. -/
theorem parent_linked
    (unlinked : ∀ process ∈ kernel, process.parent = none)
    (compiled : compile cmdline parentMap psStats = some linked)
    (proc parent : ProcessId) :
    (objects kernel linked.processMap proc).parent = some parent ↔
      ∃ key parentKey, proc = .mapped key ∧ parent = .mapped parentKey ∧
        ParentKey parentMap psStats.processMap key parentKey := by
  cases proc with
  | kernel index =>
      rw [parent_objects_kernel unlinked]
      simp
  | mapped key =>
      rw [parent_objects_mapped]
      constructor
      · rintro ⟨process, isProcess, isParent⟩
        obtain ⟨parentKey, rfl, isKey⟩ :=
          (parent_compile compiled isProcess parent).mp isParent
        exact ⟨key, parentKey, rfl, rfl, isKey⟩
      · rintro ⟨_, parentKey, ⟨⟩, rfl, isKey⟩
        have ⟨original, _, isOriginal, _⟩ := isKey
        obtain ⟨process, isProcess⟩ := Dict.mem_keys.mp
          ((mem_keys_compile compiled key).mpr (Dict.mem_keys.mpr ⟨original, isOriginal⟩))
        exact ⟨process, isProcess,
          (parent_compile compiled isProcess _).mpr ⟨parentKey, rfl, isKey⟩⟩

/-- The ancestors of a process of the map are processes of the map. -/
theorem transGen_linked
    (unlinked : ∀ process ∈ kernel, process.parent = none)
    (compiled : compile cmdline parentMap psStats = some linked)
    {key : Int}
    {ancestor : ProcessId} :
    Relation.TransGen (fun proc parent =>
        (objects kernel linked.processMap proc).parent = some parent)
      (.mapped key) ancestor ↔
      ∃ ancestorKey, ancestor = .mapped ancestorKey ∧
        Relation.TransGen (ParentKey parentMap psStats.processMap) key ancestorKey := by
  constructor
  · intro path
    induction path with
    | single isParent =>
        obtain ⟨_, parentKey, ⟨⟩, rfl, isKey⟩ :=
          (parent_linked unlinked compiled _ _).mp isParent
        exact ⟨parentKey, rfl, .single isKey⟩
    | tail _ isParent inductionHypothesis =>
        obtain ⟨middle, rfl, before⟩ := inductionHypothesis
        obtain ⟨_, parentKey, ⟨⟩, rfl, isKey⟩ :=
          (parent_linked unlinked compiled _ _).mp isParent
        exact ⟨parentKey, rfl, .tail before isKey⟩
  · rintro ⟨ancestorKey, rfl, path⟩
    exact path.lift ProcessId.mapped fun child parent isKey =>
      (parent_linked unlinked compiled _ _).mpr ⟨child, parent, rfl, rfl, isKey⟩

/-- All climbs along the references end if and only if no process is its own ancestor
along the parents that are found. -/
theorem ends_linked
    (unlinked : ∀ process ∈ kernel, process.parent = none)
    (compiled : compile cmdline parentMap psStats = some linked) :
    (∀ proc, Ends (fun proc => (objects kernel linked.processMap proc).parent) proc) ↔
      ∀ key, ¬Relation.TransGen (ParentKey parentMap psStats.processMap) key key := by
  have closed : ∀ proc parent,
      (objects kernel linked.processMap proc).parent = some parent →
        proc ∈ psStats.processMap.keys.map ProcessId.mapped := by
    intro proc parent isParent
    obtain ⟨key, _, rfl, -, original, -, isOriginal, -⟩ :=
      (parent_linked unlinked compiled proc parent).mp isParent
    exact List.mem_map_of_mem (Dict.mem_keys.mpr ⟨original, isOriginal⟩)
  rw [Library.ends_iff_acyclic closed]
  constructor
  · intro acyclic key cycle
    exact acyclic (.mapped key) ((transGen_linked unlinked compiled).mpr ⟨key, rfl, cycle⟩)
  · intro acyclic proc cycle
    cases proc with
    | kernel index =>
        obtain ⟨parent, isParent, -⟩ := Relation.TransGen.head'_iff.mp cycle
        rw [parent_objects_kernel unlinked] at isParent
        exact nomatch isParent
    | mapped key =>
        obtain ⟨_, ⟨⟩, keyCycle⟩ := (transGen_linked unlinked compiled).mp cycle
        exact acyclic key keyCycle

/-- The processes occur in the tree once if and only if all climbs along their
references end. -/
theorem count_tree_linked
    (unlinked : ∀ process ∈ kernel, process.parent = none)
    (compiled : compile cmdline parentMap psStats = some linked) :
    (∀ proc ∈ processList kernel linked.processMap,
      (tree (objects kernel linked.processMap)
        (processList kernel linked.processMap)).toList.count proc = 1) ↔
      ∀ proc, Ends (fun proc => (objects kernel linked.processMap proc).parent) proc := by
  have closed : ∀ proc ∈ processList kernel linked.processMap, ∀ parent,
      (objects kernel linked.processMap proc).parent = some parent →
        parent ∈ processList kernel linked.processMap := by
    intro proc _ parent isParent
    obtain ⟨key, parentKey, -, rfl, _, ppid, -, -, isKey⟩ :=
      (parent_linked unlinked compiled proc parent).mp isParent
    unfold keyOfPid at isKey
    split at isKey
    next inMap =>
      obtain rfl := Option.some.inj isKey
      exact mem_processList.mpr
        (Or.inr ⟨_, (mem_keys_compile compiled _).mpr inMap.2, rfl⟩)
    next => exact nomatch isKey
  constructor
  · intro once proc
    by_cases member : proc ∈ processList kernel linked.processMap
    · exact (ProcessTree.count_tree nodup_processList closed member).mp (once proc member)
    · apply Library.ends_of_none
      rw [Option.eq_none_iff_forall_ne_some]
      intro parent isParent
      obtain ⟨key, _, rfl, -, original, -, isOriginal, -⟩ :=
        (parent_linked unlinked compiled proc parent).mp isParent
      exact member (mem_processList.mpr (Or.inr ⟨key, (mem_keys_compile compiled key).mpr
        (Dict.mem_keys.mpr ⟨original, isOriginal⟩), rfl⟩))
  · intro ends proc member
    exact (ProcessTree.count_tree nodup_processList closed member).mpr (ends proc)

/-- Linking returns and every process occurs in the tree once if and only if every
search for a parent ends and no process is its own ancestor along the parents that
are found. -/
theorem occurOnce_iff
    (unlinked : ∀ process ∈ kernel, process.parent = none) :
    OccurOnce kernel cmdline parentMap psStats ↔
      (∀ key process, psStats.processMap.get? key = some process →
        SearchEnds parentMap psStats.processMap process) ∧
      ∀ key, ¬Relation.TransGen (ParentKey parentMap psStats.processMap) key key := by
  have returns : (compile cmdline parentMap psStats).isSome ↔ _ := isSome_compile
  rw [← returns, Option.isSome_iff_exists]
  constructor
  · rintro ⟨linked, compiled, once⟩
    exact ⟨⟨linked, compiled⟩, (ends_linked unlinked compiled).mp
      ((count_tree_linked unlinked compiled).mp once)⟩
  · rintro ⟨⟨linked, compiled⟩, acyclic⟩
    exact ⟨linked, compiled, (count_tree_linked unlinked compiled).mpr
      ((ends_linked unlinked compiled).mpr acyclic)⟩

end Main

/-- The process `init` and two others. -/
def threeProcesses : ProcessStats where
  processMap := ((Dict.empty.set 1000 (Process.new 1000 ['i'] 0 0)).set 2000
    (Process.new 2000 ['a'] 1000 0)).set 3000 (Process.new 3000 ['b'] 2000 0)
  sampleCount := 2
  samplePeriod := 1
  startTime := 0
  endTime := 1

/-- A log of parents: the parent of 3 is 7, which was not sampled, and whose parent is 2. -/
def forkedParents : ParentMap :=
  (((Dict.empty.set 0 0).set 2 1).set 7 2).set 3 7

/-- With this log of parents they occur in the tree once. -/
theorem occurOnce_forkedParents :
    Parsing.parsePaternityLog
        (Library.Utf8.encode
          ['2', ' ', '1', '\n', '7', ' ', '2', '\n', '3', ' ', '7', '\n']) =
        .ok forkedParents ∧
      OccurOnce [Process.new 0 ['k'] 0 0] none (some forkedParents) threeProcesses := by
  constructor
  · rw [Parsing.parsePaternityLog, Parsing.decodeUtf8, Library.Utf8.decode_encode]
    rfl
  let processMap := threeProcesses.processMap
  let search (process : Process) : Option Int :=
    climb (unsampledParent forkedParents processMap) 2 process.realPid
  let parent (process : Process) (top : Int) : Option Int :=
    keyOfPid processMap (if foundAt forkedParents top = 0 then process.ppid
      else (foundAt forkedParents top * 1000 : Int))
  have ends : ∀ entry ∈ processMap.entries, (search entry.2).isSome := by
    decide +kernel
  have upwards : ∀ entry ∈ processMap.entries, ∀ top ∈ search entry.2,
      ∀ found ∈ parent entry.2 top, found < entry.1 := by
    decide +kernel
  have below : ∀ key found, ParentKey (some forkedParents) processMap key found → found < key := by
    rintro key found ⟨process, ppid, isProcess, ⟨fuel, top, climbed, rfl⟩, isKey⟩
    have member := Dict.mem_entries.mpr isProcess
    obtain ⟨other, isTop⟩ := Option.isSome_iff_exists.mp (ends _ member)
    obtain rfl := Library.climb_unique climbed isTop
    exact upwards _ member top isTop found isKey
  refine (occurOnce_iff (by simp [Process.new])).mpr ⟨fun key process isProcess => ?_, ?_⟩
  · rintro _ ⟨⟩
    obtain ⟨top, isTop⟩ := Option.isSome_iff_exists.mp (ends _ (Dict.mem_entries.mpr isProcess))
    exact ⟨2, top, isTop⟩
  · intro key cycle
    have less : ∀ ancestor, Relation.TransGen (ParentKey (some forkedParents) processMap) key
        ancestor → ancestor < key := by
      intro ancestor path
      induction path with
      | single isParent => exact below _ _ isParent
      | tail _ isParent inductionHypothesis =>
          exact (below _ _ isParent).trans inductionHypothesis
    exact lt_irrefl _ (less key cycle)

/-- A log in which a pid was used again: 2 is a child of 3 and 3 a child of 2. -/
def reusedPids : ParentMap :=
  ((Dict.empty.set 0 0).set 2 3).set 3 2

/-- With this log of parents, two processes do not occur in the tree. -/
theorem not_occurOnce_reusedPids :
    Parsing.parsePaternityLog
        (Library.Utf8.encode ['2', ' ', '3', '\n', '3', ' ', '2', '\n']) = .ok reusedPids ∧
      ¬OccurOnce [] none (some reusedPids) threeProcesses := by
  constructor
  · rw [Parsing.parsePaternityLog, Parsing.decodeUtf8, Library.Utf8.decode_encode]
    rfl
  · rintro ⟨linked, compiled, once⟩
    have unlinked : ∀ process ∈ ([] : List Process), process.parent = none := by simp
    have acyclic := (ends_linked unlinked compiled).mp
      ((count_tree_linked unlinked compiled).mp once)
    have first : ParentKey (some reusedPids) threeProcesses.processMap 2000 3000 :=
      ⟨Process.new 2000 ['a'] 1000 0, 3000, rfl,
        ⟨1, 2, by decide +kernel, by decide +kernel⟩, by decide +kernel⟩
    have second : ParentKey (some reusedPids) threeProcesses.processMap 3000 2000 :=
      ⟨Process.new 3000 ['b'] 2000 0, 2000, rfl,
        ⟨1, 3, by decide +kernel, by decide +kernel⟩, by decide +kernel⟩
    exact acyclic 2000 (.tail (.single first) second)

end Trace
end Bootchart
