import Bootchart.Library.Unfolding
import Bootchart.ProcessTree.KernelRoots

/-!
# Moving daemons

`update_ppids_for_daemons` gives a new parent to processes whose parent is the process 1,
by the range of their pids. The last process `rc` has that parent too, and so no process
above it is moved below it: the parents are a forest again.
-/

namespace Bootchart
namespace ProcessTree

open Library (Text Dict Forest Ends)

/-- The parents are looked up and form a forest. -/
structure Pedigree
    (get : ℚ → Option ProcessId)
    (objects : Objects)
    (processList : List ProcessId) : Prop where
  /-- Every process is in the list once. -/
  nodup : processList.Nodup
  /-- `parent = process_map.get(ppid)`. -/
  parent : ∀ proc ∈ processList, (objects proc).parent = get (objects proc).ppid
  /-- The parents are in the list. -/
  closed : ∀ proc ∈ processList, ∀ parent, (objects proc).parent = some parent →
    parent ∈ processList
  /-- No process is below itself. -/
  ends : ∀ proc ∈ processList, Ends (fun proc => (objects proc).parent) proc
  /-- The pids are positive multiples of 1000. -/
  pid : ∀ proc ∈ processList, ∃ count : Nat, 0 < count ∧ (objects proc).pid = 1000 * count
  /-- The pids of the parents are multiples of 1000. -/
  ppid : ∀ proc ∈ processList, ∃ count : Int, (objects proc).ppid = 1000 * count

/-- Whether a process is an `rc`. -/
def isRc (process : Process) : Bool :=
  process.cmd = ['r', 'c'] ∧ belowInit process

/-- The last `rc`. -/
def lastRc (objects : Objects) (processList : List ProcessId) : Option ProcessId :=
  (processList.filter fun proc => isRc (objects proc)).getLast?

/-- One process descends from another one. -/
def Descends (objects : Objects) : ProcessId → ProcessId → Prop :=
  Relation.TransGen fun proc parent => (objects proc).parent = some parent

/-- A process moves below the last `rc`: its parent is the process 1, and its pid lies
between that of `rc` and the largest one below `rc`. -/
structure MovesTo
    (objects : Objects)
    (processList : List ProcessId)
    (proc rc : ProcessId) : Prop where
  /-- It is the last one. -/
  last : lastRc objects processList = some rc
  /-- The parent is the process 1. -/
  ppid : (objects proc).ppid = 1000
  /-- The pid is larger than that of `rc`. -/
  after : (objects rc).pid < (objects proc).pid
  /-- There is a larger one below `rc`. -/
  before : ∃ other ∈ processList, Descends objects other rc ∧
    (objects proc).pid < (objects other).pid

/-- The processes are in a forest again, and only those that move have changed. -/
structure Rehomed
    (objects : Objects)
    (processList : List ProcessId)
    (moved : Objects)
    (forest : Forest ProcessId) : Prop where
  /-- Every process of the list is in the forest once. -/
  once : forest.toList.Perm processList
  /-- The roots have no parents. -/
  roots : forest.roots = withParent moved processList none
  /-- The children of a process are those with it as parent. -/
  children : ∀ family ∈ forest.families,
    family.2 = withParent moved processList (some family.1)
  /-- A process that moves gets `rc` as parent. -/
  moves : ∀ proc ∈ processList, ∀ rc, MovesTo objects processList proc rc →
    moved proc = { objects proc with ppid := (objects rc).pid, parent := some rc }
  /-- The others stay as they are. -/
  stays : ∀ proc ∈ processList, (¬∃ rc, MovesTo objects processList proc rc) →
    moved proc = objects proc

/-! ## The tree of a forest -/

section Tree

variable {objects : Objects} {processList : List ProcessId}

/-- The forest below some processes is not higher than the list is long, if all climbs
end. -/
theorem height_unfold_withParent
    (closed : ∀ proc ∈ processList, ∀ parent, (objects proc).parent = some parent →
      parent ∈ processList)
    (ends : ∀ proc ∈ processList, Ends (fun proc => (objects proc).parent) proc)
    (parent : Option ProcessId)
    (depth : Nat) :
    (Forest.unfold (fun proc => withParent objects processList (some proc)) depth
      (withParent objects processList parent)).height ≤ processList.length := by
  have isSublist (parent : Option ProcessId) :
      withParent objects processList parent ⊆ processList := List.filter_sublist.subset
  have isParent : ∀ proc ∈ processList,
      ∀ child ∈ withParent objects processList (some proc),
        (objects child).parent = some proc :=
    fun proc _ child isChild => of_decide_eq_true (List.mem_filter.mp isChild).2
  refine Forest.height_unfold_le (fun proc _ => isSublist (some proc)) isParent
    (fun proc member => ?_) le_rfl depth (isSublist parent) fun root _ => ?_
  · exact Option.isSome_iff_exists.mpr
      (Library.climb_of_ends_of_mem closed member (ends proc member))
  · rw [Nat.sub_self]
    rfl

/-- If all climbs end, the tree has every process once, and its roots and child lists are
those of the parents. -/
theorem tree_of_ends
    (nodup : processList.Nodup)
    (closed : ∀ proc ∈ processList, ∀ parent, (objects proc).parent = some parent →
      parent ∈ processList)
    (ends : ∀ proc ∈ processList, Ends (fun proc => (objects proc).parent) proc) :
    (tree objects processList).toList.Perm processList ∧
      (tree objects processList).roots = withParent objects processList none ∧
      ∀ family ∈ (tree objects processList).families,
        family.2 = withParent objects processList (some family.1) := by
  have low := height_unfold_withParent closed ends none
  have isTree : tree objects processList =
      Forest.unfold (fun proc => withParent objects processList (some proc))
        (processList.length + 1) (withParent objects processList none) := by
    rw [Forest.unfold_succ_of_height_le (low _), tree, build_eq, Links.forest]
  refine ⟨?_, ?_, ?_⟩
  · refine (List.perm_ext_iff_of_nodup (nodup_tree nodup) nodup).mpr fun proc => ?_
    refine ⟨fun member => toList_tree_subset objects processList member, fun member => ?_⟩
    have once := (count_tree nodup closed member).mpr (ends proc member)
    exact List.one_le_count_iff.mp once.ge
  · rw [isTree, Forest.roots_unfold]
  · rw [isTree]
    exact Forest.families_unfold (low _)

/-- The forest below a process, if all climbs end. -/
theorem subtree_of_ends
    (closed : ∀ proc ∈ processList, ∀ parent, (objects proc).parent = some parent →
      parent ∈ processList)
    (ends : ∀ proc ∈ processList, Ends (fun proc => (objects proc).parent) proc)
    (rc : ProcessId) :
    ∃ childList, (build objects processList).subtree processList.length
        ((build objects processList).childList rc) = some childList ∧
      ∀ proc, proc ∈ childList.toList ↔ proc ∈ processList ∧ Descends objects proc rc := by
  have low := height_unfold_withParent closed ends (some rc)
  refine ⟨Forest.unfold (fun proc => withParent objects processList (some proc))
    (processList.length + 1) (withParent objects processList (some rc)), ?_, fun proc => ?_⟩
  · rw [Links.subtree, build_eq]
    exact if_pos (low _)
  · refine Forest.mem_unfold_iff closed (fun child parent => ?_) low (Nat.le_succ _)
    exact List.mem_filter.trans (and_congr_right fun _ => decide_eq_true_iff)

end Tree

/-! ## The search for `rc` -/

section Search

variable {objects : Objects} {processList : List ProcessId}

/-- A loop that keeps what it makes of the last element that counts. -/
theorem foldlM_last
    {α β : Type*}
    (counts : α → Bool)
    (value : α → β)
    (elements : List α)
    (start : β) :
    elements.foldlM (fun result a => if counts a then some (value a) else some result)
        start =
      some (((elements.filter counts).getLast?.map value).getD start) := by
  induction elements generalizing start with
  | nil => rfl
  | cons a elements inductionHypothesis =>
      rw [List.foldlM_cons, List.filter_cons]
      cases counts a with
      | false => exact inductionHypothesis start
      | true =>
          refine (inductionHypothesis (value a)).trans ?_
          cases last : (elements.filter counts).getLast? <;> simp [List.getLast?_cons, last]

/-- The largest pid of a forest, or the sentinel. -/
theorem lt_getMaxPid (objects : Objects) (forest : Forest ProcessId) (bound : ℚ) :
    bound < getMaxPid objects forest ↔
      bound < -100000000 ∨ ∃ proc ∈ forest.toList, bound < (objects proc).pid := by
  fun_induction getMaxPid objects forest with
  | case1 => simp
  | case2 proc childList inductionHypothesis =>
      simp [inductionHypothesis, or_left_comm]
  | case3 proc childList siblings _ first second =>
      simp only [lt_max_iff, first, second, Forest.toList_cons, List.exists_mem_cons_iff,
        List.mem_append, or_and_right, exists_or]
      rw [or_left_comm, or_assoc]
      grind

/-- What is found of the last `rc`. -/
structure Rc.Found (objects : Objects) (processList : List ProcessId) (rc : Rc) : Prop where
  /-- It is the last one. -/
  rcproc : rc.rcproc = lastRc objects processList
  /-- Without one the pids are sentinels. -/
  none : lastRc objects processList = none → rc.rcstartpid = -1 ∧ rc.rcendpid = -1
  /-- Its pid. -/
  rcstartpid : ∀ proc, lastRc objects processList = some proc →
    rc.rcstartpid = (objects proc).pid
  /-- The largest pid below it. -/
  rcendpid : ∀ proc, lastRc objects processList = some proc → ∀ bound,
    bound < rc.rcendpid ↔ bound < -100000000 ∨
      ∃ other ∈ processList, Descends objects other proc ∧ bound < (objects other).pid

/-- If all climbs end the search returns. -/
theorem found_findRc
    (closed : ∀ proc ∈ processList, ∀ parent, (objects proc).parent = some parent →
      parent ∈ processList)
    (ends : ∀ proc ∈ processList, Ends (fun proc => (objects proc).parent) proc) :
    ∃ rc, findRc objects processList (build objects processList) = some rc ∧
      rc.Found objects processList := by
  choose childList isSubtree below using subtree_of_ends closed ends
  let value (proc : ProcessId) : Rc :=
    { rcproc := some proc
      rcstartpid := (objects proc).pid
      rcendpid := getMaxPid objects (childList proc) }
  have loop := foldlM_last (fun proc => isRc (objects proc)) value processList
    { rcproc := none, rcstartpid := -1, rcendpid := -1 }
  have isLoop : findRc objects processList (build objects processList) =
      some (((lastRc objects processList).map value).getD
        { rcproc := none, rcstartpid := -1, rcendpid := -1 }) := by
    rw [lastRc, ← loop, findRc]
    congr 1
    funext rc proc
    rw [isSubtree proc]
    simp only [isRc, decide_eq_true_eq, Option.map_some, value]
  refine ⟨_, isLoop, ?_⟩
  cases last : lastRc objects processList with
  | none =>
      refine ⟨last.symm, fun _ => ⟨rfl, rfl⟩, ?_, ?_⟩
      · intro proc isLast
        exact absurd (last.symm.trans isLast) nofun
      · intro proc isLast
        exact absurd (last.symm.trans isLast) nofun
  | some proc =>
      refine ⟨last.symm, fun isNone => absurd (last.symm.trans isNone) nofun, ?_, ?_⟩
      · intro other isLast
        obtain rfl := Option.some.inj (last.symm.trans isLast)
        rfl
      · intro other isLast bound
        obtain rfl := Option.some.inj (last.symm.trans isLast)
        refine (lt_getMaxPid objects _ bound).trans (or_congr_right ?_)
        simp only [below, and_assoc]

end Search

/-! ## Moving -/

section Moving

variable {get : ℚ → Option ProcessId} {objects : Objects} {processList : List ProcessId}

/-- The parent of a process is the process 1 if its pid is 1000. -/
theorem Pedigree.belowInit_iff
    (pedigree : Pedigree get objects processList)
    {proc : ProcessId}
    (member : proc ∈ processList) :
    belowInit (objects proc) = true ↔ (objects proc).ppid = 1000 := by
  obtain ⟨count, isCount⟩ := pedigree.ppid proc member
  have thousands : (1000 * count / 1000 : ℚ) = count := by
    field_simp
  rw [belowInit, isCount, thousands, Int.floor_intCast]
  constructor
  · intro isOne
    obtain rfl : count = 1 := by simpa using isOne
    norm_num
  · intro isThousand
    have isOne : (count : ℚ) = 1 := by linarith
    exact decide_eq_true (by exact_mod_cast isOne)

/-- The last `rc` is a process of the list whose parent is the process 1. -/
theorem Pedigree.lastRc_mem
    (pedigree : Pedigree get objects processList)
    {rc : ProcessId}
    (last : lastRc objects processList = some rc) :
    rc ∈ processList ∧ (objects rc).ppid = 1000 := by
  obtain ⟨member, counts⟩ := List.mem_filter.mp (List.mem_of_getLast? last)
  have below : (objects rc).cmd = ['r', 'c'] ∧ belowInit (objects rc) = true :=
    of_decide_eq_true counts
  exact ⟨member, (pedigree.belowInit_iff member).mp below.2⟩

/-- No process that moves is above `rc`. -/
theorem MovesTo.not_above
    (pedigree : Pedigree get objects processList)
    {proc rc : ProcessId}
    (member : proc ∈ processList)
    (moves : MovesTo objects processList proc rc) : ¬Descends objects rc proc := by
  obtain ⟨rcMember, rcPpid⟩ := pedigree.lastRc_mem moves.last
  have sameParent : (objects rc).parent = (objects proc).parent := by
    rw [pedigree.parent rc rcMember, pedigree.parent proc member, rcPpid, moves.ppid]
  intro above
  -- the parent of both is between them, and so the process is above itself
  obtain ⟨parent, isParent, between⟩ := Relation.TransGen.head'_iff.mp above
  have cycle : Descends objects proc proc :=
    Relation.TransGen.head' (sameParent.symm.trans isParent) between
  exact Library.not_ends_of_transGen cycle (pedigree.ends proc member)

/-- The pids are positive. -/
theorem Pedigree.pid_pos
    (pedigree : Pedigree get objects processList)
    {proc : ProcessId}
    (member : proc ∈ processList) : 0 < (objects proc).pid := by
  obtain ⟨count, positive, isCount⟩ := pedigree.pid proc member
  rw [isCount]
  positivity

/-- The objects after some have moved. -/
def movedObjects (rc : Rc) (objects : Objects) (processList : List ProcessId) : Objects :=
  fun proc => if proc ∈ processList then moveBelowRc rc (objects proc) else objects proc

variable {rc : Rc}

/-- The test of the loop says which processes move. -/
theorem Rc.Found.moves_iff
    (found : rc.Found objects processList)
    (pedigree : Pedigree get objects processList)
    {proc : ProcessId}
    (member : proc ∈ processList) :
    (rc.rcstartpid < (objects proc).pid ∧ (objects proc).pid < rc.rcendpid ∧
        belowInit (objects proc) = true) ↔
      ∃ rcproc, MovesTo objects processList proc rcproc := by
  have positive := pedigree.pid_pos member
  rw [pedigree.belowInit_iff member]
  constructor
  · rintro ⟨after, before, isPpid⟩
    cases last : lastRc objects processList with
    | none =>
        rw [(found.none last).2] at before
        linarith
    | some rcproc =>
        refine ⟨rcproc, last, isPpid, found.rcstartpid rcproc last ▸ after, ?_⟩
        exact ((found.rcendpid rcproc last _).mp before).resolve_left fun sentinel => by
          linarith
  · rintro ⟨rcproc, moves⟩
    exact ⟨found.rcstartpid rcproc moves.last ▸ moves.after,
      (found.rcendpid rcproc moves.last _).mpr (.inr moves.before), moves.ppid⟩

/-- A process that moves gets the pid of `rc` and `rc` as parent. -/
theorem movedObjects_of_moves
    (found : rc.Found objects processList)
    (pedigree : Pedigree get objects processList)
    {proc rcproc : ProcessId}
    (member : proc ∈ processList)
    (moves : MovesTo objects processList proc rcproc) :
    movedObjects rc objects processList proc =
      { objects proc with ppid := (objects rcproc).pid, parent := some rcproc } := by
  have isMoved := (found.moves_iff pedigree member).mpr ⟨rcproc, moves⟩
  rw [movedObjects, if_pos member, moveBelowRc, if_pos isMoved,
    found.rcstartpid rcproc moves.last, found.rcproc, moves.last]

/-- The others stay as they are. -/
theorem movedObjects_of_stays
    (found : rc.Found objects processList)
    (pedigree : Pedigree get objects processList)
    {proc : ProcessId}
    (stays : ¬(proc ∈ processList ∧ ∃ rcproc, MovesTo objects processList proc rcproc)) :
    movedObjects rc objects processList proc = objects proc := by
  rw [movedObjects]
  split
  next member =>
    refine if_neg fun isMoved => stays ⟨member, ?_⟩
    exact (found.moves_iff pedigree member).mp isMoved
  next => rfl

/-- The objects and the tree are those after moving, also if the loop is not made. -/
theorem updatePpidsForDaemons_eq
    (found : rc.Found objects processList)
    (pedigree : Pedigree get objects processList)
    (isFound : findRc objects processList (build objects processList) = some rc) :
    updatePpidsForDaemons objects processList =
      some (movedObjects rc objects processList,
        tree (movedObjects rc objects processList) processList) := by
  rw [updatePpidsForDaemons, isFound, Option.map_some]
  split
  next => rfl
  next sentinel =>
    have same : movedObjects rc objects processList = objects := by
      funext proc
      refine movedObjects_of_stays found pedigree ?_
      rintro ⟨member, rcproc, moves⟩
      have positive := pedigree.pid_pos (pedigree.lastRc_mem moves.last).1
      have later := pedigree.pid_pos member
      obtain ⟨-, before, -⟩ := (found.moves_iff pedigree member).mpr ⟨rcproc, moves⟩
      refine sentinel ⟨?_, ?_⟩
      · rw [found.rcstartpid rcproc moves.last]
        linarith
      · intro isSentinel
        linarith
    rw [same]

/-- The climbs along the parents still end. -/
theorem ends_movedObjects
    (found : rc.Found objects processList)
    (pedigree : Pedigree get objects processList)
    {proc : ProcessId}
    (member : proc ∈ processList) :
    Ends (fun proc => (movedObjects rc objects processList proc).parent) proc := by
  have stays {other : ProcessId} (notMoved : ¬(other ∈ processList ∧
      ∃ rcproc, MovesTo objects processList other rcproc)) :
      (movedObjects rc objects processList other).parent = (objects other).parent := by
    rw [movedObjects_of_stays found pedigree notMoved]
  have ends := pedigree.ends proc member
  cases last : lastRc objects processList with
  | none =>
      refine ends.of_unmoved fun other _ => stays ?_
      rintro ⟨-, rcproc, moves⟩
      exact absurd (last.symm.trans moves.last) nofun
  | some rcproc =>
      have rcMember := (pedigree.lastRc_mem last).1
      have toRc : ∀ other, (movedObjects rc objects processList other).parent =
          (objects other).parent ∨
            (movedObjects rc objects processList other).parent = some rcproc := by
        intro other
        by_cases moves : other ∈ processList ∧
            ∃ rcproc, MovesTo objects processList other rcproc
        · obtain ⟨isMember, otherRc, isMoved⟩ := moves
          obtain rfl := Option.some.inj (last.symm.trans isMoved.last)
          right
          rw [movedObjects_of_moves found pedigree isMember isMoved]
        · exact .inl (stays moves)
      have rcEnds : Ends (fun proc => (movedObjects rc objects processList proc).parent)
          rcproc := by
        refine (pedigree.ends rcproc rcMember).of_unmoved fun other above => stays ?_
        rintro ⟨isMember, otherRc, isMoved⟩
        obtain rfl := Option.some.inj (last.symm.trans isMoved.last)
        rcases Relation.reflTransGen_iff_eq_or_transGen.mp above with rfl | descends
        · exact lt_irrefl _ isMoved.after
        · exact isMoved.not_above pedigree isMember descends
      exact Ends.of_moved toRc rcEnds ends

/-- `update_ppids_for_daemons` returns, and leaves a forest of all processes, in which only
the processes that move have got another parent, the last `rc`. -/
theorem rehomed_updatePpidsForDaemons (pedigree : Pedigree get objects processList) :
    ∃ moved forest, updatePpidsForDaemons objects processList = some (moved, forest) ∧
      Rehomed objects processList moved forest := by
  obtain ⟨rc, isFound, found⟩ := found_findRc pedigree.closed pedigree.ends
  have closed : ∀ proc ∈ processList, ∀ parent,
      (movedObjects rc objects processList proc).parent = some parent →
        parent ∈ processList := by
    intro proc member parent isParent
    by_cases moves : ∃ rcproc, MovesTo objects processList proc rcproc
    · obtain ⟨rcproc, isMoved⟩ := moves
      rw [movedObjects_of_moves found pedigree member isMoved] at isParent
      obtain rfl := Option.some.inj isParent
      exact (pedigree.lastRc_mem isMoved.last).1
    · rw [movedObjects_of_stays found pedigree fun both => moves both.2] at isParent
      exact pedigree.closed proc member parent isParent
  obtain ⟨once, roots, children⟩ := tree_of_ends pedigree.nodup closed
    fun proc member => ends_movedObjects found pedigree member
  refine ⟨_, _, updatePpidsForDaemons_eq found pedigree isFound, once, roots, children,
    fun proc member rcproc moves => movedObjects_of_moves found pedigree member moves,
    fun proc _ stays => ?_⟩
  exact movedObjects_of_stays found pedigree fun both => stays both.2

end Moving

/-- The process 1, an `rc` with a child, and a daemon between them. -/
def daemons : Objects
  | .mapped 1000 => Process.new 1000 ['i'] 0 0
  | .mapped 2000 => { Process.new 2000 ['r', 'c'] 1000 1 with parent := some (.mapped 1000) }
  | .mapped 3000 => { Process.new 3000 ['d'] 1000 2 with parent := some (.mapped 1000) }
  | _ => { Process.new 4000 ['s'] 2000 1 with parent := some (.mapped 2000) }

/-- Their pids. -/
def daemonsList : List ProcessId :=
  [.mapped 1000, .mapped 2000, .mapped 3000, .mapped 4000]

/-- The process map. -/
def daemonsGet (ppid : ℚ) : Option ProcessId :=
  if ppid = 1000 then some (.mapped 1000)
  else if ppid = 2000 then some (.mapped 2000)
  else none

/-- The parents of these processes are looked up and form a forest. -/
theorem pedigree_daemons : Pedigree daemonsGet daemons daemonsList where
  nodup := by decide
  parent := by decide +kernel
  closed := by decide +kernel
  ends := by
    have climbs : ∀ proc ∈ daemonsList,
        (Library.climb (fun proc => (daemons proc).parent) 3 proc).isSome := by
      decide
    intro proc member
    exact ⟨3, Option.isSome_iff_exists.mp (climbs proc member)⟩
  pid := by
    simp only [daemonsList, List.forall_mem_cons]
    exact ⟨⟨1, by decide +kernel⟩, ⟨2, by decide +kernel⟩, ⟨3, by decide +kernel⟩,
      ⟨4, by decide +kernel⟩, nofun⟩
  ppid := by
    simp only [daemonsList, List.forall_mem_cons]
    exact ⟨⟨0, by decide +kernel⟩, ⟨1, by decide +kernel⟩, ⟨1, by decide +kernel⟩,
      ⟨2, by decide +kernel⟩, nofun⟩

/-- The daemon moves below `rc`. -/
theorem rehomed_daemons :
    ∃ moved forest, updatePpidsForDaemons daemons daemonsList = some (moved, forest) ∧
      Rehomed daemons daemonsList moved forest ∧
      (moved (.mapped 3000)).parent = some (.mapped 2000) := by
  obtain ⟨moved, forest, isUpdated, rehomed⟩ :=
    rehomed_updatePpidsForDaemons pedigree_daemons
  have moves : MovesTo daemons daemonsList (.mapped 3000) (.mapped 2000) := by
    refine ⟨by decide +kernel, by decide +kernel, by decide +kernel, .mapped 4000,
      by decide, .single rfl, by decide +kernel⟩
  refine ⟨moved, forest, isUpdated, rehomed, ?_⟩
  rw [rehomed.moves _ (by decide) _ moves]

end ProcessTree
end Bootchart
