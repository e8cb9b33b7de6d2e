import Bootchart.ProcessTree.Passes
import Mathlib.Data.Multiset.Bind
import Mathlib.Logic.Relation
import Mathlib.Tactic.Abel

/-!
# Absorbing processes

A process of a tree absorbs another one if it is merged with it and the other leaves
the tree, but nothing else does. However often this happens, the tree holds the same
samples, begins and ends at the same times, and the commands stay.
-/

namespace Bootchart
namespace ProcessTree

open Library (Text Forest)

/-! ## Times of a tree -/

section Times

variable (objects : Objects) (forest : Forest ProcessId)

/-- A tree starts with its earliest process, and no later than the sentinel. -/
theorem le_getStartTime (bound : ℚ) :
    bound ≤ getStartTime objects forest ↔
      bound ≤ 100000000 ∧ ∀ proc ∈ forest.toList, bound ≤ (objects proc).startTime := by
  fun_induction getStartTime objects forest with
  | case1 => simp
  | case2 proc childList inductionHypothesis =>
      simp only [le_min_iff, inductionHypothesis, Forest.toList_cons, Forest.toList_nil,
        List.append_nil, List.forall_mem_cons]
      exact and_left_comm
  | case3 proc childList siblings _ first second =>
      simp only [le_min_iff, first, second, Forest.toList_cons, List.forall_mem_cons,
        List.forall_mem_append]
      tauto

/-- A tree ends with its last process, and no earlier than the sentinel. -/
theorem getEndTime_le (bound : ℚ) :
    getEndTime objects forest ≤ bound ↔
      -100000000 ≤ bound ∧ ∀ proc ∈ forest.toList, (objects proc).getEndTime ≤ bound := by
  fun_induction getEndTime objects forest with
  | case1 => simp
  | case2 proc childList inductionHypothesis =>
      simp only [max_le_iff, inductionHypothesis, Forest.toList_cons, Forest.toList_nil,
        List.append_nil, List.forall_mem_cons]
      exact and_left_comm
  | case3 proc childList siblings _ first second =>
      simp only [max_le_iff, first, second, Forest.toList_cons, List.forall_mem_cons,
        List.forall_mem_append]
      exact ⟨fun h => ⟨h.2.1, h.1.1, h.1.2.2, h.2.2⟩,
        fun h => ⟨⟨h.2.1, h.1, h.2.2.1⟩, h.1, h.2.2.2⟩⟩

/-- A tree ends no earlier than its last process and the sentinel. -/
theorem le_getEndTime (bound : ℚ) :
    bound ≤ getEndTime objects forest ↔
      bound ≤ -100000000 ∨ ∃ proc ∈ forest.toList, bound ≤ (objects proc).getEndTime := by
  fun_induction getEndTime objects forest with
  | case1 => simp
  | case2 proc childList inductionHypothesis =>
      simp only [le_max_iff, inductionHypothesis, Forest.toList_cons, Forest.toList_nil,
        List.append_nil, List.exists_mem_cons_iff]
      exact or_left_comm
  | case3 proc childList siblings _ first second =>
      simp only [le_max_iff, first, second, Forest.toList_cons, List.exists_mem_cons_iff,
        List.mem_append, or_and_right, exists_or, Process.getEndTime]
      grind

end Times

/-! ## One process absorbs another -/

/-- What is kept of a merge: the earlier start and the later end. -/
theorem startTime_mergedProcess (first second : Process) :
    (State.mergedProcess first second).startTime =
      min first.startTime second.startTime := rfl

theorem getEndTime_mergedProcess (first second : Process) :
    (State.mergedProcess first second).getEndTime = max first.getEndTime second.getEndTime :=
  add_sub_cancel _ _

@[simp] theorem State.cmd_mergeProcesses (state : State) (p1 p2 : ProcessId) :
    (state.mergeProcesses p1 p2).cmd = state.cmd := by
  funext proc
  by_cases same : proc = p1
  · subst same
    simp [State.cmd, State.mergedProcess]
  · simp [State.cmd, same]

/-- The state, and the processes that are still in the tree. -/
abbrev Population := State × Multiset ProcessId

/-- The processes of a forest. -/
def population (state : State) (forest : Forest ProcessId) : Population :=
  (state, forest.toList)

/-- One process absorbs another. -/
def Absorbs (before after : Population) : Prop :=
  ∃ p1 p2 others, before.2 = p1 ::ₘ p2 ::ₘ others ∧
    after = (before.1.mergeProcesses p1 p2, p1 ::ₘ others)

/-- Any number of processes are absorbed, one after the other. -/
abbrev Absorptions : Population → Population → Prop :=
  Relation.ReflTransGen Absorbs

/-- The samples that the processes hold. -/
def held (population : Population) : Multiset ProcessSample :=
  population.2.bind fun proc => (population.1.objects proc).samples

section Absorptions

variable {before after : Population}

/-- Absorbing keeps the processes distinct. -/
theorem nodup_absorbs
    (absorbs : Absorbs before after)
    (distinct : before.2.Nodup) : after.2.Nodup := by
  obtain ⟨p1, p2, others, isBefore, rfl⟩ := absorbs
  rw [isBefore, Multiset.nodup_cons, Multiset.nodup_cons] at distinct
  obtain ⟨notFirst, -, nodup⟩ := distinct
  exact Multiset.nodup_cons.mpr
    ⟨fun member => notFirst (Multiset.mem_cons_of_mem member), nodup⟩

/-- Absorbing changes no command. -/
theorem cmd_absorptions (absorptions : Absorptions before after) :
    after.1.cmd = before.1.cmd := by
  induction absorptions with
  | refl => rfl
  | tail _ absorbs inductionHypothesis =>
      obtain ⟨p1, p2, others, -, rfl⟩ := absorbs
      rw [State.cmd_mergeProcesses, inductionHypothesis]

/-- The objects of the others are those before. -/
theorem objects_absorbs
    {p1 p2 : ProcessId}
    {others : Multiset ProcessId}
    (distinct : (p1 ::ₘ p2 ::ₘ others).Nodup)
    (state : State)
    {proc : ProcessId}
    (member : proc ∈ others) :
    (state.mergeProcesses p1 p2).objects proc = state.objects proc := by
  have different : proc ≠ p1 := by
    rintro rfl
    exact (Multiset.nodup_cons.mp distinct).1 (Multiset.mem_cons_of_mem member)
  rw [State.objects_mergeProcesses, Function.update_of_ne different]

/-- Absorbing keeps the samples, the bounds on the start times and the bounds on the
end times. -/
structure Conserves (before after : Population) : Prop where
  /-- The samples that are held. -/
  held_eq : held after = held before
  /-- The earliest start. -/
  starts (bound : ℚ) : (∀ proc ∈ after.2, bound ≤ (after.1.objects proc).startTime) ↔
    ∀ proc ∈ before.2, bound ≤ (before.1.objects proc).startTime
  /-- The latest end. -/
  ends (bound : ℚ) : (∀ proc ∈ after.2, (after.1.objects proc).getEndTime ≤ bound) ↔
    ∀ proc ∈ before.2, (before.1.objects proc).getEndTime ≤ bound

/-- One process absorbs another. -/
theorem conserves_absorbs
    (absorbs : Absorbs before after)
    (distinct : before.2.Nodup) : Conserves before after := by
  obtain ⟨p1, p2, others, isBefore, rfl⟩ := absorbs
  obtain ⟨state, processes⟩ := before
  subst isBefore
  have unchanged : ∀ proc ∈ others,
      (state.mergeProcesses p1 p2).objects proc = state.objects proc :=
    fun _ member => objects_absorbs distinct state member
  have merged : (state.mergeProcesses p1 p2).objects p1 =
      State.mergedProcess (state.objects p1) (state.objects p2) := by
    rw [State.objects_mergeProcesses, Function.update_self]
  constructor
  · have others_eq : (others.bind fun proc =>
        (↑((state.mergeProcesses p1 p2).objects proc).samples : Multiset ProcessSample)) =
          others.bind fun proc => ↑(state.objects proc).samples := by
      refine Multiset.bind_congr fun proc member => ?_
      rw [unchanged proc member]
    have both : (((State.mergedProcess (state.objects p1) (state.objects p2)).samples :
        List ProcessSample) : Multiset ProcessSample) =
          (state.objects p1).samples + (state.objects p2).samples := by
      rw [Multiset.coe_add]
      exact Multiset.coe_eq_coe.mpr (List.mergeSort_perm _ _)
    simp only [held, Multiset.cons_bind, merged, others_eq, both]
    rw [add_assoc]
  · intro bound
    simp only [Multiset.forall_mem_cons, merged, startTime_mergedProcess, le_min_iff,
      and_assoc]
    refine and_congr_right fun _ => and_congr_right fun _ => ?_
    refine forall₂_congr fun proc member => ?_
    rw [unchanged proc member]
  · intro bound
    simp only [Multiset.forall_mem_cons, merged, getEndTime_mergedProcess, max_le_iff,
      and_assoc]
    refine and_congr_right fun _ => and_congr_right fun _ => ?_
    refine forall₂_congr fun proc member => ?_
    rw [unchanged proc member]

/-- Any number of processes are absorbed. -/
theorem conserves_absorptions
    (absorptions : Absorptions before after)
    (distinct : before.2.Nodup) : after.2.Nodup ∧ Conserves before after := by
  induction absorptions with
  | refl => exact ⟨distinct, rfl, fun _ => Iff.rfl, fun _ => Iff.rfl⟩
  | tail _ absorbs inductionHypothesis =>
      obtain ⟨nodup, first⟩ := inductionHypothesis
      have second := conserves_absorbs absorbs nodup
      exact ⟨nodup_absorbs absorbs nodup, second.held_eq.trans first.held_eq,
        fun bound => (second.starts bound).trans (first.starts bound),
        fun bound => (second.ends bound).trans (first.ends bound)⟩

end Absorptions

/-! ## One process joins another like it -/

/-- One process absorbs another with the same command. -/
def Joins (before after : Population) : Prop :=
  ∃ p1 p2 others, before.2 = p1 ::ₘ p2 ::ₘ others ∧
    before.1.cmd p2 = before.1.cmd p1 ∧
      after = (before.1.mergeProcesses p1 p2, p1 ::ₘ others)

/-- Any number of processes join others, one after the other. -/
abbrev Joinings : Population → Population → Prop :=
  Relation.ReflTransGen Joins

/-- What processes that join others conserve: the processes are among those before, and
all have a given command if and only if all had. -/
structure Gathers (before after : Population) : Prop where
  /-- The processes. -/
  subset : after.2 ⊆ before.2
  /-- The samples and the times. -/
  conserves : Conserves before after
  /-- The commands. -/
  commands (command : Text) : (∀ proc ∈ after.2, after.1.cmd proc = command) ↔
    ∀ proc ∈ before.2, before.1.cmd proc = command

section Joinings

variable {before middle after : Population}

/-- Joining is absorbing. -/
theorem Joinings.absorptions (joinings : Joinings before after) :
    Absorptions before after := by
  have isAbsorbs : Joins ≤ Absorbs := by
    rintro first second ⟨p1, p2, others, isFirst, -, isSecond⟩
    exact ⟨p1, p2, others, isFirst, isSecond⟩
  exact Relation.ReflTransGen.mono isAbsorbs _ _ joinings

/-- Others may stand by. -/
theorem Joinings.add
    (joinings : Joinings before after)
    (others : Multiset ProcessId) :
    Joinings (before.1, before.2 + others) (after.1, after.2 + others) := by
  induction joinings with
  | refl => exact .refl
  | tail _ joins inductionHypothesis =>
      apply inductionHypothesis.tail
      obtain ⟨p1, p2, rest, isBefore, same, rfl⟩ := joins
      refine ⟨p1, p2, rest + others, ?_, same, ?_⟩
      · rw [isBefore, Multiset.cons_add, Multiset.cons_add]
      · rw [Multiset.cons_add]

/-- Processes outside of the population do not change. -/
theorem objects_joinings
    (joinings : Joinings before after)
    {proc : ProcessId}
    (notMem : proc ∉ before.2) : after.1.objects proc = before.1.objects proc := by
  have unchanged : proc ∉ after.2 ∧ after.1.objects proc = before.1.objects proc := by
    induction joinings with
    | refl => exact ⟨notMem, rfl⟩
    | tail _ joins inductionHypothesis =>
        obtain ⟨p1, p2, others, isBefore, -, rfl⟩ := joins
        obtain ⟨outside, same⟩ := inductionHypothesis
        rw [isBefore, Multiset.mem_cons, Multiset.mem_cons, not_or, not_or] at outside
        obtain ⟨notFirst, -, notOthers⟩ := outside
        constructor
        · rw [Multiset.mem_cons, not_or]
          exact ⟨notFirst, notOthers⟩
        · rw [State.objects_mergeProcesses, Function.update_of_ne notFirst, same]
  exact unchanged.2

/-- Joining changes nothing but samples and times. -/
theorem fixed_joinings (joinings : Joinings before after) (proc : ProcessId) :
    ∃ samples startTime duration, after.1.objects proc =
      { before.1.objects proc with
        samples := samples, startTime := startTime, duration := duration } := by
  induction joinings with
  | refl => exact ⟨_, _, _, rfl⟩
  | tail _ joins inductionHypothesis =>
      obtain ⟨p1, p2, others, -, -, rfl⟩ := joins
      obtain ⟨samples, startTime, duration, same⟩ := inductionHypothesis
      by_cases isFirst : proc = p1
      · subst isFirst
        rw [State.objects_mergeProcesses, Function.update_self, same]
        exact ⟨_, _, _, rfl⟩
      · rw [State.objects_mergeProcesses, Function.update_of_ne isFirst, same]
        exact ⟨_, _, _, rfl⟩

/-- Nothing changes. -/
theorem Gathers.refl (population : Population) : Gathers population population where
  subset := Multiset.Subset.refl _
  conserves := ⟨rfl, fun _ => Iff.rfl, fun _ => Iff.rfl⟩
  commands _ := Iff.rfl

theorem Gathers.trans (first : Gathers before middle) (second : Gathers middle after) :
    Gathers before after where
  subset := Multiset.Subset.trans second.subset first.subset
  conserves :=
    { held_eq := second.conserves.held_eq.trans first.conserves.held_eq
      starts := fun bound => (second.conserves.starts bound).trans
        (first.conserves.starts bound)
      ends := fun bound => (second.conserves.ends bound).trans (first.conserves.ends bound) }
  commands command := (second.commands command).trans (first.commands command)

/-- Only the processes of the populations matter. -/
theorem Gathers.congr
    (gathers : Gathers before after)
    {first last : State}
    (sameFirst : ∀ proc ∈ before.2, first.objects proc = before.1.objects proc)
    (sameLast : ∀ proc ∈ after.2, last.objects proc = after.1.objects proc) :
    Gathers (first, before.2) (last, after.2) where
  subset := gathers.subset
  conserves :=
    { held_eq := by
        have ofFirst : held (first, before.2) = held before :=
          Multiset.bind_congr fun proc member => by rw [sameFirst proc member]
        have ofLast : held (last, after.2) = held after :=
          Multiset.bind_congr fun proc member => by rw [sameLast proc member]
        rw [ofFirst, ofLast, gathers.conserves.held_eq]
      starts := fun bound => by
        have ofBoth := gathers.conserves.starts bound
        simp +contextual only [sameFirst, sameLast]
        exact ofBoth
      ends := fun bound => by
        have ofBoth := gathers.conserves.ends bound
        simp +contextual only [sameFirst, sameLast]
        exact ofBoth }
  commands command := by
    have ofBoth := gathers.commands command
    unfold State.cmd at ofBoth ⊢
    simp +contextual only [sameFirst, sameLast]
    exact ofBoth

/-- Processes that join others gather. -/
theorem gathers_joinings
    (joinings : Joinings before after)
    (distinct : before.2.Nodup) : Gathers before after := by
  refine ⟨?_, (conserves_absorptions joinings.absorptions distinct).2, fun command => ?_⟩
  · induction joinings with
    | refl => exact Multiset.Subset.refl _
    | tail _ joins inductionHypothesis =>
        obtain ⟨p1, p2, others, isBefore, -, rfl⟩ := joins
        refine Multiset.Subset.trans (fun proc member => ?_) inductionHypothesis
        rw [isBefore]
        rcases Multiset.mem_cons.mp member with rfl | inOthers
        · exact Multiset.mem_cons_self _ _
        · exact Multiset.mem_cons_of_mem (Multiset.mem_cons_of_mem inOthers)
  · induction joinings with
    | refl => rfl
    | tail _ joins inductionHypothesis =>
        obtain ⟨p1, p2, others, isBefore, same, rfl⟩ := joins
        rw [← inductionHypothesis, isBefore]
        simp only [Multiset.forall_mem_cons, State.cmd_mergeProcesses, same]
        tauto

end Joinings

end ProcessTree
end Bootchart
