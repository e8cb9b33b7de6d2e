import Mathlib.Data.List.Perm.Subperm
import Mathlib.Data.Set.Finite.List
import Mathlib.Order.Preorder.Finite
import Mathlib.Logic.Relation
import Mathlib.Tactic.Common

/-!
# Climbing along parents

A partial function takes elements to their parents. From an element one climbs
until there is no parent. If only finitely many elements have a parent, a climb
that ends does so within their number, and all climbs end if and only if no
element is its own ancestor.
-/

namespace Library

variable {α : Type*} (up : α → Option α)

/-- Climb as long as there is a parent, with at most `fuel` elements looked at. -/
def climb : Nat → α → Option α
  | 0, _ => none
  | fuel + 1, a =>
      match up a with
      | none => some a
      | some b => climb fuel b

/-- The climb from an element ends. -/
def Ends (a : α) : Prop :=
  ∃ fuel top, climb up fuel a = some top

variable {up}

/-- A climb from an element without parent. -/
theorem climb_of_none {a : α} (noParent : up a = none) (fuel : Nat) :
    climb up (fuel + 1) a = some a := by
  simp only [climb, noParent]

/-- A climb goes on from the parent. -/
theorem climb_of_some {a b : α} (parent : up a = some b) (fuel : Nat) :
    climb up (fuel + 1) a = climb up fuel b := by
  simp only [climb, parent]

/-- More fuel does not change where a climb ends. -/
theorem climb_mono
    {fuel more : Nat}
    (enough : fuel ≤ more)
    {a top : α}
    (climbed : climb up fuel a = some top) :
    climb up more a = some top := by
  induction fuel generalizing a more with
  | zero => exact nomatch climbed
  | succ fuel inductionHypothesis =>
      obtain ⟨more, rfl⟩ := Nat.exists_eq_add_of_lt enough
      cases parent : up a with
      | none =>
          rw [climb_of_none parent] at climbed ⊢
          exact climbed
      | some b =>
          rw [climb_of_some parent] at climbed ⊢
          exact inductionHypothesis (by omega) climbed

/-- A climb ends at one element only. -/
theorem climb_unique
    {first second : Nat}
    {a top other : α}
    (climbed : climb up first a = some top)
    (climbedOther : climb up second a = some other) :
    top = other := by
  have more := climb_mono (Nat.le_max_left first second) climbed
  have moreOther := climb_mono (Nat.le_max_right first second) climbedOther
  exact Option.some.inj (more.symm.trans moreOther)

/-- The climb from an element ends if and only if the one from its parent does. -/
theorem ends_iff_of_some {a b : α} (parent : up a = some b) : Ends up a ↔ Ends up b := by
  constructor
  · rintro ⟨fuel, top, climbed⟩
    cases fuel with
    | zero => exact nomatch climbed
    | succ fuel => exact ⟨fuel, top, (climb_of_some parent fuel) ▸ climbed⟩
  · rintro ⟨fuel, top, climbed⟩
    exact ⟨fuel + 1, top, (climb_of_some parent fuel).trans climbed⟩

/-- A climb from an element without parent ends. -/
theorem ends_of_none {a : α} (noParent : up a = none) : Ends up a :=
  ⟨1, a, climb_of_none noParent 0⟩

/-! ## Elements met -/

variable (up) in
/-- The elements met in a climb. -/
def ascent : Nat → α → List α
  | 0, _ => []
  | fuel + 1, a =>
      a :: match up a with
        | none => []
        | some b => ascent fuel b

/-- From every element met in a climb that ends, the climb ends with less fuel. -/
theorem exists_climb_of_mem_ascent
    {fuel : Nat}
    {a top b : α}
    (climbed : climb up fuel a = some top)
    (member : b ∈ ascent up fuel a) :
    climb up fuel b = some top := by
  induction fuel generalizing a with
  | zero => exact nomatch climbed
  | succ fuel inductionHypothesis =>
      cases parent : up a with
      | none =>
          simp only [ascent, parent, List.mem_singleton] at member
          exact member ▸ climbed
      | some c =>
          simp only [ascent, parent, List.mem_cons] at member
          rcases member with rfl | member
          · exact climbed
          · rw [climb_of_some parent] at climbed
            exact climb_mono (Nat.le_succ fuel) (inductionHypothesis climbed member)

/-- If a climb ends and not with less fuel, no element is met twice. -/
theorem nodup_ascent
    {fuel : Nat}
    {a top : α}
    (climbed : climb up (fuel + 1) a = some top)
    (least : climb up fuel a = none) :
    (ascent up (fuel + 1) a).Nodup ∧ (ascent up (fuel + 1) a).length = fuel + 1 := by
  induction fuel generalizing a with
  | zero =>
      cases parent : up a with
      | none => simp [ascent, parent]
      | some b => simp [climb, parent] at climbed
  | succ fuel inductionHypothesis =>
      cases parent : up a with
      | none =>
          rw [climb_of_none parent] at least
          exact nomatch least
      | some b =>
          rw [climb_of_some parent] at climbed
          have leastParent : climb up fuel b = none :=
            (climb_of_some parent fuel).symm.trans least
          obtain ⟨nodup, length⟩ := inductionHypothesis climbed leastParent
          have met : ascent up (fuel + 1 + 1) a = a :: ascent up (fuel + 1) b := by
            rw [ascent, parent]
          rw [met]
          refine ⟨List.nodup_cons.mpr ⟨fun member => ?_, nodup⟩, by simp [length]⟩
          have early := exists_climb_of_mem_ascent climbed member
          exact nomatch least.symm.trans early

/-- With less fuel one meets no other elements. -/
theorem ascent_subset
    {less fuel : Nat}
    (isLess : less ≤ fuel)
    (a : α) :
    ascent up less a ⊆ ascent up fuel a := by
  induction less generalizing a fuel with
  | zero => exact List.nil_subset _
  | succ less inductionHypothesis =>
      obtain ⟨fuel, rfl⟩ := Nat.exists_eq_add_of_lt isLess
      rw [ascent, ascent]
      apply List.cons_subset_cons _
      cases up a with
      | none => exact List.Subset.refl _
      | some b => exact inductionHypothesis (by omega) b

/-- A climb needs no more fuel than there are elements to be met. -/
theorem climb_of_ascent_subset
    {elements : List α}
    {fuel : Nat}
    {a top : α}
    (climbed : climb up fuel a = some top)
    (met : ascent up fuel a ⊆ elements) :
    climb up elements.length a = some top := by
  classical
  have ends : ∃ least, climb up least a = some top := ⟨fuel, climbed⟩
  have climbedLeast := Nat.find_spec ends
  have isLeast : Nat.find ends ≤ fuel := Nat.find_min' ends climbed
  generalize found : Nat.find ends = least at climbedLeast isLeast
  cases least with
  | zero => exact nomatch climbedLeast
  | succ less =>
      have before : climb up less a = none := by
        rw [Option.eq_none_iff_forall_ne_some]
        intro other early
        obtain rfl : other = top := Option.some.inj
          ((climb_mono (Nat.le_succ less) early).symm.trans climbedLeast)
        have notLess : Nat.find ends ≤ less := Nat.find_min' ends early
        omega
      obtain ⟨nodup, length⟩ := nodup_ascent climbedLeast before
      have few := (List.subperm_of_subset nodup
        (List.Subset.trans (ascent_subset isLeast a) met)).length_le
      rw [length] at few
      exact climb_mono few climbedLeast

/-- If every element with a parent is in a list, a climb that ends meets at most one
element more. -/
theorem climb_of_ends
    {domain : List α}
    (closed : ∀ a b, up a = some b → a ∈ domain)
    {a : α}
    (ends : Ends up a) :
    ∃ top, climb up (domain.length + 1) a = some top := by
  obtain ⟨fuel, top, climbed⟩ := ends
  have met : ascent up fuel a ⊆ top :: domain := by
    intro b member
    have climbedFrom := exists_climb_of_mem_ascent climbed member
    cases parent : up b with
    | some c => exact List.mem_cons_of_mem _ (closed b c parent)
    | none =>
        cases fuel with
        | zero => exact nomatch climbed
        | succ fuel =>
            rw [climb_of_none parent] at climbedFrom
            exact Option.some.inj climbedFrom ▸ List.mem_cons_self
  exact ⟨top, climb_of_ascent_subset climbed met⟩

/-- In a list closed under parents, a climb that ends meets no other elements. -/
theorem climb_of_ends_of_mem
    {elements : List α}
    (closed : ∀ a ∈ elements, ∀ b, up a = some b → b ∈ elements)
    {a : α}
    (member : a ∈ elements)
    (ends : Ends up a) :
    ∃ top, climb up elements.length a = some top := by
  obtain ⟨fuel, top, climbed⟩ := ends
  refine ⟨top, climb_of_ascent_subset climbed ?_⟩
  clear climbed
  induction fuel generalizing a with
  | zero => exact List.nil_subset _
  | succ fuel inductionHypothesis =>
      unfold ascent
      cases parent : up a with
      | none => exact List.cons_subset.mpr ⟨member, List.nil_subset _⟩
      | some b =>
          exact List.cons_subset.mpr
            ⟨member, inductionHypothesis (closed a member b parent)⟩

/-! ## Cycles -/

/-- Every ancestor of an element comes earlier to the end. -/
theorem exists_climb_of_transGen
    {a b top : α}
    (ancestor : Relation.TransGen (fun a b => up a = some b) a b)
    {fuel : Nat}
    (climbed : climb up fuel a = some top) :
    ∃ less < fuel, climb up less b = some top := by
  induction ancestor with
  | single parent =>
      cases fuel with
      | zero => exact nomatch climbed
      | succ fuel => exact ⟨fuel, Nat.lt_succ_self _, climb_of_some parent fuel ▸ climbed⟩
  | tail _ parent inductionHypothesis =>
      obtain ⟨less, isLess, climbedLess⟩ := inductionHypothesis
      cases less with
      | zero => exact nomatch climbedLess
      | succ less =>
          exact ⟨less, Nat.lt_of_succ_lt isLess, climb_of_some parent less ▸ climbedLess⟩

/-- A climb ends where it comes to an element without parent. -/
theorem top_eq_of_reached
    {a b top : α}
    (reached : Relation.ReflTransGen (fun a b => up a = some b) a b)
    (noParent : up b = none)
    {fuel : Nat}
    (climbed : climb up fuel a = some top) :
    top = b := by
  have fromReached : ∃ less, climb up less b = some top := by
    rcases Relation.reflTransGen_iff_eq_or_transGen.mp reached with rfl | ancestor
    · exact ⟨fuel, climbed⟩
    · obtain ⟨less, -, climbedLess⟩ := exists_climb_of_transGen ancestor climbed
      exact ⟨less, climbedLess⟩
  obtain ⟨less, climbedLess⟩ := fromReached
  exact climb_unique climbedLess (climb_of_none noParent 0)

/-- No climb from an element that is its own ancestor ends. -/
theorem not_ends_of_transGen
    {a : α}
    (cycle : Relation.TransGen (fun a b => up a = some b) a a) :
    ¬Ends up a := by
  rintro ⟨fuel, top, climbed⟩
  induction fuel using Nat.strong_induction_on with
  | h fuel inductionHypothesis =>
      obtain ⟨less, isLess, climbedLess⟩ := exists_climb_of_transGen cycle climbed
      exact inductionHypothesis less isLess climbedLess

/-- If finitely many elements have a parent, a climb that does not end meets an element that
is its own ancestor. -/
theorem exists_cycle_of_not_ends
    {domain : List α}
    (closed : ∀ a b, up a = some b → a ∈ domain)
    {a : α}
    (endless : ¬Ends up a) :
    ∃ b, Relation.ReflTransGen (fun a b => up a = some b) a b ∧
      Relation.TransGen (fun a b => up a = some b) b b := by
  have next : ∀ b : {b // ¬Ends up b}, ∃ c : {c // ¬Ends up c}, up b.1 = some c.1 := by
    rintro ⟨b, endlessFrom⟩
    cases parent : up b with
    | none => exact absurd (ends_of_none parent) endlessFrom
    | some c => exact ⟨⟨c, mt (ends_iff_of_some parent).mpr endlessFrom⟩, rfl⟩
  choose parentOf isParent using next
  let ancestor : Nat → {b // ¬Ends up b} := fun count => parentOf^[count] ⟨a, endless⟩
  have above : ∀ count, up (ancestor count).1 = some (ancestor (count + 1)).1 := by
    intro count
    have isNext : ancestor (count + 1) = parentOf (ancestor count) :=
      Function.iterate_succ_apply' parentOf count _
    rw [isParent, isNext]
  have inDomain : ∀ count, (ancestor count).1 ∈ {b | b ∈ domain} := fun count =>
    closed _ _ (above count)
  obtain ⟨first, second, earlier, same⟩ :=
    Set.Finite.exists_lt_map_eq_of_forall_mem inDomain (List.finite_toSet domain)
  have reached : ∀ count,
      Relation.ReflTransGen (fun a b => up a = some b) a (ancestor count).1 := by
    intro count
    induction count with
    | zero => exact .refl
    | succ count inductionHypothesis => exact .tail inductionHypothesis (above count)
  have path : ∀ count, Relation.TransGen (fun a b => up a = some b)
      (ancestor first).1 (ancestor (first + count + 1)).1 := by
    intro count
    induction count with
    | zero => exact .single (above first)
    | succ count inductionHypothesis => exact .tail inductionHypothesis (above _)
  obtain ⟨count, rfl⟩ := Nat.exists_eq_add_of_lt earlier
  have cycle := path count
  rw [← same] at cycle
  exact ⟨_, reached first, cycle⟩

/-- If finitely many elements have a parent, a climb ends if and only if it meets no element
that is its own ancestor. -/
theorem ends_iff_no_cycle
    {domain : List α}
    (closed : ∀ a b, up a = some b → a ∈ domain)
    {a : α} :
    Ends up a ↔ ∀ b, Relation.ReflTransGen (fun a b => up a = some b) a b →
      ¬Relation.TransGen (fun a b => up a = some b) b b := by
  constructor
  · intro ends b reached cycle
    induction reached using Relation.ReflTransGen.head_induction_on with
    | refl => exact not_ends_of_transGen cycle ends
    | head parent _ inductionHypothesis =>
        exact inductionHypothesis ((ends_iff_of_some parent).mp ends)
  · intro noCycle
    by_contra endless
    obtain ⟨b, reached, cycle⟩ := exists_cycle_of_not_ends closed endless
    exact noCycle b reached cycle

/-- If finitely many elements have a parent, all climbs end if and only if no element is
its own ancestor. -/
theorem ends_iff_acyclic
    {domain : List α}
    (closed : ∀ a b, up a = some b → a ∈ domain) :
    (∀ a, Ends up a) ↔ ∀ a, ¬Relation.TransGen (fun a b => up a = some b) a a := by
  constructor
  · exact fun allEnd a cycle => not_ends_of_transGen cycle (allEnd a)
  · exact fun acyclic a => (ends_iff_no_cycle closed).mpr fun b _ => acyclic b

end Library
