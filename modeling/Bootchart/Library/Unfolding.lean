import Bootchart.Library.Cut

/-!
# Unfolding parents

A table of children that comes from parents is unfolded into a forest. If all climbs along
the parents end, the forest does not get higher than the number of elements, every element
of it has the children of the table, and below an element are those whose ancestor it is.
Elements that get a new parent which none of them is above make no cycle.
-/

namespace Library

variable {α : Type*}

/-! ## Moving elements -/

section Moving

variable {up moved : α → Option α}

/-- The climbs still end if elements get a new parent from which the climb ends as
before. -/
theorem Ends.of_moved
    {target a : α}
    (toTarget : ∀ b, moved b = up b ∨ moved b = some target)
    (targetEnds : Ends moved target)
    (ends : Ends up a) : Ends moved a := by
  obtain ⟨fuel, top, climbed⟩ := ends
  induction fuel generalizing a with
  | zero => exact nomatch climbed
  | succ fuel inductionHypothesis =>
      rcases toTarget a with same | isMoved
      · cases parent : up a with
        | none => exact ends_of_none (same.trans parent)
        | some b =>
            rw [climb_of_some parent] at climbed
            exact (ends_iff_of_some (same.trans parent)).mpr (inductionHypothesis climbed)
      · exact (ends_iff_of_some isMoved).mpr targetEnds

/-- A climb does not change if none of the elements that it meets is moved. -/
theorem Ends.of_unmoved
    {a : α}
    (unmoved : ∀ b, Relation.ReflTransGen (fun a b => up a = some b) a b → moved b = up b)
    (ends : Ends up a) : Ends moved a := by
  obtain ⟨fuel, top, climbed⟩ := ends
  induction fuel generalizing a with
  | zero => exact nomatch climbed
  | succ fuel inductionHypothesis =>
      have same := unmoved a .refl
      cases parent : up a with
      | none => exact ends_of_none (same.trans parent)
      | some b =>
          rw [climb_of_some parent] at climbed
          refine (ends_iff_of_some (same.trans parent)).mpr (inductionHypothesis ?_ climbed)
          exact fun c above => unmoved c (.head parent above)

end Moving

namespace Forest

variable {children : α → List α} {up : α → Option α}

/-! ## Height -/

section Height

/-- The forest that is unfolded one level deeper is the same if it does not get higher. -/
theorem unfold_succ_of_height_le
    {depth : Nat}
    {roots : List α}
    (low : (unfold children (depth + 1) roots).height ≤ depth) :
    unfold children (depth + 1) roots = unfold children depth roots := by
  induction depth generalizing roots with
  | zero =>
      cases roots with
      | nil => rfl
      | cons root roots =>
          rw [unfold_cons, height] at low
          omega
  | succ depth inductionHypothesis =>
      induction roots with
      | nil => rfl
      | cons root roots inner =>
          rw [unfold_cons, height] at low
          rw [unfold_cons, unfold_cons, inner (by omega), inductionHypothesis (by omega)]

/-- The forest below some elements is not higher than the levels that are left to the
longest climb. -/
theorem height_unfold_le
    {elements : List α}
    (closed : ∀ a ∈ elements, children a ⊆ elements)
    (isParent : ∀ a ∈ elements, ∀ child ∈ children a, up child = some a)
    {bound : Nat}
    (ends : ∀ a ∈ elements, (climb up bound a).isSome)
    {left : Nat}
    (few : left ≤ bound)
    (depth : Nat)
    {roots : List α}
    (areElements : roots ⊆ elements)
    (late : ∀ root ∈ roots, climb up (bound - left) root = none) :
    (unfold children depth roots).height ≤ left := by
  induction left generalizing depth roots with
  | zero =>
      cases roots with
      | nil => simp [height]
      | cons root roots =>
          have climbed := ends root (areElements List.mem_cons_self)
          rw [Nat.sub_zero] at late
          rw [late root List.mem_cons_self] at climbed
          contradiction
  | succ left inductionHypothesis =>
      cases depth with
      | zero => simp [height]
      | succ depth =>
          induction roots with
          | nil => simp [height]
          | cons root roots inner =>
              obtain ⟨isElement, rest⟩ := List.cons_subset.mp areElements
              rw [List.forall_mem_cons] at late
              have below := inductionHypothesis (by omega) depth (closed root isElement)
                fun child isChild => by
                  have parent := isParent root isElement child isChild
                  rw [show bound - left = bound - (left + 1) + 1 by omega,
                    climb_of_some parent, late.1]
              have others := inner rest late.2
              rw [unfold_cons, height]
              omega

/-- If the forest does not get higher it does not change. -/
theorem unfold_eq_of_height_le
    {bound depth : Nat}
    {roots : List α}
    (low : ∀ depth, (unfold children depth roots).height ≤ bound)
    (enough : bound ≤ depth) :
    unfold children depth roots = unfold children bound roots := by
  induction depth, enough using Nat.le_induction with
  | base => rfl
  | succ depth enough inductionHypothesis =>
      rw [unfold_succ_of_height_le ((low _).trans enough), inductionHypothesis]

end Height

/-! ## Children and descendants -/

section Descendants

@[simp] theorem roots_unfold (depth : Nat) (roots : List α) :
    (unfold children (depth + 1) roots).roots = roots := by
  induction roots with
  | nil => simp
  | cons root roots inductionHypothesis =>
      rw [unfold_cons, roots_cons, inductionHypothesis]

/-- Every element of a forest that does not get higher has the children of the table. -/
theorem families_unfold
    {depth : Nat}
    {roots : List α}
    (low : (unfold children (depth + 1) roots).height ≤ depth) :
    ∀ family ∈ (unfold children (depth + 1) roots).families,
      family.2 = children family.1 := by
  induction depth generalizing roots with
  | zero =>
      rw [unfold_succ_of_height_le low]
      simp [families]
  | succ depth inductionHypothesis =>
      induction roots with
      | nil => simp [families]
      | cons root roots inner =>
          rw [unfold_cons, height] at low
          rw [unfold_cons, families, roots_unfold, List.forall_mem_cons,
            List.forall_mem_append]
          exact ⟨rfl, inductionHypothesis (by omega), inner (by omega)⟩

/-- One level deeper are the children of what is there. -/
theorem child_mem_unfold
    {depth : Nat}
    {roots : List α}
    {a child : α}
    (member : a ∈ (unfold children depth roots).toList)
    (isChild : child ∈ children a) :
    child ∈ (unfold children (depth + 1) roots).toList := by
  induction depth generalizing roots with
  | zero => simp at member
  | succ depth inductionHypothesis =>
      induction roots with
      | nil => simp at member
      | cons root roots inner =>
          rw [unfold_cons, toList_cons, List.mem_cons, List.mem_append] at member ⊢
          rcases member with rfl | below | beside
          · exact .inr (.inl (roots_subset _ (by rwa [roots_unfold])))
          · exact .inr (.inl (inductionHypothesis below))
          · exact .inr (.inr (inner beside))

/-- What is unfolded stays when one unfolds deeper. -/
theorem toList_unfold_subset
    {less more : Nat}
    (isLess : less ≤ more)
    (roots : List α) :
    (unfold children less roots).toList ⊆ (unfold children more roots).toList := by
  induction less generalizing more roots with
  | zero => simp
  | succ less inductionHypothesis =>
      obtain ⟨more, rfl⟩ := Nat.exists_eq_add_of_lt isLess
      induction roots with
      | nil => simp
      | cons root roots inner =>
          rw [unfold_cons, unfold_cons, toList_cons, toList_cons]
          refine List.cons_subset_cons _ (List.append_subset.mpr ⟨?_, ?_⟩)
          · exact List.subset_append_of_subset_left _
              (inductionHypothesis (by omega) (children root))
          · exact List.subset_append_of_subset_right _ inner

variable {elements : List α} {a b : α}

/-- What is unfolded below an element descends from it. -/
theorem descends_of_mem_unfold
    (isParent : ∀ a child, child ∈ children a → up child = some a)
    {depth : Nat}
    {roots : List α}
    (areRoots : ∀ root ∈ roots, Relation.TransGen (fun a b => up a = some b) root a)
    (member : b ∈ (unfold children depth roots).toList) :
    Relation.TransGen (fun a b => up a = some b) b a := by
  induction depth generalizing roots with
  | zero => simp at member
  | succ depth inductionHypothesis =>
      induction roots with
      | nil => simp at member
      | cons root roots inner =>
          rw [List.forall_mem_cons] at areRoots
          rw [unfold_cons, toList_cons, List.mem_cons, List.mem_append] at member
          rcases member with rfl | below | beside
          · exact areRoots.1
          · exact inductionHypothesis
              (fun child isChild => .head (isParent root child isChild) areRoots.1) below
          · exact inner areRoots.2 beside

/-- What descends from an element is unfolded below it. -/
theorem exists_mem_unfold_of_descends
    (closed : ∀ a ∈ elements, ∀ b, up a = some b → b ∈ elements)
    (isChild : ∀ a ∈ elements, ∀ b, up a = some b → a ∈ children b)
    (member : b ∈ elements)
    (descends : Relation.TransGen (fun a b => up a = some b) b a) :
    ∃ depth, b ∈ (unfold children depth (children a)).toList := by
  induction descends using Relation.TransGen.head_induction_on with
  | @single b parent =>
      exact ⟨1, roots_subset _ (by rw [roots_unfold]; exact isChild b member a parent)⟩
  | @head b c parent _ inductionHypothesis =>
      obtain ⟨depth, inForest⟩ := inductionHypothesis (closed b member c parent)
      exact ⟨depth + 1, child_mem_unfold inForest (isChild b member c parent)⟩

/-- Below an element are its descendants, if the forest does not get higher. -/
theorem mem_unfold_iff
    (closed : ∀ a ∈ elements, ∀ b, up a = some b → b ∈ elements)
    (isChild : ∀ a b, a ∈ children b ↔ a ∈ elements ∧ up a = some b)
    {bound depth : Nat}
    (low : ∀ depth, (unfold children depth (children a)).height ≤ bound)
    (enough : bound ≤ depth) :
    b ∈ (unfold children depth (children a)).toList ↔
      b ∈ elements ∧ Relation.TransGen (fun a b => up a = some b) b a := by
  constructor
  · intro member
    have areElements : children a ⊆ elements := fun child below =>
      ((isChild child a).mp below).1
    refine ⟨mem_of_mem_unfold children (fun c _ child below => ((isChild child c).mp below).1)
      areElements member, ?_⟩
    refine descends_of_mem_unfold (fun c child below => ((isChild child c).mp below).2)
      (fun root isRoot => .single ((isChild root a).mp isRoot).2) member
  · rintro ⟨member, descends⟩
    obtain ⟨other, inForest⟩ := exists_mem_unfold_of_descends closed
      (fun c isElement d parent => (isChild c d).mpr ⟨isElement, parent⟩) member descends
    have inBoth := toList_unfold_subset (Nat.le_max_left other depth) (children a) inForest
    rw [unfold_eq_of_height_le low (enough.trans (Nat.le_max_right other depth)),
      ← unfold_eq_of_height_le low enough] at inBoth
    exact inBoth

end Descendants

end Forest
end Library
