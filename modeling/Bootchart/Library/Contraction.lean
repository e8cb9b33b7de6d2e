import Bootchart.Library.Cut

/-!
# Contracting a forest

Elements are removed from a forest, and the children of a removed element take its place,
in the opposite order. Whether an element is removed depends on its children and on whether
it lies below another one. What stays is above each other as before.
-/

namespace Library
namespace Forest

variable {α : Type*}

/-! ## Ancestors -/

/-- An element is above another one that lies below it. -/
def Above : Forest α → α → α → Prop
  | nil, _, _ => False
  | cons root children siblings, a, b =>
      (a = root ∧ b ∈ children.toList) ∨ children.Above a b ∨ siblings.Above a b

@[simp] theorem above_nil (a b : α) : ¬(nil : Forest α).Above a b := id

@[simp] theorem above_cons (root : α) (children siblings : Forest α) (a b : α) :
    (cons root children siblings).Above a b ↔
      (a = root ∧ b ∈ children.toList) ∨ children.Above a b ∨ siblings.Above a b :=
  Iff.rfl

/-- Trees that stand behind others are apart from them. -/
@[simp] theorem above_append (first second : Forest α) (a b : α) :
    (first ++ second).Above a b ↔ first.Above a b ∨ second.Above a b := by
  induction first with
  | nil => simp
  | cons root children siblings _ inductionHypothesis =>
      rw [cons_append, above_cons, inductionHypothesis, above_cons]
      tauto

/-- The order of trees does not matter. -/
@[simp] theorem above_reverse (forest : Forest α) (a b : α) :
    forest.reverse.Above a b ↔ forest.Above a b := by
  induction forest with
  | nil => rfl
  | cons root children siblings _ inductionHypothesis =>
      rw [reverse, above_append, inductionHypothesis, above_cons, above_cons]
      simp only [above_nil]
      tauto

/-- Elements that are above each other are in the forest. -/
theorem Above.mem
    {forest : Forest α}
    {a b : α}
    (above : forest.Above a b) : a ∈ forest.toList ∧ b ∈ forest.toList := by
  induction forest with
  | nil => exact absurd above (above_nil a b)
  | cons root children siblings first second =>
      simp only [toList_cons, List.mem_cons, List.mem_append]
      rcases above with ⟨rfl, below⟩ | inChildren | inSiblings
      · exact ⟨.inl rfl, .inr (.inl below)⟩
      · exact ⟨.inr (.inl (first inChildren).1), .inr (.inl (first inChildren).2)⟩
      · exact ⟨.inr (.inr (second inSiblings).1), .inr (.inr (second inSiblings).2)⟩

/-! ## Nodes -/

/-- The elements in preorder, each with whether it lies below another one, and with its
children. -/
def nodes : Bool → Forest α → List (Bool × α × Forest α)
  | _, nil => []
  | below, cons root children siblings =>
      (below, root, children) :: (children.nodes true ++ siblings.nodes below)

@[simp] theorem nodes_nil (below : Bool) : (nil : Forest α).nodes below = [] := rfl

@[simp] theorem nodes_cons (below : Bool) (root : α) (children siblings : Forest α) :
    (cons root children siblings).nodes below =
      (below, root, children) :: (children.nodes true ++ siblings.nodes below) := rfl

@[simp] theorem nodes_append (below : Bool) (first second : Forest α) :
    (first ++ second).nodes below = first.nodes below ++ second.nodes below := by
  induction first with
  | nil => rfl
  | cons root children siblings _ inductionHypothesis =>
      simp [inductionHypothesis]

/-- The nodes of the trees in the opposite order. -/
theorem nodes_reverse_perm (below : Bool) (forest : Forest α) :
    (forest.reverse.nodes below).Perm (forest.nodes below) := by
  induction forest with
  | nil => rfl
  | cons root children siblings _ inductionHypothesis =>
      rw [reverse, nodes_append, nodes_cons, nodes_cons, nodes_nil, List.append_nil]
      exact (inductionHypothesis.append_right _).trans List.perm_append_comm

/-- The elements of the nodes are those of the forest. -/
theorem map_nodes (below : Bool) (forest : Forest α) :
    (forest.nodes below).map (fun node => node.2.1) = forest.toList := by
  induction forest generalizing below with
  | nil => rfl
  | cons root children siblings first second => simp [first, second]

/-- There are as many nodes as elements. -/
theorem length_nodes (below : Bool) (forest : Forest α) :
    (forest.nodes below).length = forest.size := by
  induction forest generalizing below with
  | nil => rfl
  | cons root children siblings first second =>
      simp only [nodes_cons, List.length_cons, List.length_append, first, second, size_cons]
      omega

/-- The families of a forest are its nodes. -/
theorem families_eq_map_nodes (below : Bool) (forest : Forest α) :
    forest.families = (forest.nodes below).map fun node => (node.2.1, node.2.2.roots) := by
  induction forest generalizing below with
  | nil => rfl
  | cons root children siblings first second =>
      rw [families, nodes_cons, List.map_cons, List.map_append, ← first, ← second]

/-- A forest without nodes is empty. -/
theorem nodes_eq_nil (below : Bool) {forest : Forest α} :
    forest.nodes below = [] ↔ forest = nil := by
  cases forest <;> simp

/-! ## Contraction -/

section Contract

variable (removes : Bool → α → Forest α → Bool)

/-- Remove elements, from the roots down; the children of a removed element are looked at
in its place. -/
def contract : Bool → Forest α → Forest α
  | _, nil => nil
  | below, cons root children siblings =>
      if removes below root children then contract below (children.reverse ++ siblings)
      else cons root (contract true children) (contract below siblings)
termination_by _ forest => forest.size
decreasing_by
  all_goals simp only [size_append, size_reverse, size_cons]
  all_goals omega

/-- A node is removed. -/
def removesNode (node : Bool × α × Forest α) : Bool :=
  removes node.1 node.2.1 node.2.2

@[simp] theorem contract_nil (below : Bool) : contract removes below nil = nil := by
  rw [contract]

variable {removes}

/-- An element that is removed leaves its children. -/
theorem contract_removed
    {below : Bool}
    {root : α}
    {children : Forest α}
    (isRemoved : removes below root children)
    (siblings : Forest α) :
    contract removes below (cons root children siblings) =
      contract removes below (children.reverse ++ siblings) := by
  rw [contract, if_pos isRemoved]

/-- An element that is not removed stays. -/
theorem contract_kept
    {below : Bool}
    {root : α}
    {children : Forest α}
    (isKept : ¬removes below root children)
    (siblings : Forest α) :
    contract removes below (cons root children siblings) =
      cons root (contract removes true children) (contract removes below siblings) := by
  rw [contract, if_neg isKept]

variable (removes) in
/-- Contraction adds no elements. -/
theorem toList_contract_subperm (below : Bool) (forest : Forest α) :
    (contract removes below forest).toList.Subperm forest.toList := by
  fun_induction contract removes below forest with
  | case1 => exact List.Subperm.refl _
  | case2 below root children siblings isRemoved inductionHypothesis =>
      refine inductionHypothesis.trans ?_
      rw [toList_append]
      have perm := (toList_reverse_perm children).append_right siblings.toList
      exact perm.subperm.trans (List.sublist_cons_self _ _).subperm
  | case3 below root children siblings isKept first second =>
      exact (List.subperm_cons root).mpr (first.append second)

/-- The elements of a contraction are distinct. -/
theorem nodup_contract
    {forest : Forest α}
    (distinct : forest.toList.Nodup)
    (below : Bool) : (contract removes below forest).toList.Nodup := by
  obtain ⟨elements, perm, sublist⟩ := toList_contract_subperm removes below forest
  exact perm.nodup_iff.mp (distinct.sublist sublist)

/-- Of the elements that stay, one is above another if and only if it was before. -/
theorem above_contract
    {forest : Forest α}
    (distinct : forest.toList.Nodup)
    (below : Bool)
    {a b : α}
    (staysFirst : a ∈ (contract removes below forest).toList)
    (staysSecond : b ∈ (contract removes below forest).toList) :
    (contract removes below forest).Above a b ↔ forest.Above a b := by
  fun_induction contract removes below forest with
  | case1 => rfl
  | case2 below root children siblings isRemoved inductionHypothesis =>
      obtain ⟨notBelow, notSibling, childrenDistinct, siblingsDistinct, apart⟩ :=
        nodup_toList_cons.mp distinct
      have stillDistinct : (children.reverse ++ siblings).toList.Nodup := by
        rw [toList_append]
        refine ((toList_reverse_perm children).append_right _).nodup_iff.mpr ?_
        exact List.nodup_append'.mpr
          ⟨childrenDistinct, siblingsDistinct, List.disjoint_right.mpr apart⟩
      have notRoot : a ≠ root := by
        rintro rfl
        have member := (toList_contract_subperm removes below _).subset staysFirst
        rw [toList_append, List.mem_append, (toList_reverse_perm children).mem_iff] at member
        exact member.elim notBelow notSibling
      rw [inductionHypothesis stillDistinct staysFirst staysSecond, above_append,
        above_reverse, above_cons]
      simp only [notRoot, false_and, false_or]
  | case3 below root children siblings isKept first second =>
      obtain ⟨notBelow, notSibling, childrenDistinct, siblingsDistinct, apart⟩ :=
        nodup_toList_cons.mp distinct
      have lessChildren := (toList_contract_subperm removes true children).subset
      have lessSiblings := (toList_contract_subperm removes below siblings).subset
      rw [toList_cons, List.mem_cons, List.mem_append] at staysFirst staysSecond
      -- what stays stays on its side
      have inChildren {x : α} (member : x ∈ children.toList)
          (stays : x = root ∨ x ∈ (contract removes true children).toList ∨
            x ∈ (contract removes below siblings).toList) :
          x ∈ (contract removes true children).toList := by
        rcases stays with rfl | stays | isSibling
        · exact absurd member notBelow
        · exact stays
        · exact absurd member (apart x (lessSiblings isSibling))
      have inSiblings {x : α} (member : x ∈ siblings.toList)
          (stays : x = root ∨ x ∈ (contract removes true children).toList ∨
            x ∈ (contract removes below siblings).toList) :
          x ∈ (contract removes below siblings).toList := by
        rcases stays with rfl | isChild | stays
        · exact absurd member notSibling
        · exact absurd (lessChildren isChild) (apart x member)
        · exact stays
      rw [above_cons, above_cons]
      refine or_congr ?_ (or_congr ?_ ?_)
      · exact and_congr_right fun _ =>
          ⟨fun member => lessChildren member, fun member => inChildren member staysSecond⟩
      · constructor
        · intro above
          exact (first childrenDistinct above.mem.1 above.mem.2).mp above
        · intro above
          exact (first childrenDistinct (inChildren above.mem.1 staysFirst)
            (inChildren above.mem.2 staysSecond)).mpr above
      · constructor
        · intro above
          exact (second siblingsDistinct above.mem.1 above.mem.2).mp above
        · intro above
          exact (second siblingsDistinct (inSiblings above.mem.1 staysFirst)
            (inSiblings above.mem.2 staysSecond)).mpr above

section Nodes

variable (sparing : ∀ root children, removes false root children → children = nil)

include sparing

/-- What takes the place of a removed element are its children as they were below it. -/
theorem nodes_removed_perm
    {below : Bool}
    {root : α}
    {children : Forest α}
    (isRemoved : removes below root children)
    (siblings : Forest α) :
    ((children.reverse ++ siblings).nodes below).Perm
      (children.nodes true ++ siblings.nodes below) := by
  rw [nodes_append]
  refine List.Perm.append_right _ ?_
  cases below with
  | true => exact nodes_reverse_perm true children
  | false =>
      rw [sparing root children isRemoved]
      rfl

/-- The nodes of a contraction are those that are not removed, with their children
contracted. -/
theorem nodes_contract_perm (below : Bool) (forest : Forest α) :
    ((contract removes below forest).nodes below).Perm
      (((forest.nodes below).filter fun node => !removesNode removes node).map fun node =>
        (node.1, node.2.1, contract removes true node.2.2)) := by
  fun_induction contract removes below forest with
  | case1 => rfl
  | case2 below root children siblings isRemoved inductionHypothesis =>
      refine inductionHypothesis.trans ?_
      rw [nodes_cons, List.filter_cons_of_neg (by simpa [removesNode] using isRemoved)]
      exact ((nodes_removed_perm sparing isRemoved siblings).filter _).map _
  | case3 below root children siblings isKept first second =>
      rw [nodes_cons, nodes_cons, List.filter_cons_of_pos (by simpa [removesNode] using isKept),
        List.map_cons, List.filter_append, List.map_append]
      exact (first.append second).cons _

/-- A node of a contraction is one that is not removed. -/
theorem mem_nodes_contract
    {below : Bool}
    {forest : Forest α}
    {node : Bool × α × Forest α} :
    node ∈ (contract removes below forest).nodes below ↔
      ∃ children, (node.1, node.2.1, children) ∈ forest.nodes below ∧
        ¬removes node.1 node.2.1 children ∧ node.2.2 = contract removes true children := by
  rw [(nodes_contract_perm sparing below forest).mem_iff, List.mem_map]
  constructor
  · rintro ⟨original, member, rfl⟩
    obtain ⟨isNode, isKept⟩ := List.mem_filter.mp member
    exact ⟨original.2.2, isNode, by simpa [removesNode] using isKept, rfl⟩
  · rintro ⟨children, isNode, isKept, same⟩
    refine ⟨(node.1, node.2.1, children), List.mem_filter.mpr ⟨isNode, ?_⟩, ?_⟩
    · simpa [removesNode] using isKept
    · rw [← same]

/-- What is removed is missing. -/
theorem size_contract_add (below : Bool) (forest : Forest α) :
    (contract removes below forest).size + (forest.nodes below).countP (removesNode removes) =
      forest.size := by
  rw [← length_nodes below, (nodes_contract_perm sparing below forest).length_eq,
    List.length_map, ← length_nodes below forest, ← List.countP_eq_length_filter, add_comm]
  have parts := List.length_eq_countP_add_countP (removesNode removes) (l := forest.nodes below)
  simpa using parts.symm

/-- Everything is removed from a forest if and only if nothing is left. -/
theorem contract_eq_nil_iff {below : Bool} {forest : Forest α} :
    contract removes below forest = nil ↔
      ∀ node ∈ forest.nodes below, removesNode removes node := by
  rw [← nodes_eq_nil below, ← List.length_eq_zero_iff,
    (nodes_contract_perm sparing below forest).length_eq, List.length_map,
    List.length_eq_zero_iff, List.filter_eq_nil_iff]
  simp

/-- An element that does not stay was removed with the children it had at first. -/
theorem exists_removed
    {below : Bool}
    {forest : Forest α}
    {a : α}
    (member : a ∈ forest.toList)
    (goes : a ∉ (contract removes below forest).toList) :
    ∃ node ∈ forest.nodes below, node.2.1 = a ∧ removesNode removes node := by
  rw [← map_nodes below] at member
  obtain ⟨node, isNode, rfl⟩ := List.mem_map.mp member
  refine ⟨node, isNode, rfl, ?_⟩
  by_contra isKept
  apply goes
  rw [← map_nodes below]
  refine List.mem_map.mpr ⟨(node.1, node.2.1, contract removes true node.2.2), ?_, rfl⟩
  rw [mem_nodes_contract sparing]
  exact ⟨node.2.2, isNode, isKept, rfl⟩

/-- A second contraction removes nothing if and only if no node that stays would be removed
with the children that are left of it. -/
theorem contracted_iff {below : Bool} {forest : Forest α} :
    (∀ node ∈ (contract removes below forest).nodes below, ¬removesNode removes node) ↔
      ∀ node ∈ forest.nodes below, ¬removesNode removes node →
        ¬removes node.1 node.2.1 (contract removes true node.2.2) := by
  constructor
  · intro none node isNode isKept
    exact none (node.1, node.2.1, contract removes true node.2.2)
      ((mem_nodes_contract sparing).mpr ⟨node.2.2, isNode, isKept, rfl⟩)
  · intro none node isNode
    obtain ⟨children, isOriginal, isKept, same⟩ := (mem_nodes_contract sparing).mp isNode
    rw [removesNode, same]
    exact none _ isOriginal isKept

end Nodes

end Contract

end Forest
end Library
