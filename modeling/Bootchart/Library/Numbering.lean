import Bootchart.Library.Forest

/-!
# Numbered forests

The elements of a forest are numbered in preorder. A parent has a smaller number than its
children, and the numbers of a tree lie between those of its neighbours.
-/

namespace Library
namespace Forest

variable {α : Type*}

/-- The elements with their numbers, from a first one on. -/
def numbered (first : Nat) : Forest α → Forest (α × Nat)
  | nil => nil
  | cons root children siblings =>
      cons (root, first) (children.numbered (first + 1))
        (siblings.numbered (first + (children.size + 1)))

@[simp] theorem numbered_nil (first : Nat) : (nil : Forest α).numbered first = nil := rfl

@[simp] theorem numbered_cons (first : Nat) (root : α) (children siblings : Forest α) :
    (cons root children siblings).numbered first =
      cons (root, first) (children.numbered (first + 1))
        (siblings.numbered (first + (children.size + 1))) := rfl

/-- The numbers follow each other in preorder. -/
theorem toList_numbered (first : Nat) (forest : Forest α) :
    (forest.numbered first).toList = forest.toList.zipIdx first := by
  induction forest generalizing first with
  | nil => rfl
  | cons root children siblings inChildren inSiblings =>
      rw [numbered_cons, toList_cons, toList_cons, List.zipIdx_cons, List.zipIdx_append,
        inChildren, inSiblings, length_toList, Nat.add_right_comm first 1, Nat.add_assoc first]

/-- The numbers that are given. -/
theorem bounds_of_mem_numbered
    {first : Nat}
    {forest : Forest α}
    {element : α × Nat}
    (member : element ∈ (forest.numbered first).toList) :
    first ≤ element.2 ∧ element.2 < first + forest.size := by
  rw [toList_numbered] at member
  rw [← length_toList]
  exact ⟨List.le_snd_of_mem_zipIdx member, List.snd_lt_add_of_mem_zipIdx member⟩

/-! ## Parents and children -/

/-- A parent and each of the children that a forest begins with, those further down in front of
them. -/
def links (parent : α) : Forest α → List (α × α)
  | nil => []
  | cons child children siblings =>
      links child children ++ (parent, child) :: links parent siblings

/-- Each parent with each of its children. -/
def edges : Forest α → List (α × α)
  | nil => []
  | cons root children siblings => links root children ++ edges siblings

/-- The children below a parent are all that is below it. -/
theorem map_snd_links (parent : α) (forest : Forest α) :
    (links parent forest).map Prod.snd |>.Perm forest.toList := by
  induction forest generalizing parent with
  | nil => rfl
  | cons child children siblings first second =>
      rw [links, List.map_append, List.map_cons, toList_cons]
      exact ((first child).append ((second parent).cons child)).trans List.perm_middle

/-- Every element is a root or a child, and no element is both or twice a child. -/
theorem roots_append_edges (forest : Forest α) :
    (forest.roots ++ forest.edges.map Prod.snd).Perm forest.toList := by
  induction forest with
  | nil => rfl
  | cons root children siblings _ inductionHypothesis =>
      rw [roots_cons, edges, List.map_append, toList_cons, List.cons_append]
      apply List.Perm.cons
      calc siblings.roots ++ ((links root children).map Prod.snd ++ siblings.edges.map Prod.snd)
          |>.Perm ((links root children).map Prod.snd ++
              (siblings.roots ++ siblings.edges.map Prod.snd)) := by
            rw [← List.append_assoc, ← List.append_assoc]
            exact List.perm_append_comm.append_right _
        _ |>.Perm (children.toList ++ siblings.toList) :=
            (map_snd_links root children).append inductionHypothesis

/-- A child below a parent has a larger number than its own parent. -/
theorem lt_of_mem_links
    {first : Nat}
    {parent : α × Nat}
    {forest : Forest α}
    (above : parent.2 < first)
    {link : (α × Nat) × (α × Nat)}
    (member : link ∈ links parent (forest.numbered first)) :
    link.1.2 < link.2.2 := by
  induction forest generalizing first parent with
  | nil => exact absurd member List.not_mem_nil
  | cons child children siblings inChildren inSiblings =>
      rw [numbered_cons, links] at member
      rcases List.mem_append.mp member with below | rest
      · exact inChildren (Nat.lt_succ_self _) below
      · rcases List.mem_cons.mp rest with rfl | behind
        · exact above
        · exact inSiblings (by omega) behind

/-- A parent has a smaller number than its child. -/
theorem lt_of_mem_edges
    {first : Nat}
    {forest : Forest α}
    {edge : (α × Nat) × (α × Nat)}
    (member : edge ∈ (forest.numbered first).edges) :
    edge.1.2 < edge.2.2 := by
  induction forest generalizing first with
  | nil => exact absurd member List.not_mem_nil
  | cons root children siblings _ inductionHypothesis =>
      rw [numbered_cons, edges] at member
      rcases List.mem_append.mp member with below | behind
      · exact lt_of_mem_links (Nat.lt_succ_self _) below
      · exact inductionHypothesis behind

end Forest
end Library
