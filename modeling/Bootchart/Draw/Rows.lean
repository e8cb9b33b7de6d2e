import Bootchart.Draw.Clipping
import Bootchart.Draw.Render
import Bootchart.Library.Numbering
import Mathlib.Tactic.Linarith

/-!
# The rows of processes

Each process has a row of its own: the rows lie one below the other, in the order in which the
tree is gone through, and every process below a root is connected with its own parent. A clip only
leaves out rows that lie below it.
-/

namespace Bootchart
namespace Draw

open Library (Text Forest)

/-! ## Boxes and lines -/

/-- The border of the box of a process, which is as high as a row. -/
def Command.box? : Command → Option Rect
  | .strokeRect color rect =>
      if color = procBorderColor ∧ rect.height = procH then some rect else none
  | _ => none

/-- A line between two processes. -/
def Command.connects : Command → Bool
  | .strokePath color _ _ => color = depColor
  | _ => false

/-- The boxes of processes that are drawn. -/
def Drawing.boxes (drawing : Drawing) : List Rect :=
  drawing.issued.filterMap Command.box?

/-- The lines between processes that are drawn. -/
def Drawing.lines (drawing : Drawing) : List Command :=
  drawing.issued.filter Command.connects

/-- The boxes of processes in a drawing, also behind a failure. -/
def Drawing.allBoxes (drawing : Drawing) : List Rect :=
  drawing.commands.filterMap Command.box?

/-- The lines between processes in a drawing, also behind a failure. -/
def Drawing.allLines (drawing : Drawing) : List Command :=
  drawing.commands.filter Command.connects

/-- The boxes that are drawn are among all boxes. -/
theorem boxes_sublist (drawing : Drawing) : drawing.boxes.Sublist drawing.allBoxes :=
  ((List.takeWhile_sublist _).filterMap _).filterMap _

/-- If all commands are issued, all boxes are drawn. -/
theorem boxes_eq_allBoxes {drawing : Drawing} (all : drawing.issued = drawing.commands) :
    drawing.boxes = drawing.allBoxes := by
  rw [Drawing.boxes, all, Drawing.allBoxes]

/-- And all lines. -/
theorem lines_eq_allLines {drawing : Drawing} (all : drawing.issued = drawing.commands) :
    drawing.lines = drawing.allLines := by
  rw [Drawing.lines, all, Drawing.allLines]

@[simp] theorem allBoxes_append (first second : Drawing) :
    Drawing.allBoxes (first ++ second) = first.allBoxes ++ second.allBoxes := by
  rw [Drawing.allBoxes, commands_append, List.filterMap_append]
  rfl

@[simp] theorem allLines_append (first second : Drawing) :
    Drawing.allLines (first ++ second) = first.allLines ++ second.allLines := by
  rw [Drawing.allLines, commands_append, List.filter_append]
  rfl

/-- A command draws neither the box of a process nor a line between two of them. -/
def Command.Rowless (command : Command) : Prop :=
  command.box? = none ∧ command.connects = false

/-- A drawing has neither boxes of processes nor lines between them. -/
def Rowless (drawing : Drawing) : Prop :=
  ∀ command, Event.command command ∈ drawing → command.Rowless

section Rowless

@[simp] theorem rowless_nil : Rowless [] := by
  simp [Rowless]

@[simp] theorem rowless_append (first second : Drawing) :
    Rowless (first ++ second) ↔ Rowless first ∧ Rowless second := by
  simp [Rowless, or_imp, forall_and]

@[simp] theorem rowless_command (command : Command) (drawing : Drawing) :
    Rowless (.command command :: drawing) ↔
      command.Rowless ∧ Rowless drawing := by
  simp [Rowless, or_imp, forall_and]

@[simp] theorem rowless_perDuration (duration : ℚ) (drawing : Drawing) :
    Rowless (.perDuration duration :: drawing) ↔ Rowless drawing := by
  simp [Rowless]

@[simp] theorem rowless_steps (step : ℤ) (drawing : Drawing) :
    Rowless (.steps step :: drawing) ↔ Rowless drawing := by
  simp [Rowless]

@[simp] theorem rowless_maximum (numbers : List ℚ) (drawing : Drawing) :
    Rowless (.maximum numbers :: drawing) ↔ Rowless drawing := by
  simp [Rowless]

@[simp] theorem rowless_perLargest (largest : ℚ) (drawing : Drawing) :
    Rowless (.perLargest largest :: drawing) ↔ Rowless drawing := by
  simp [Rowless]

@[simp] theorem rowless_perRange (range : ℚ) (drawing : Drawing) :
    Rowless (.perRange range :: drawing) ↔ Rowless drawing := by
  simp [Rowless]

/-- Such a drawing has no boxes. -/
theorem Rowless.allBoxes_eq {drawing : Drawing} (rowless : Rowless drawing) :
    drawing.allBoxes = [] := by
  rw [Drawing.allBoxes, List.filterMap_eq_nil_iff]
  intro command member
  rw [Drawing.commands, List.mem_filterMap] at member
  obtain ⟨event, isEvent, isCommand⟩ := member
  cases event with
  | command other =>
      cases isCommand
      exact (rowless command isEvent).1
  | perDuration _ => cases isCommand
  | perLargest _ => cases isCommand
  | perRange _ => cases isCommand
  | maximum _ => cases isCommand
  | steps _ => cases isCommand

/-- Such a drawing has no lines. -/
theorem Rowless.allLines_eq {drawing : Drawing} (rowless : Rowless drawing) :
    drawing.allLines = [] := by
  rw [Drawing.allLines, List.filter_eq_nil_iff]
  intro command member
  rw [Drawing.commands, List.mem_filterMap] at member
  obtain ⟨event, isEvent, isCommand⟩ := member
  cases event with
  | command other =>
      cases isCommand
      rw [(rowless command isEvent).2]
      exact Bool.false_ne_true
  | perDuration _ => cases isCommand
  | perLargest _ => cases isCommand
  | perRange _ => cases isCommand
  | maximum _ => cases isCommand
  | steps _ => cases isCommand

/-- A command in front that draws no box. -/
theorem allBoxes_command {command : Command} (rowless : command.Rowless) (drawing : Drawing) :
    Drawing.allBoxes (.command command :: drawing) = drawing.allBoxes := by
  rw [Drawing.allBoxes, commands_command, List.filterMap_cons, rowless.1]
  rfl

end Rowless

namespace Scene

variable (scene : Scene) (clip : Clip)

/-! ## One row -/

/-- Bars are neither boxes nor lines. -/
theorem rowless_activityFrom (y lastTx : ℚ) (samples : List ProcessSample) :
    Rowless (scene.activityFrom clip y lastTx samples) := by
  induction samples generalizing lastTx with
  | nil => exact rowless_nil
  | cons sample samples inductionHypothesis =>
      rw [activityFrom]
      dsimp only
      rw [rowless_perDuration]
      split
      · exact inductionHypothesis _
      · split
        · exact rowless_nil
        · rw [rowless_perDuration, rowless_append]
          refine ⟨?_, inductionHypothesis _⟩
          cases sampleColor sample with
          | none => exact rowless_nil
          | some color => exact (rowless_command _ _).mpr ⟨⟨rfl, rfl⟩, rowless_nil⟩

/-- What a process does is neither a box nor a line. -/
theorem rowless_drawProcessActivityColors (proc : ProcessId) (y : ℚ) :
    Rowless (scene.drawProcessActivityColors clip proc y) := by
  rw [drawProcessActivityColors]
  split
  · exact rowless_nil
  · exact (rowless_command _ _).mpr ⟨⟨rfl, rfl⟩, scene.rowless_activityFrom clip _ _ _⟩

/-- The box of a process in the row of a number. -/
def rowBox (y : ℚ) (row : ProcessId × Nat) : Rect :=
  ⟨scene.processX row.1, y + procH * row.2, scene.processW row.1, procH⟩

/-- The line from a child to its parent, in the rows of their numbers. -/
def rowLine (y : ℚ) (edge : (ProcessId × Nat) × (ProcessId × Nat)) : Command :=
  connectingLines (scene.processX edge.1.1) (y + procH * edge.1.2) (scene.processX edge.2.1)
    (y + procH * edge.2.2)

/-- The row of a process has its box. -/
theorem allBoxes_drawRow (y : ℚ) (row : ProcessId × Nat) :
    (scene.drawRow clip row.1 (y + procH * row.2)).allBoxes = [scene.rowBox y row] := by
  have activity := scene.rowless_drawProcessActivityColors clip row.1 (y + procH * row.2)
  rw [drawRow, allBoxes_append, allBoxes_append, allBoxes_append, activity.allBoxes_eq]
  change [] ++ [] ++ List.filterMap Command.box? [_] ++ [] = _
  rw [List.filterMap_cons, Command.box?, if_pos ⟨rfl, rfl⟩]
  rfl

/-- The row of a process has no line. -/
theorem allLines_drawRow (y : ℚ) (proc : ProcessId) :
    (scene.drawRow clip proc y).allLines = [] := by
  have activity := scene.rowless_drawProcessActivityColors clip proc y
  rw [drawRow, allLines_append, allLines_append, allLines_append, activity.allLines_eq]
  rfl

/-- A line is a line. -/
theorem allLines_connectingLines (px py x y : ℚ) :
    Drawing.allLines [.command (connectingLines px py x y)] = [connectingLines px py x y] := by
  simp [Drawing.allLines, Command.connects, connectingLines]

/-! ## All rows -/

/-- A row does not lie below the clip. -/
def reaches (y : ℚ) (row : ProcessId × Nat) : Bool :=
  !isBelow clip (y + procH * row.2)

/-- Rows below a row that lies below the clip lie below it. -/
theorem isBelow_mono {high low : ℚ} (le : high ≤ low) (below : isBelow clip high = true) :
    isBelow clip low = true := by
  cases clip with
  | none => exact below
  | some clip =>
      rw [isBelow, Option.any_some, decide_eq_true_eq] at below ⊢
      exact below.trans_le le

/-- Where the rows go on behind a first one. -/
theorem next_row (y : ℚ) (first : Nat) :
    y + procH * first + procH = y + procH * (first + 1 : Nat) := by
  push_cast
  ring

/-- Where the rows go on behind a tree. -/
theorem next_tree (y : ℚ) (first count : Nat) :
    y + procH * first + procH * (count + 1) = y + procH * (first + (count + 1) : Nat) := by
  push_cast
  ring

/-- No row from the first one on reaches the clip if that one does not. -/
theorem filter_reaches_eq_nil
    {y : ℚ}
    {first : Nat}
    (below : isBelow clip (y + procH * first) = true)
    (forest : Forest ProcessId) :
    (forest.numbered first).toList.filter (reaches clip y) = [] := by
  rw [List.filter_eq_nil_iff]
  intro row member
  have bound : (first : ℚ) ≤ row.2 := Nat.cast_le.mpr (Forest.bounds_of_mem_numbered member).1
  have lower : y + procH * first ≤ y + procH * row.2 := by
    rw [procH]
    linarith
  rw [reaches, isBelow_mono clip lower below]
  exact Bool.false_ne_true

/-- The children below a process, from a row on. -/
theorem allBoxes_drawChildren (px py y : ℚ) (first : Nat) (forest : Forest ProcessId) :
    (scene.drawChildren clip px py (y + procH * first) forest).allBoxes =
      ((forest.numbered first).toList.filter (reaches clip y)).map (scene.rowBox y) := by
  induction forest generalizing px py first with
  | nil => rfl
  | cons child children siblings inChildren inSiblings =>
      rw [drawChildren]
      split
      next below => rw [filter_reaches_eq_nil clip below]; rfl
      next above =>
        have shows : reaches clip y (child, first) = true := by
          rw [reaches, Bool.eq_false_iff.mpr above]
          rfl
        dsimp only
        rw [allBoxes_append, allBoxes_append, scene.allBoxes_drawRow clip y (child, first), next_row,
          next_tree, inChildren]
        change _ ++ _ ++ Drawing.allBoxes ([_] ++ _) = _
        rw [allBoxes_append, inSiblings, Forest.numbered_cons, Forest.toList_cons,
          List.filter_cons_of_pos shows, List.filter_append, List.map_cons, List.map_append,
          List.append_assoc]
        rfl

/-- The lines from children to their parents, below a process. -/
theorem allLines_drawChildren
    (y : ℚ)
    (first : Nat)
    (parent : ProcessId × Nat)
    (forest : Forest ProcessId) :
    (scene.drawChildren clip (scene.processX parent.1) (y + procH * parent.2)
        (y + procH * first) forest).allLines =
      ((Forest.links parent (forest.numbered first)).filter
        fun edge => reaches clip y edge.2).map (scene.rowLine y) := by
  induction forest generalizing parent first with
  | nil => rfl
  | cons child children siblings inChildren inSiblings =>
      rw [drawChildren]
      split
      next below =>
        have none : (Forest.links parent ((Forest.cons child children siblings).numbered
            first)).filter (fun edge => reaches clip y edge.2) = [] := by
          rw [List.filter_eq_nil_iff]
          intro edge member
          have isChild := (Forest.map_snd_links parent _).subset (List.mem_map_of_mem member)
          have none := filter_reaches_eq_nil clip below (Forest.cons child children siblings)
          exact List.filter_eq_nil_iff.mp none edge.2 isChild
        rw [none]
        rfl
      next above =>
        have shows : reaches clip y (child, first) = true := by
          rw [reaches, Bool.eq_false_iff.mpr above]
          rfl
        dsimp only
        rw [allLines_append, allLines_append, allLines_drawRow, next_row, next_tree,
          inChildren (first + 1) (child, first)]
        change _ ++ _ ++ Drawing.allLines ([_] ++ _) = _
        rw [allLines_append, allLines_connectingLines, inSiblings _ parent, Forest.numbered_cons,
          Forest.links, List.filter_append, List.filter_cons, if_pos shows, List.map_append, List.map_cons,
          List.nil_append]
        rfl

/-- The first roots with what is below them, from a row on. -/
theorem allBoxes_drawRoots_from (y : ℚ) (first : Nat) (forest : Forest ProcessId) :
    (scene.drawRoots clip (y + procH * first) forest).allBoxes =
      ((forest.numbered first).toList.filter fun row =>
        row ∈ (forest.numbered first).roots ∨ reaches clip y row).map (scene.rowBox y) := by
  induction forest generalizing first with
  | nil => rfl
  | cons root children siblings _ inductionHypothesis =>
      have inChildren : (children.numbered (first + 1)).toList.filter (fun row =>
          row ∈ ((Forest.cons root children siblings).numbered first).roots ∨
            reaches clip y row) =
          (children.numbered (first + 1)).toList.filter (reaches clip y) := by
        apply List.filter_congr
        intro row member
        have bounds := Forest.bounds_of_mem_numbered member
        have noRoot : row ∉ ((Forest.cons root children siblings).numbered first).roots := by
          rw [Forest.numbered_cons, Forest.roots_cons, List.mem_cons, not_or]
          constructor
          · rintro rfl
            exact absurd bounds.1 (by simp)
          · intro isRoot
            have other := Forest.bounds_of_mem_numbered ((Forest.roots_sublist _).subset isRoot)
            omega
        simp only [noRoot, false_or, Bool.decide_eq_true]
      have inSiblings : (siblings.numbered (first + (children.size + 1))).toList.filter (fun row =>
          row ∈ ((Forest.cons root children siblings).numbered first).roots ∨
            reaches clip y row) =
          (siblings.numbered (first + (children.size + 1))).toList.filter fun row =>
            row ∈ (siblings.numbered (first + (children.size + 1))).roots ∨
              reaches clip y row := by
        apply List.filter_congr
        intro row member
        have bounds := Forest.bounds_of_mem_numbered member
        have noFirst : row ≠ (root, first) := by
          rintro rfl
          exact absurd bounds.1 (by simp)
        simp [noFirst]
      rw [drawRoots, drawProcessesRecursively, allBoxes_append, allBoxes_append,
        scene.allBoxes_drawRow clip y (root, first), next_row, next_tree, allBoxes_drawChildren,
        inductionHypothesis, ← inSiblings, ← inChildren]
      simp

/-- The lines below the first roots, from a row on. -/
theorem allLines_drawRoots_from (y : ℚ) (first : Nat) (forest : Forest ProcessId) :
    (scene.drawRoots clip (y + procH * first) forest).allLines =
      ((forest.numbered first).edges.filter fun edge => reaches clip y edge.2).map
        (scene.rowLine y) := by
  induction forest generalizing first with
  | nil => rfl
  | cons root children siblings _ inductionHypothesis =>
      rw [drawRoots, drawProcessesRecursively, allLines_append, allLines_append, allLines_drawRow,
        next_row, next_tree, scene.allLines_drawChildren clip y (first + 1) (root, first),
        inductionHypothesis, Forest.numbered_cons, Forest.edges, List.filter_append,
        List.map_append]
      rfl

/-- All boxes of trees. -/
theorem allBoxes_drawRoots (y : ℚ) (forest : Forest ProcessId) :
    (scene.drawRoots clip y forest).allBoxes =
      ((forest.numbered 0).toList.filter fun row =>
        row ∈ (forest.numbered 0).roots ∨ reaches clip y row).map (scene.rowBox y) := by
  have boxes := scene.allBoxes_drawRoots_from clip y 0 forest
  rwa [Nat.cast_zero, mul_zero, add_zero] at boxes

/-- All lines of trees. -/
theorem allLines_drawRoots (y : ℚ) (forest : Forest ProcessId) :
    (scene.drawRoots clip y forest).allLines =
      ((forest.numbered 0).edges.filter fun edge => reaches clip y edge.2).map
        (scene.rowLine y) := by
  have lines := scene.allLines_drawRoots_from clip y 0 forest
  rwa [Nat.cast_zero, mul_zero, add_zero] at lines

/-- If the tree has a duration, each process is drawn in the row of its number, and each child
is connected with its own parent; what is left out for a clip is what lies below it, but for
the roots. Every process is a root or has one line, which leads upwards. -/
theorem rows_drawRoots
    (lasts : scene.procTree.duration ≠ 0)
    (y : ℚ)
    (forest : Forest ProcessId) :
    (scene.drawRoots clip y forest).boxes =
      ((forest.numbered 0).toList.filter fun row =>
        row ∈ (forest.numbered 0).roots ∨ reaches clip y row).map (scene.rowBox y) ∧
    (scene.drawRoots clip y forest).lines =
      ((forest.numbered 0).edges.filter fun edge => reaches clip y edge.2).map
        (scene.rowLine y) ∧
    ((forest.numbered 0).roots ++ (forest.numbered 0).edges.map Prod.snd).Perm
      (forest.toList.zipIdx) ∧
    ∀ edge ∈ (forest.numbered 0).edges, edge.1.2 < edge.2.2 := by
  have all := scene.issued_drawRoots lasts clip y forest
  refine ⟨?_, ?_, ?_, fun edge => Forest.lt_of_mem_edges⟩
  · rw [boxes_eq_allBoxes all, allBoxes_drawRoots]
  · rw [lines_eq_allLines all, allLines_drawRoots]
  · rw [← Forest.toList_numbered]
    exact Forest.roots_append_edges _

/-- If something fails before the trees, or in them, no box is drawn. -/
theorem boxes_of_raises
    {first last : Drawing}
    {y : ℚ}
    {forest : Forest ProcessId}
    (rowless : Rowless first)
    (returns : ¬last.Raises)
    (raises : Drawing.Raises (first ++ (scene.drawRoots clip y forest ++ last))) :
    Drawing.boxes (first ++ (scene.drawRoots clip y forest ++ last)) = [] := by
  have noBox : first.boxes = [] := by
    have sublist := boxes_sublist first
    rw [rowless.allBoxes_eq] at sublist
    exact List.sublist_nil.mp sublist
  by_cases atFirst : first.Raises
  · rw [Drawing.boxes, issued_append_of_raises atFirst]
    exact noBox
  · have inTrees : (scene.drawRoots clip y forest).Raises := by
      rw [raises_append, raises_append] at raises
      exact (raises.resolve_left atFirst).resolve_right returns
    have zero := ((scene.raises_drawRoots clip y forest).mp inTrees).2
    rw [Drawing.boxes, issued_append_of_not_raises atFirst, issued_append_of_raises inTrees,
      issued_drawRoots_of_zero scene zero, List.append_nil, ← issued_of_not_raises atFirst]
    exact noBox

end Scene

/-- A process and its child are drawn in two rows, with one line between them. -/
theorem rows_drawRoots_lateChild :
    let scene := chartScene fixedWidth { showPid := false, showAll := false } false lateChild
      0 100 200
    let drawing := scene.drawRoots none 60 lateChild.processTree
    drawing.boxes = [⟨10, 60, 100, 16⟩, ⟨60, 76, 50, 16⟩] ∧
      drawing.lines = [Scene.connectingLines 10 60 60 76] := by
  intro scene drawing
  obtain ⟨boxes, lines, -⟩ := scene.rows_drawRoots none (by decide +kernel) 60
    lateChild.processTree
  rw [boxes, lines]
  decide +kernel

end Draw
end Bootchart
