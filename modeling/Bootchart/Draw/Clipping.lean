import Bootchart.Draw.Processes
import Bootchart.Library.Hiding
import Mathlib.Tactic.Linarith

/-!
# Clipping

In a clip, rows and bars are left out that are thought not to show. Where the bars that are
drawn are those that are drawn without a clip, the picture in the clip is the same if and
only if nothing that is left out reaches into it.
-/

namespace Bootchart
namespace Draw

open Library (Hides Forest)

/-! ## What is issued -/

/-- What follows a failure is not issued. -/
theorem issued_append_of_raises
    {first : Drawing}
    (raises : first.Raises)
    (second : Drawing) : Drawing.issued (first ++ second) = first.issued := by
  obtain ⟨event, member, fails⟩ := raises
  unfold Drawing.issued Drawing.done
  rw [List.takeWhile_append, if_neg]
  intro sameLength
  have all := (List.takeWhile_prefix _).eq_of_length sameLength
  rw [← all] at member
  have passes := List.mem_takeWhile_imp member
  exact of_decide_eq_true passes fails

/-- Without a failure everything is issued, and then what follows. -/
theorem issued_append_of_not_raises
    {first : Drawing}
    (returns : ¬first.Raises)
    (second : Drawing) :
    Drawing.issued (first ++ second) = first.commands ++ second.issued := by
  have all : ∀ event ∈ first, decide (¬event.Fails) = true := fun event member =>
    decide_eq_true fun fails => returns ⟨event, member, fails⟩
  rw [Drawing.issued, Drawing.done, List.takeWhile_append_of_pos all, commands_append]
  rfl

/-- Without a failure everything is issued. -/
theorem issued_of_not_raises
    {drawing : Drawing}
    (returns : ¬drawing.Raises) : drawing.issued = drawing.commands := by
  have opened := issued_append_of_not_raises returns []
  rw [List.append_nil] at opened
  simpa [Drawing.issued, Drawing.done] using opened

/-- When a frame fails: the ticks have no distance, or something is annotated and the tree
has no duration. -/
theorem raises_drawFrame
    (canvas : Canvas)
    (kernelOnly : Bool)
    (procTree : ProcTree)
    (times : List (Option ℚ))
    (currY : ℚ)
    (rect : Rect)
    (secW : ℤ) :
    (drawFrame canvas kernelOnly procTree times currY rect secW).Raises ↔
      secW = 0 ∨ (∃ time, some time ∈ times) ∧ procTree.duration = 0 := by
  have legends : ¬Drawing.Raises (if kernelOnly then []
    else
      drawLegendBox "Running (%cpu)".toList procColorR offset (currY + 45) legS ++
      drawLegendBox "Unint.sleep (I/O)".toList procColorD (offset + 120) (currY + 45) legS ++
      drawLegendBox "Sleeping".toList procColorS (offset + 240) (currY + 45) legS ++
      drawLegendBox "Zombie".toList procColorZ (offset + 360) (currY + 45) legS) := by
    cases kernelOnly <;> simp [drawLegendBox]
  rw [drawFrame, raises_append, raises_append, raises_append, or_iff_right legends,
    raises_drawBoxTicks, raises_drawSecLabels, raises_drawAnnotations, or_self]

/-! ## What a clip hides

Everything that belongs to a process is a shape of its own; what a clip hides are those
shapes that are left out.
-/

/-- A command shows in a clip. -/
def showsIn (canvas : Canvas) (clip : Rect) (command : Command) : Bool :=
  command.Meets canvas clip

/-- A row is at the height of a clip. -/
def atHeight (clip : Rect) (y : ℚ) : Bool :=
  !(isBelow (some clip) y || isAbove (some clip) (y + procH + 2))

namespace Scene

variable (scene : Scene) (clip : Rect)

/-! ### Shapes -/

/-- The bar of a sample, if it has one. -/
def barOf (y : ℚ) (bar : ℚ × ℚ) (sample : ProcessSample) : List Command :=
  ((sampleColor sample).map (barCommand y bar)).toList

/-- The bars of samples, the first one behind `lastTx`. -/
def bars (y lastTx : ℚ) : List ProcessSample → List Command
  | [] => []
  | sample :: samples =>
      let bar := scene.bar lastTx (scene.sampleX sample)
      barOf y bar sample ++ bars y (bar.1 + bar.2) samples

/-- The box of a process. -/
def box (proc : ProcessId) (y : ℚ) : Command :=
  .fillRect procColorS ⟨scene.processX proc, y, scene.processW proc, procH⟩

/-- The border and the label of a process. -/
def border (proc : ProcessId) (y : ℚ) : List Command :=
  .strokeRect procBorderColor ⟨scene.processX proc, y, scene.processW proc, procH⟩ ::
    (scene.drawLabelInBox procTextColor (scene.cmdString proc) (scene.processX proc)
      (y + procH - 4) (scene.processW proc) (scene.rect.x + scene.rect.width)).commands

/-- Everything that belongs to a process. -/
def row (proc : ProcessId) (y : ℚ) : List Command :=
  scene.box proc y :: scene.bars y (-1) (scene.process proc).samples ++ scene.border proc y

/-- Everything that belongs to children and their descendants, with the lines that connect
them. -/
def subtrees (px py nextY : ℚ) : Forest ProcessId → List Command
  | .nil => []
  | .cons child childList siblings =>
      scene.row child nextY ++
        subtrees (scene.processX child) nextY (nextY + procH) childList ++
        connectingLines px py (scene.processX child) nextY ::
          subtrees px py (nextY + procH * (childList.size + 1)) siblings

/-! ### What a clip hides -/

/-- The bars of the samples that begin to the left or to the right of a clip. The first one
to the right ends the loop. -/
def hiddenBars (y lastTx : ℚ) : List ProcessSample → List Command
  | [] => []
  | sample :: samples =>
      let tx := scene.sampleX sample
      let bar := scene.bar lastTx tx
      if isLeft (some clip) tx then
        barOf y bar sample ++ hiddenBars y (bar.1 + bar.2) samples
      else if isRight (some clip) tx then scene.bars y lastTx (sample :: samples)
      else hiddenBars y (bar.1 + bar.2) samples

/-- The bars that are drawn in the clip are those that would be drawn without it, as far as
they show: none of them is joined to a bar to the left of the clip. Without a clip the last
bar ends at `lastTx`, in the clip at `keptTx`. -/
def BarsAgree (y lastTx keptTx : ℚ) : List ProcessSample → Prop
  | [] => True
  | sample :: samples =>
      let tx := scene.sampleX sample
      let bar := scene.bar lastTx tx
      let kept := scene.bar keptTx tx
      if isLeft (some clip) tx then BarsAgree y (bar.1 + bar.2) keptTx samples
      else if isRight (some clip) tx then True
      else
        (∀ color ∈ sampleColor sample, bar = kept ∨
          ¬(barCommand y bar color).Meets scene.canvas clip ∧
            ¬(barCommand y kept color).Meets scene.canvas clip) ∧
        BarsAgree y (bar.1 + bar.2) (kept.1 + kept.2) samples

instance decidableBarsAgree (y : ℚ) :
    (lastTx keptTx : ℚ) →
      (samples : List ProcessSample) → Decidable (scene.BarsAgree clip y lastTx keptTx samples)
  | _, _, [] => inferInstanceAs (Decidable True)
  | lastTx, keptTx, sample :: samples =>
      let bar := scene.bar lastTx (scene.sampleX sample)
      let kept := scene.bar keptTx (scene.sampleX sample)
      have := decidableBarsAgree y (bar.1 + bar.2) keptTx samples
      have := decidableBarsAgree y (bar.1 + bar.2) (kept.1 + kept.2) samples
      inferInstanceAs (Decidable (ite _ _ (ite _ _ _)))

/-- What is hidden of a row. A row that is not at the height of the clip does not show. -/
def hiddenRow (proc : ProcessId) (y : ℚ) : List Command :=
  if atHeight clip y then scene.hiddenBars clip y (-1) (scene.process proc).samples else []

/-- What is hidden of the children of a process: bars, and everything from the first child on
that lies below the clip. -/
def hiddenChildren (px py nextY : ℚ) : Forest ProcessId → List Command
  | .nil => []
  | .cons child childList siblings =>
      if isBelow (some clip) nextY then
        scene.subtrees px py nextY (.cons child childList siblings)
      else
        scene.hiddenRow clip child nextY ++
          hiddenChildren (scene.processX child) nextY (nextY + procH) childList ++
          hiddenChildren px py (nextY + procH * (childList.size + 1)) siblings

/-- What is hidden of trees. -/
def hiddenRoots (y : ℚ) : Forest ProcessId → List Command
  | .nil => []
  | .cons root childList siblings =>
      scene.hiddenRow clip root y ++
        scene.hiddenChildren clip (scene.processX root) y (y + procH) childList ++
        hiddenRoots (y + procH * (childList.size + 1)) siblings

/-- The processes and their rows. -/
def rows (y : ℚ) : Forest ProcessId → List (ProcessId × ℚ)
  | .nil => []
  | .cons proc childList siblings =>
      (proc, y) :: (rows (y + procH) childList ++
        rows (y + procH * (childList.size + 1)) siblings)

/-- The bars agree in all rows at the height of the clip. -/
def RowsAgree (y : ℚ) (forest : Forest ProcessId) : Prop :=
  ∀ row ∈ rows y forest, atHeight clip row.2 →
    scene.BarsAgree clip row.2 (-1) (-1) (scene.process row.1).samples

instance (y : ℚ) (forest : Forest ProcessId) : Decidable (scene.RowsAgree clip y forest) :=
  inferInstanceAs (Decidable (∀ row ∈ rows y forest, _))

/-! ## One row -/

/-- The commands for a sample in a clip. -/
theorem commands_activityFrom_cons
    (clip : Clip)
    (y lastTx : ℚ)
    (sample : ProcessSample)
    (samples : List ProcessSample) :
    (scene.activityFrom clip y lastTx (sample :: samples)).commands =
      if isLeft clip (scene.sampleX sample) then
        (scene.activityFrom clip y lastTx samples).commands
      else if isRight clip (scene.sampleX sample) then []
      else
        barOf y (scene.bar lastTx (scene.sampleX sample)) sample ++
          (scene.activityFrom clip y ((scene.bar lastTx (scene.sampleX sample)).1 +
            (scene.bar lastTx (scene.sampleX sample)).2) samples).commands := by
  rw [activityFrom]
  dsimp only
  rw [commands_perDuration]
  split
  · rfl
  · split
    · rfl
    · simp only [commands_perDuration, commands_append, barOf]
      cases sampleColor sample <;> rfl

/-- Without a clip all bars are drawn. -/
theorem commands_activityFrom_none (y lastTx : ℚ) (samples : List ProcessSample) :
    (scene.activityFrom none y lastTx samples).commands = scene.bars y lastTx samples := by
  induction samples generalizing lastTx with
  | nil => rfl
  | cons sample samples inductionHypothesis =>
      rw [commands_activityFrom_cons, if_neg (by simp [isLeft]), if_neg (by simp [isRight]),
        inductionHypothesis, bars]

/-- The bars in a clip are those of the samples that lie in it. -/
theorem hides_activityFrom
    {y lastTx keptTx : ℚ}
    {samples : List ProcessSample}
    (agree : scene.BarsAgree clip y lastTx keptTx samples) :
    Hides (showsIn scene.canvas clip) (scene.bars y lastTx samples)
      (scene.activityFrom (some clip) y keptTx samples).commands
      (scene.hiddenBars clip y lastTx samples) := by
  induction samples generalizing lastTx keptTx with
  | nil => exact Hides.refl _ _
  | cons sample samples inductionHypothesis =>
      rw [commands_activityFrom_cons, hiddenBars]
      rw [BarsAgree] at agree
      split
      next left =>
        rw [if_pos left] at agree
        exact (Hides.allHidden _ _).append (inductionHypothesis agree)
      next notLeft =>
        rw [if_neg notLeft] at agree
        split
        next => exact Hides.allHidden _ _
        next notRight =>
          rw [if_neg notRight] at agree
          rw [bars, ← List.nil_append (scene.hiddenBars _ _ _ _)]
          refine Hides.append ?_ (inductionHypothesis agree.2)
          have sameBars := agree.1
          unfold barOf
          cases isColor : sampleColor sample with
          | none => exact Hides.refl _ _
          | some color =>
              rcases sameBars color isColor with same | ⟨notAll, notKept⟩
              · rw [← same]
                exact Hides.refl _ _
              · apply Hides.of_not_shows
                · simpa [showsIn] using notAll
                · simpa [showsIn] using notKept

/-- All bars of a row are at its height. -/
theorem mem_bars
    {y lastTx : ℚ}
    {samples : List ProcessSample}
    {command : Command}
    (member : command ∈ scene.bars y lastTx samples) :
    ∃ bar color, command = barCommand y bar color := by
  induction samples generalizing lastTx with
  | nil => contradiction
  | cons sample samples inductionHypothesis =>
      rw [bars, List.mem_append] at member
      rcases member with isBar | behind
      · unfold barOf at isBar
        obtain ⟨color, -, rfl⟩ := Option.map_eq_some_iff.mp (Option.mem_toList.mp isBar)
        exact ⟨_, color, rfl⟩
      · exact inductionHypothesis behind

/-- A bar of a row that is not at the height of a clip does not show. -/
theorem not_meets_of_not_atHeight
    (canvas : Canvas)
    {clip : Rect}
    {y : ℚ}
    (outside : ¬atHeight clip y)
    (color : Color)
    (x w : ℚ) : ¬(Command.fillRect color ⟨x, y, w, procH⟩).Meets canvas clip := by
  rintro ⟨bounds, member, -, -, aboveBottom, belowTop⟩
  obtain rfl := List.mem_singleton.mp member
  have height : y ≤ y + procH := by norm_num [procH]
  simp only [Rect.area, between, min_eq_left height, max_eq_right height, clipBounds]
    at aboveBottom belowTop
  simp only [atHeight, isBelow, isAbove, Option.any_some, Bool.not_eq_true',
    Bool.or_eq_false_iff, decide_eq_false_iff_not, not_and_or, not_not] at outside
  rcases outside with below | above
  · exact absurd aboveBottom (not_le.mpr below)
  · linarith

/-- What a clip hides of the bars of a process. -/
theorem hides_drawProcessActivityColors
    {proc : ProcessId}
    {y : ℚ}
    (agree : atHeight clip y →
      scene.BarsAgree clip y (-1) (-1) (scene.process proc).samples) :
    Hides (showsIn scene.canvas clip)
      (scene.box proc y :: scene.bars y (-1) (scene.process proc).samples)
      (scene.drawProcessActivityColors (some clip) proc y).commands
      (scene.hiddenRow clip proc y) := by
  rw [drawProcessActivityColors, hiddenRow]
  by_cases inside : atHeight clip y
  · have drawn : ¬(isBelow (some clip) y || isAbove (some clip) (y + procH + 2)) := by
      simpa [atHeight] using inside
    rw [if_neg drawn, if_pos inside, commands_command]
    exact (Hides.refl _ [_]).append (scene.hides_activityFrom clip (agree inside))
  · have skipped : isBelow (some clip) y || isAbove (some clip) (y + procH + 2) := by
      simpa only [atHeight, Bool.not_eq_true', Bool.not_eq_false] using inside
    rw [if_pos skipped, if_neg inside]
    apply Hides.of_not_shows
    · intro command member
      apply decide_eq_false
      rcases List.mem_cons.mp member with rfl | isBar
      · exact not_meets_of_not_atHeight _ inside _ _ _
      · obtain ⟨bar, color, rfl⟩ := scene.mem_bars isBar
        exact not_meets_of_not_atHeight _ inside _ _ _
    · simp

/-- The commands for a process in a clip. -/
theorem commands_drawRow (clip : Clip) (proc : ProcessId) (y : ℚ) :
    (scene.drawRow clip proc y).commands =
      (scene.drawProcessActivityColors clip proc y).commands ++ scene.border proc y := by
  simp [drawRow, border]

/-- Without a clip everything that belongs to a process is drawn. -/
theorem commands_drawRow_none (proc : ProcessId) (y : ℚ) :
    (scene.drawRow none proc y).commands = scene.row proc y := by
  rw [commands_drawRow, row, ← commands_activityFrom_none]
  rfl

/-- What a clip hides of a row. -/
theorem hides_drawRow
    {proc : ProcessId}
    {y : ℚ}
    (agree : atHeight clip y →
      scene.BarsAgree clip y (-1) (-1) (scene.process proc).samples) :
    Hides (showsIn scene.canvas clip) (scene.row proc y)
      (scene.drawRow (some clip) proc y).commands (scene.hiddenRow clip proc y) := by
  rw [commands_drawRow, row, ← List.append_nil (scene.hiddenRow _ _ _)]
  exact (scene.hides_drawProcessActivityColors clip agree).append (Hides.refl _ _)

/-! ## All rows -/

/-- The rows of a first tree and of its siblings. -/
theorem rowsAgree_cons
    {y : ℚ}
    {proc : ProcessId}
    {childList siblings : Forest ProcessId} :
    scene.RowsAgree clip y (.cons proc childList siblings) ↔
      (atHeight clip y →
        scene.BarsAgree clip y (-1) (-1) (scene.process proc).samples) ∧
      scene.RowsAgree clip (y + procH) childList ∧
      scene.RowsAgree clip (y + procH * (childList.size + 1)) siblings := by
  simp only [RowsAgree, rows, List.forall_mem_cons, List.forall_mem_append]

/-- The commands for a child that does not lie below the clip, and for its siblings. -/
theorem commands_drawChildren_cons
    {clip : Clip}
    {px py nextY : ℚ}
    {child : ProcessId}
    {childList siblings : Forest ProcessId}
    (shown : ¬isBelow clip nextY) :
    (scene.drawChildren clip px py nextY (.cons child childList siblings)).commands =
      (scene.drawRow clip child nextY).commands ++
        (scene.drawChildren clip (scene.processX child) nextY (nextY + procH)
          childList).commands ++
        connectingLines px py (scene.processX child) nextY ::
          (scene.drawChildren clip px py (nextY + procH * (childList.size + 1))
            siblings).commands := by
  rw [drawChildren, if_neg shown]
  simp

/-- Without a clip all children are drawn. -/
theorem commands_drawChildren_none (px py nextY : ℚ) (forest : Forest ProcessId) :
    (scene.drawChildren none px py nextY forest).commands =
      scene.subtrees px py nextY forest := by
  induction forest generalizing px py nextY with
  | nil => rfl
  | cons child childList siblings first second =>
      rw [commands_drawChildren_cons _ (by simp [isBelow]), commands_drawRow_none, first,
        second, subtrees]

/-- What a clip hides of children. -/
theorem hides_drawChildren
    {px py nextY : ℚ}
    {forest : Forest ProcessId}
    (agree : scene.RowsAgree clip nextY forest) :
    Hides (showsIn scene.canvas clip) (scene.subtrees px py nextY forest)
      (scene.drawChildren (some clip) px py nextY forest).commands
      (scene.hiddenChildren clip px py nextY forest) := by
  induction forest generalizing px py nextY with
  | nil => exact Hides.refl _ _
  | cons child childList siblings first second =>
      obtain ⟨row, children, others⟩ := (scene.rowsAgree_cons clip).mp agree
      by_cases below : isBelow (some clip) nextY
      · have skipped : scene.drawChildren (some clip) px py nextY
            (.cons child childList siblings) = [] := by
          rw [drawChildren, if_pos below]
        rw [hiddenChildren, if_pos below, skipped]
        exact Hides.allHidden _ _
      · have line := Hides.refl (showsIn scene.canvas clip)
          [connectingLines px py (scene.processX child) nextY]
        rw [commands_drawChildren_cons _ below, hiddenChildren, if_neg below, subtrees]
        exact ((scene.hides_drawRow clip row).append (first children)).append
          (line.append (second others))

/-- What a clip hides of trees. -/
theorem hides_drawRoots
    {y : ℚ}
    {forest : Forest ProcessId}
    (agree : scene.RowsAgree clip y forest) :
    Hides (showsIn scene.canvas clip) (scene.drawRoots none y forest).commands
      (scene.drawRoots (some clip) y forest).commands (scene.hiddenRoots clip y forest) := by
  induction forest generalizing y with
  | nil => exact Hides.refl _ _
  | cons root childList siblings _ inductionHypothesis =>
      obtain ⟨row, children, others⟩ := (scene.rowsAgree_cons clip).mp agree
      simp only [drawRoots, drawProcessesRecursively, hiddenRoots, commands_append,
        commands_drawRow_none, commands_drawChildren_none]
      exact ((scene.hides_drawRow clip row).append
        (scene.hides_drawChildren clip children)).append (inductionHypothesis others)

/-- Without a duration nothing is drawn of trees. -/
theorem issued_drawRoots_of_zero
    (zero : scene.procTree.duration = 0)
    (clip : Clip)
    (y : ℚ)
    (forest : Forest ProcessId) : (scene.drawRoots clip y forest).issued = [] := by
  cases forest with
  | nil => rfl
  | cons root childList siblings =>
      rw [drawRoots, drawProcessesRecursively, drawRow, zero]
      rfl

/-- When trees fail: there is one, and it has no duration. -/
theorem raises_drawRoots (clip : Clip) (y : ℚ) (forest : Forest ProcessId) :
    (scene.drawRoots clip y forest).Raises ↔
      forest ≠ .nil ∧ scene.procTree.duration = 0 := by
  constructor
  · rintro ⟨event, member, fails⟩
    refine ⟨?_, ?_⟩
    · rintro rfl
      exact absurd member List.not_mem_nil
    · rcases scene.onlyPerDuration_drawRoots clip y forest event member with
        rfl | ⟨command, rfl⟩
      · exact fails
      · exact fails.elim
  · rintro ⟨nonempty, zero⟩
    cases forest with
    | nil => contradiction
    | cons root childList siblings =>
        simp [drawRoots, drawProcessesRecursively, drawRow, zero]

/-- With a duration all of it is drawn. -/
theorem issued_drawRoots
    (nonzero : scene.procTree.duration ≠ 0)
    (clip : Clip)
    (y : ℚ)
    (forest : Forest ProcessId) :
    (scene.drawRoots clip y forest).issued = (scene.drawRoots clip y forest).commands :=
  issued_of_not_raises fun raises =>
    nonzero ((scene.raises_drawRoots clip y forest).mp raises).2

end Scene

/-! ## The chart -/

/-- What shows in a clip is the same in two drawings. -/
def SameInClip (canvas : Canvas) (clip : Rect) (first second : Drawing) : Prop :=
  first.issued.filter (showsIn canvas clip) = second.issued.filter (showsIn canvas clip)

/-- The scene of a chart of the processes. -/
def chartScene
    (canvas : Canvas)
    (options : AppOptions)
    (kernelOnly : Bool)
    (procTree : ProcTree)
    (currY w h : ℚ) : Scene where
  canvas := canvas
  options := options
  procTree := procTree
  rect := chartRect kernelOnly currY w h

section Chart

variable {canvas : Canvas} {clip : Rect} {options : AppOptions} {kernelOnly : Bool}
variable {procTree : ProcTree} {times : List (Option ℚ)} {currY w h : ℚ} {secW : ℤ}

/-- A chart is its frame, and then the trees. -/
theorem drawProcessBarChart_eq (clip : Clip) :
    drawProcessBarChart canvas clip options kernelOnly procTree times currY w h secW =
      drawFrame canvas kernelOnly procTree times currY (chartRect kernelOnly currY w h) secW ++
        (chartScene canvas options kernelOnly procTree currY w h).drawRoots clip (currY + 60)
          procTree.processTree := rfl

/-- If nothing of the trees can be drawn, the clip does not matter. -/
theorem sameInClip_of_zero (zero : secW = 0 ∨ procTree.duration = 0) :
    SameInClip canvas clip
      (drawProcessBarChart canvas (some clip) options kernelOnly procTree times currY w h
        secW)
      (drawProcessBarChart canvas none options kernelOnly procTree times currY w h secW) := by
  unfold SameInClip
  rw [drawProcessBarChart_eq, drawProcessBarChart_eq]
  by_cases raises : (drawFrame canvas kernelOnly procTree times currY
      (chartRect kernelOnly currY w h) secW).Raises
  · rw [issued_append_of_raises raises, issued_append_of_raises raises]
  · have noDuration : procTree.duration = 0 := by
      rw [raises_drawFrame, not_or] at raises
      exact zero.resolve_left raises.1
    rw [issued_append_of_not_raises raises, issued_append_of_not_raises raises,
      Scene.issued_drawRoots_of_zero _ noDuration, Scene.issued_drawRoots_of_zero _ noDuration]

/-- If the trees are drawn, and the bars that are drawn in the clip are those that are drawn
without it, the clip does not matter if and only if nothing that is left out shows in it. -/
theorem sameInClip_iff_of_rowsAgree
    (ticks : secW ≠ 0)
    (lasts : procTree.duration ≠ 0)
    (agree : (chartScene canvas options kernelOnly procTree currY w h).RowsAgree clip
      (currY + 60) procTree.processTree) :
    SameInClip canvas clip
      (drawProcessBarChart canvas (some clip) options kernelOnly procTree times currY w h
        secW)
      (drawProcessBarChart canvas none options kernelOnly procTree times currY w h secW) ↔
    ∀ command ∈ (chartScene canvas options kernelOnly procTree currY w h).hiddenRoots clip
        (currY + 60) procTree.processTree, ¬command.Meets canvas clip := by
  have returns : ¬(drawFrame canvas kernelOnly procTree times currY
      (chartRect kernelOnly currY w h) secW).Raises := by
    rw [raises_drawFrame]
    tauto
  have hides := Scene.hides_drawRoots _ clip agree
  unfold SameInClip
  rw [drawProcessBarChart_eq, drawProcessBarChart_eq, issued_append_of_not_raises returns,
    issued_append_of_not_raises returns, List.filter_append, List.filter_append,
    List.append_cancel_left_eq, Scene.issued_drawRoots _ lasts, Scene.issued_drawRoots _ lasts]
  exact hides.filter_eq_iff.trans (forall₂_congr fun command _ => decide_eq_false_iff_not)

variable (canvas clip options kernelOnly procTree times currY w h secW) in
/-- The chart of the processes is the same in a clip as without it if nothing of the trees
can be drawn, or if the bars that are drawn in the clip are those that are drawn without it
and nothing that is left out shows in the clip: neither a bar of a sample that begins to the
left or to the right of it, nor anything of a process that lies below it. Where the bars are
those, it is the same only then. -/
theorem sameInClip_drawProcessBarChart :
    ((secW = 0 ∨ procTree.duration = 0 ∨
        (chartScene canvas options kernelOnly procTree currY w h).RowsAgree clip (currY + 60)
            procTree.processTree ∧
          ∀ command ∈ (chartScene canvas options kernelOnly procTree currY w h).hiddenRoots
              clip (currY + 60) procTree.processTree, ¬command.Meets canvas clip) →
      SameInClip canvas clip
        (drawProcessBarChart canvas (some clip) options kernelOnly procTree times currY w h
          secW)
        (drawProcessBarChart canvas none options kernelOnly procTree times currY w h
          secW)) ∧
    ((chartScene canvas options kernelOnly procTree currY w h).RowsAgree clip (currY + 60)
        procTree.processTree →
      SameInClip canvas clip
        (drawProcessBarChart canvas (some clip) options kernelOnly procTree times currY w h
          secW)
        (drawProcessBarChart canvas none options kernelOnly procTree times currY w h
          secW) →
      secW = 0 ∨ procTree.duration = 0 ∨
        ∀ command ∈ (chartScene canvas options kernelOnly procTree currY w h).hiddenRoots
            clip (currY + 60) procTree.processTree, ¬command.Meets canvas clip) := by
  constructor
  · rintro (noTicks | noDuration | ⟨agree, hidden⟩)
    · exact sameInClip_of_zero (.inl noTicks)
    · exact sameInClip_of_zero (.inr noDuration)
    · by_cases zero : secW = 0 ∨ procTree.duration = 0
      · exact sameInClip_of_zero zero
      · rw [not_or] at zero
        exact (sameInClip_iff_of_rowsAgree zero.1 zero.2 agree).mpr hidden
  · intro agree same
    by_cases zero : secW = 0 ∨ procTree.duration = 0
    · tauto
    · rw [not_or] at zero
      exact .inr (.inr ((sameInClip_iff_of_rowsAgree zero.1 zero.2 agree).mp same))

end Chart

/-- A sample of a process that is running. -/
def runningAt (time : ℚ) : ProcessSample where
  time := time
  state := ['R']
  cpuSample := { time := some time, user := 1, sys := 0, io := 0, swap := 0 }

/-- A tree of a process that runs from the start, and of a child that starts later. -/
def lateChild : ProcTree where
  objects
    | .mapped 2000 => { Process.new 2000 ['b'] 1000 50 with duration := 50 }
    | _ => { Process.new 1000 ['a'] 0 0 with
        duration := 100
        samples := [runningAt 0, runningAt 10] }
  processTree := .cons (.mapped 1000) (.cons (.mapped 2000) .nil .nil) .nil
  startTime := 0
  duration := 100
  samplePeriod := 10
  numProc := 2
  idle := none
  taskstats := false

/-- The chart of this tree. -/
def lateChildChart (clip : Clip) : Drawing :=
  drawProcessBarChart fixedWidth clip { showPid := false, showAll := false } false lateChild
    [] 0 100 200 25

/-- In a clip behind the bars of the process nothing is missing; in a clip that begins
within one of them something is. -/
theorem sameInClip_lateChild :
    SameInClip fixedWidth ⟨35, 60, 50, 40⟩ (lateChildChart (some ⟨35, 60, 50, 40⟩))
        (lateChildChart none) ∧
      ¬SameInClip fixedWidth ⟨30, 60, 50, 40⟩ (lateChildChart (some ⟨30, 60, 50, 40⟩))
        (lateChildChart none) :=
  ⟨(sameInClip_drawProcessBarChart fixedWidth ⟨35, 60, 50, 40⟩ _ _ lateChild _ _ _ _ _).1
    (by decide +kernel),
    fun same => absurd ((sameInClip_drawProcessBarChart fixedWidth ⟨30, 60, 50, 40⟩ _ _
      lateChild _ _ _ _ _).2 (by decide +kernel) same) (by decide +kernel)⟩

/-- A bar that begins to the left of a clip, and a line to a child below a clip, do not show
in it. -/
theorem not_sameInClip_lateChild :
    (¬SameInClip fixedWidth ⟨25, 60, 50, 40⟩ (lateChildChart (some ⟨25, 60, 50, 40⟩))
      (lateChildChart none)) ∧
    ¬SameInClip fixedWidth ⟨0, 60, 200, 10⟩ (lateChildChart (some ⟨0, 60, 200, 10⟩))
      (lateChildChart none) := by
  unfold SameInClip
  decide +kernel

end Draw
end Bootchart
