import Bootchart.Library.Text
import Mathlib.Data.Rat.Floor

/-!
# Drawing commands

A drawing is what the code does to a cairo context, in order: it issues commands, and
between them it divides, takes maxima and steps over ranges. Any of these may fail, and
what follows is not done then.
-/

namespace Bootchart
namespace Draw

open Library (Text)

/-- A color. -/
structure Color where
  /-- Red. -/
  red : ℚ
  /-- Green. -/
  green : ℚ
  /-- Blue. -/
  blue : ℚ
  /-- Alpha. -/
  alpha : ℚ
  deriving DecidableEq

/-- A point. -/
abbrev Point := ℚ × ℚ

/-- A rectangle. -/
structure Rect where
  /-- The horizontal position. -/
  x : ℚ
  /-- The vertical position. -/
  y : ℚ
  /-- The width. -/
  width : ℚ
  /-- The height. -/
  height : ℚ
  deriving DecidableEq

/-- `text_extents`, without the advances. -/
structure TextExtents where
  /-- `x_bearing`. -/
  xBearing : ℚ
  /-- `y_bearing`. -/
  yBearing : ℚ
  /-- `width`. -/
  width : ℚ
  /-- `height`. -/
  height : ℚ

/-- What drawing does not determine itself: how large texts are, how numbers are formatted,
and how numbers that lie in the middle between two integers are rounded. -/
structure Canvas where
  /-- `text_extents`. -/
  textExtents : Text → TextExtents
  /-- `font_extents()[2]`, for a size of the font. -/
  fontHeight : ℚ → ℚ
  /-- `%`, for one number. -/
  format : Text → ℚ → Text
  /-- `round`. -/
  round : ℚ → ℤ
  /-- A larger number is not rounded to a smaller one. -/
  round_mono : ∀ first second : ℚ, first ≤ second → round first ≤ round second
  /-- Integers stay as they are. -/
  round_intCast : ∀ number : ℤ, round number = number

/-- A canvas on which every character is eight points wide and nine high, numbers are
formatted as integers, and those in the middle are rounded up. -/
def fixedWidth : Canvas where
  textExtents text :=
    { xBearing := 0, yBearing := -9, width := 8 * text.length, height := 9 }
  fontHeight size := size
  format _ number := Library.Text.decimal ⌊number⌋
  round number := ⌊number + 1 / 2⌋
  round_mono _ _ smaller := Int.floor_mono (by gcongr)
  round_intCast number := by
    rw [Int.floor_intCast_add, Int.floor_eq_zero_iff.mpr (by norm_num), add_zero]

/-- A drawing command, with the color and the dashes that are set. -/
inductive Command
  /-- `draw_fill_rect`. -/
  | fillRect (color : Color) (rect : Rect)
  /-- `draw_rect`. -/
  | strokeRect (color : Color) (rect : Rect)
  /-- `draw_text`. -/
  | showText (text : Text) (color : Color) (x y : ℚ)
  /-- `move_to`, then `line_to` for each further point, and `stroke`. -/
  | strokePath (color : Color) (dash : List ℚ) (points : List Point)
  /-- The same with `fill`. -/
  | fillPath (color : Color) (points : List Point)
  /-- `arc` all around, and `fill`. -/
  | fillCircle (color : Color) (x y radius : ℚ)
  deriving DecidableEq

/-! ## Painted areas -/

/-- The sides of an area. -/
structure Bounds where
  /-- The left side. -/
  left : ℚ
  /-- The upper side. -/
  top : ℚ
  /-- The right side. -/
  right : ℚ
  /-- The lower side. -/
  bottom : ℚ

/-- Two areas have a point in common. -/
def Bounds.Meets (first second : Bounds) : Prop :=
  first.left ≤ second.right ∧ second.left ≤ first.right ∧
    first.top ≤ second.bottom ∧ second.top ≤ first.bottom

instance (first second : Bounds) : Decidable (first.Meets second) :=
  inferInstanceAs (Decidable (_ ∧ _ ∧ _ ∧ _))

/-- The sides of the area between two points. -/
def between (first second : Point) : Bounds where
  left := min first.1 second.1
  top := min first.2 second.2
  right := max first.1 second.1
  bottom := max first.2 second.2

/-- The area around an area that half the width of a line covers. -/
def Bounds.stroked (bounds : Bounds) : Bounds where
  left := bounds.left - 1 / 2
  top := bounds.top - 1 / 2
  right := bounds.right + 1 / 2
  bottom := bounds.bottom + 1 / 2

/-- The corners of a rectangle, and the first one again. -/
def Rect.corners (rect : Rect) : List Point :=
  [(rect.x, rect.y), (rect.x + rect.width, rect.y),
    (rect.x + rect.width, rect.y + rect.height), (rect.x, rect.y + rect.height),
    (rect.x, rect.y)]

/-- The area inside a rectangle. -/
def Rect.area (rect : Rect) : Bounds :=
  between (rect.x, rect.y) (rect.x + rect.width, rect.y + rect.height)

/-- The areas that the lines between some points cover. -/
def strokedLines (points : List Point) : List Bounds :=
  List.zipWith (fun first second => (between first second).stroked) points points.tail

/-- The area around some points. -/
def hull : List Point → List Bounds
  | [] => []
  | first :: points =>
      [{ left := (points.map Prod.fst).foldr min first.1
         top := (points.map Prod.snd).foldr min first.2
         right := (points.map Prod.fst).foldr max first.1
         bottom := (points.map Prod.snd).foldr max first.2 }]

/-- The area that a command paints. -/
def Command.area (canvas : Canvas) : Command → List Bounds
  | .fillRect _ rect => [rect.area]
  | .strokeRect _ rect => strokedLines rect.corners
  | .showText text _ x y =>
      let extents := canvas.textExtents text
      [between (x + extents.xBearing, y + extents.yBearing)
        (x + extents.xBearing + extents.width, y + extents.yBearing + extents.height)]
  | .strokePath _ _ points => strokedLines points
  | .fillPath _ points => hull points
  | .fillCircle _ x y radius => [between (x - radius, y - radius) (x + radius, y + radius)]

/-- The clip, or nothing if it has no bounds. -/
abbrev Clip := Option Rect

/-- The sides of a clip. -/
def clipBounds (clip : Rect) : Bounds where
  left := clip.x
  top := clip.y
  right := clip.x + clip.width
  bottom := clip.y + clip.height

/-- What a command paints meets a clip. -/
def Command.Meets (canvas : Canvas) (clip : Rect) (command : Command) : Prop :=
  ∃ bounds ∈ command.area canvas, bounds.Meets (clipBounds clip)

instance (canvas : Canvas) (clip : Rect) :
    DecidablePred (Command.Meets canvas clip) := fun command =>
  inferInstanceAs (Decidable (∃ bounds ∈ command.area canvas, _))

/-! ## What is done in a drawing -/

/-- What a drawing does. -/
inductive Event
  /-- It issues a command. -/
  | command (command : Command)
  /-- It divides by the duration of a tree. -/
  | perDuration (duration : ℚ)
  /-- It divides by the largest time of a chart. -/
  | perLargest (largest : ℚ)
  /-- It divides by the range of values that a chart shows. -/
  | perRange (range : ℚ)
  /-- It takes the maximum of some numbers. -/
  | maximum (numbers : List ℚ)
  /-- It steps over a range. -/
  | steps (step : ℤ)
  deriving DecidableEq

/-- Divisions by zero, maxima of nothing and steps of zero raise exceptions. -/
def Event.Fails : Event → Prop
  | .command _ => False
  | .perDuration divisor | .perLargest divisor | .perRange divisor => divisor = 0
  | .maximum numbers => numbers = []
  | .steps step => step = 0

instance : DecidablePred Event.Fails
  | .command _ => inferInstanceAs (Decidable False)
  | .perDuration divisor | .perLargest divisor | .perRange divisor =>
      inferInstanceAs (Decidable (divisor = 0))
  | .maximum numbers => inferInstanceAs (Decidable (numbers = []))
  | .steps step => inferInstanceAs (Decidable (step = 0))

/-- A drawing. -/
abbrev Drawing := List Event

/-- The commands of a drawing. -/
def Drawing.commands (drawing : Drawing) : List Command :=
  drawing.filterMap fun event =>
    match event with
    | .command command => some command
    | _ => none

/-- A drawing up to the first failure. -/
def Drawing.done (drawing : Drawing) : Drawing :=
  drawing.takeWhile fun event => ¬event.Fails

/-- The commands that are issued. -/
def Drawing.issued (drawing : Drawing) : List Command :=
  drawing.done.commands

/-- Something fails. -/
def Drawing.Raises (drawing : Drawing) : Prop :=
  ∃ event ∈ drawing, event.Fails

@[simp] theorem commands_nil : Drawing.commands [] = [] := rfl

@[simp] theorem commands_command (command : Command) (drawing : Drawing) :
    Drawing.commands (.command command :: drawing) = command :: drawing.commands := rfl

@[simp] theorem commands_perDuration (duration : ℚ) (drawing : Drawing) :
    Drawing.commands (.perDuration duration :: drawing) = drawing.commands := rfl

@[simp] theorem commands_append (first second : Drawing) :
    Drawing.commands (first ++ second) = first.commands ++ second.commands :=
  List.filterMap_append

/-- Nothing fails. -/
theorem not_raises_iff (drawing : Drawing) :
    ¬drawing.Raises ↔ ∀ event ∈ drawing, ¬event.Fails := by
  simp [Drawing.Raises]

@[simp] theorem raises_nil : ¬Drawing.Raises [] := by
  simp [Drawing.Raises]

@[simp] theorem raises_cons (event : Event) (drawing : Drawing) :
    Drawing.Raises (event :: drawing) ↔ event.Fails ∨ drawing.Raises := by
  simp [Drawing.Raises]

@[simp] theorem raises_append (first second : Drawing) :
    Drawing.Raises (first ++ second) ↔ first.Raises ∨ second.Raises := by
  simp [Drawing.Raises, or_and_right, exists_or]

/-- What is drawn under a condition raises an exception if the condition holds and it does. -/
theorem raises_ite (condition : Prop) [Decidable condition] (drawing : Drawing) :
    Drawing.Raises (if condition then drawing else []) ↔ condition ∧ drawing.Raises := by
  split
  next holds => simp [holds]
  next fails => simp [fails]

@[simp] theorem not_fails_command (command : Command) : ¬(Event.command command).Fails :=
  id

@[simp] theorem fails_perDuration (duration : ℚ) :
    (Event.perDuration duration).Fails ↔ duration = 0 :=
  Iff.rfl

@[simp] theorem fails_steps (step : ℤ) : (Event.steps step).Fails ↔ step = 0 :=
  Iff.rfl

end Draw
end Bootchart
