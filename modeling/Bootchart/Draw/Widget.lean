import Bootchart.Draw.Render
import Mathlib.Algebra.Order.Field.Basic
import Mathlib.Tactic.Linarith
import Mathlib.Tactic.NormNum

/-!
# Expanding and contracting

The buttons of a `PyBootchartWidget` scale the time axis up and down by one and a half.
What counts is how much more often it is contracted than expanded.
-/

namespace Bootchart
namespace Draw

/-- A button. -/
inductive Press
  /-- `Expand`. -/
  | expand
  /-- `Contract`. -/
  | contract
  deriving DecidableEq

/-- `on_expand` and `on_contract`. -/
def press (xscale : ℚ) : Press → ℚ
  | .expand => xscale * (3 / 2)
  | .contract => xscale / (3 / 2)

/-- The pages of a `PyBootchartWindow`. -/
inductive View
  /-- `Full tree`. -/
  | fullTree
  /-- `Kernel boot`. -/
  | kernelBoot
  deriving DecidableEq

/-- The options of a page. -/
def View.options (appOptions : AppOptions) : View → RenderOptions
  | .fullTree => RenderOptions.new appOptions
  | .kernelBoot =>
      { RenderOptions.new appOptions with
        cumulative := false
        charts := false
        kernelOnly := true }

/-- The scale with which a page begins. -/
def View.xscale : View → ℚ
  | .fullTree => 1
  | .kernelBoot => 5

/-- How much more often a page can be contracted than expanded until a second is less than
a point wide. -/
def View.spare : View → Nat
  | .fullTree => 9
  | .kernelBoot => 13

/-- The scale after some presses. -/
def View.scaleAfter (view : View) (presses : List Press) : ℚ :=
  presses.foldl press view.xscale

/-- The scale, by the numbers of presses. -/
theorem foldl_press (presses : List Press) (xscale : ℚ) :
    presses.foldl press xscale * (3 / 2) ^ presses.count .contract =
      xscale * (3 / 2) ^ presses.count .expand := by
  induction presses generalizing xscale with
  | nil => simp
  | cons first presses inductionHypothesis =>
      rw [List.foldl_cons]
      cases first with
      | expand =>
          rw [List.count_cons_of_ne (by decide), inductionHypothesis, List.count_cons_self,
            pow_succ, press]
          ring
      | contract =>
          rw [List.count_cons_self, List.count_cons_of_ne (by decide), pow_succ,
            ← mul_assoc, inductionHypothesis, press]
          ring

/-- Powers that are not much larger than others. -/
theorem pow_le_mul_pow_iff
    {base bound : ℚ}
    {spare : Nat}
    (one_lt : 1 < base)
    (within : base ^ spare ≤ bound)
    (beyond : bound < base ^ (spare + 1))
    (first second : Nat) :
    base ^ first ≤ bound * base ^ second ↔ first ≤ second + spare := by
  have positive : 0 < base ^ second := pow_pos (zero_lt_one.trans one_lt) second
  constructor
  · intro small
    by_contra more
    have larger : base ^ (second + (spare + 1)) ≤ base ^ first :=
      pow_le_pow_right₀ one_lt.le (by omega)
    have less : bound * base ^ second < base ^ (spare + 1) * base ^ second :=
      mul_lt_mul_of_pos_right beyond positive
    rw [pow_add, mul_comm] at larger
    linarith
  · intro few
    calc base ^ first ≤ base ^ (second + spare) := pow_le_pow_right₀ one_lt.le few
      _ = base ^ spare * base ^ second := by rw [pow_add, mul_comm]
      _ ≤ bound * base ^ second := mul_le_mul_of_nonneg_right within positive.le

/-- A second is at least a point wide as long as contractions are not too many more than
expansions. -/
theorem View.one_le_scaleAfter (view : View) (presses : List Press) :
    1 ≤ view.scaleAfter presses * secWBase ↔
      presses.count .contract ≤ presses.count .expand + view.spare := by
  have scaled := foldl_press presses view.xscale
  have power : (0 : ℚ) < (3 / 2) ^ presses.count .contract := by positivity
  have within : (3 / 2 : ℚ) ^ view.spare ≤ view.xscale * secWBase := by
    cases view <;> norm_num [View.spare, View.xscale, secWBase]
  have beyond : view.xscale * secWBase < (3 / 2 : ℚ) ^ (view.spare + 1) := by
    cases view <;> norm_num [View.spare, View.xscale, secWBase]
  have same : view.scaleAfter presses * secWBase * (3 / 2) ^ presses.count .contract =
      view.xscale * secWBase * (3 / 2) ^ presses.count .expand := by
    rw [View.scaleAfter, mul_right_comm, scaled, mul_right_comm]
  rw [← pow_le_mul_pow_iff (by norm_num) within beyond, ← same,
    le_mul_iff_one_le_left power]

end Draw
end Bootchart
