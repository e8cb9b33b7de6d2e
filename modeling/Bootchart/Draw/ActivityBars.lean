import Bootchart.Draw.Processes
import Mathlib.Data.List.Chain
import Mathlib.Tactic.Linarith

/-!
# Bars of activity beside each other

A bar that begins near the end of the last one is joined to it, and is then at least one
pixel wide. Of several samples at almost the same time each pushes the end of the bars
further, until it lies too far ahead of the next sample for it to be joined: that bar is
drawn over the others.
-/

namespace Bootchart
namespace Draw
namespace Scene

variable (scene : Scene)

/-- The samples for which there are bars: those on the left of the clip are skipped, the
first one on its right ends the loop. -/
def shownSamples (clip : Clip) (samples : List ProcessSample) : List ProcessSample :=
  (samples.filter fun sample => !isLeft clip (scene.sampleX sample)).takeWhile fun sample =>
    !isRight clip (scene.sampleX sample)

/-- The bars for samples at some places, with those that are not painted because the
process sleeps. -/
def barsAt (lastTx : ℚ) : List ℚ → List (ℚ × ℚ)
  | [] => []
  | tx :: places =>
      let bar := scene.bar lastTx tx
      bar :: barsAt (bar.1 + bar.2) places

/-- The bars of a process. -/
def activityBars (clip : Clip) (samples : List ProcessSample) : List (ℚ × ℚ) :=
  scene.barsAt (-1) ((scene.shownSamples clip samples).map scene.sampleX)

/-- Every bar begins at or behind the end of the one before. -/
def SideBySide (bars : List (ℚ × ℚ)) : Prop :=
  bars.IsChain fun first second => first.1 + first.2 ≤ second.1

instance : DecidablePred SideBySide := fun bars =>
  inferInstanceAs (Decidable (bars.IsChain _))

/-- The chart lies on the picture, and no sample comes before the tree. -/
structure OnChart (samples : List ProcessSample) : Prop where
  /-- The left side of the chart. -/
  left : 0 ≤ scene.rect.x
  /-- Its width. -/
  width : 0 ≤ scene.rect.width
  /-- The duration of the tree. -/
  duration : 0 ≤ scene.procTree.duration
  /-- The samples. -/
  begun : ∀ sample ∈ samples, scene.procTree.startTime ≤ sample.time

/-- How much closer than one pixel for each of them bars may begin. -/
def overlapAllowed : ℚ :=
  if 1 ≤ scene.sampleW then 1 else 0

/-- Every two of some places are as many pixels apart as there are bars to begin between
them; if bars are wide, one less. -/
def HasRoom (places : List ℚ) : Prop :=
  ∀ (i j : Nat) (first second : ℚ), places[i]? = some first → places[j]? = some second →
    i < j → first + (j - i) ≤ second + scene.overlapAllowed

/-! ## What is painted -/

/-- What is painted for the samples from the one at `lastTx` on. -/
theorem commands_activityFrom
    (clip : Clip)
    (y lastTx : ℚ)
    (samples : List ProcessSample) :
    (scene.activityFrom clip y lastTx samples).commands =
      ((scene.shownSamples clip samples).zip
        (scene.barsAt lastTx ((scene.shownSamples clip samples).map scene.sampleX))).filterMap
          fun (sample, bar) => (sampleColor sample).map (barCommand y bar) := by
  induction samples generalizing lastTx with
  | nil => rfl
  | cons sample samples inductionHypothesis =>
      rw [activityFrom]
      dsimp only
      rw [commands_perDuration]
      by_cases left : isLeft clip (scene.sampleX sample)
      · have skipped : scene.shownSamples clip (sample :: samples) =
            scene.shownSamples clip samples := by
          simp [shownSamples, left]
        rw [if_pos left, skipped, inductionHypothesis]
      · rw [if_neg left]
        by_cases right : isRight clip (scene.sampleX sample)
        · have ended : scene.shownSamples clip (sample :: samples) = [] := by
            simp [shownSamples, left, right]
          rw [if_pos right, ended]
          rfl
        · have here : scene.shownSamples clip (sample :: samples) =
              sample :: scene.shownSamples clip samples := by
            simp [shownSamples, left, right]
          rw [if_neg right, here, commands_perDuration, commands_append,
            inductionHypothesis, List.map_cons, barsAt, List.zip_cons_cons,
            List.filterMap_cons]
          cases sampleColor sample <;> rfl

/-! ## One bar -/

/-- Bars are visible. -/
theorem one_le_bar (lastTx tx : ℚ) : 1 ≤ (scene.bar lastTx tx).2 := by
  unfold bar
  split <;> exact le_max_right _ _

/-- How far the end of the bars may lie ahead of a sample. -/
def reach : ℚ :=
  if 1 ≤ scene.sampleW then scene.sampleW else 0

/-- Widths are integers. -/
theorem sampleW_nonpos (thin : ¬1 ≤ scene.sampleW) : scene.sampleW ≤ 0 := by
  unfold sampleW at thin ⊢
  have less : scene.canvas.round
      (scene.procTree.samplePeriod * scene.rect.width / scene.procTree.duration) < 1 := by
    exact_mod_cast not_le.mp thin
  exact_mod_cast Int.lt_add_one_iff.mp less

/-- The first bar begins at its sample. -/
theorem bar_first (tx : ℚ) : scene.bar (-1) tx = (tx, max scene.sampleW 1) := by
  simp [bar]

/-- Thin bars end a pixel behind their samples. -/
theorem bar_end_thin
    (thin : ¬1 ≤ scene.sampleW)
    (lastTx tx : ℚ) : (scene.bar lastTx tx).1 + (scene.bar lastTx tx).2 = tx + 1 := by
  have narrow := scene.sampleW_nonpos thin
  unfold bar
  split
  next near =>
    have same : lastTx - tx = 0 := by
      rw [← abs_nonpos_iff]
      exact near.2.trans narrow
    rw [same, sub_zero, max_eq_right (by linarith)]
    linarith
  next => rw [max_eq_right (by linarith)]

section Bar

variable {lastTx : ℚ} (drawn : lastTx ≠ -1)

include drawn

/-- A bar begins behind the last one if and only if it is not too far back. -/
theorem le_bar_iff (tx : ℚ) :
    lastTx ≤ (scene.bar lastTx tx).1 ↔ lastTx ≤ tx + scene.reach := by
  unfold bar reach
  split
  next near =>
    have ahead := (abs_le.mp near.2).2
    refine iff_of_true (le_refl _) ?_
    split
    next => linarith
    next thin => linarith [scene.sampleW_nonpos thin]
  next far =>
    rw [not_and, not_le] at far
    have apart := lt_abs.mp (far drawn)
    split
    next wide =>
      rcases apart with ahead | behind
      · exact iff_of_false (by dsimp only; linarith) (by linarith)
      · exact iff_of_true (by dsimp only; linarith) (by linarith)
    next thin => rw [add_zero]

/-- Wide bars end a bar behind their samples, or a pixel behind the last bar. -/
theorem bar_end_wide
    (wide : 1 ≤ scene.sampleW)
    {tx : ℚ}
    (notBack : lastTx ≤ tx + scene.sampleW) :
    (scene.bar lastTx tx).1 + (scene.bar lastTx tx).2 =
      max (tx + scene.sampleW) (lastTx + 1) := by
  unfold bar
  split
  next near =>
    rw [← max_add_add_left]
    congr 1
    ring
  next far =>
    rw [not_and, not_le] at far
    rcases lt_abs.mp (far drawn) with ahead | behind
    · exact absurd notBack (by linarith)
    · rw [max_eq_left wide, max_eq_left (by linarith)]

/-- The end of a bar is not too far ahead of a place if neither the end of the last one nor
its sample is. -/
theorem bar_end_le_iff
    {tx : ℚ}
    (notBack : lastTx ≤ tx + scene.reach)
    (count place : ℚ) :
    (scene.bar lastTx tx).1 + (scene.bar lastTx tx).2 + count ≤ place + scene.reach ↔
      lastTx + (count + 1) ≤ place + scene.reach ∧
        tx + (count + 1) ≤ place + scene.overlapAllowed := by
  by_cases wide : 1 ≤ scene.sampleW
  · simp only [reach, overlapAllowed, if_pos wide] at notBack ⊢
    rw [scene.bar_end_wide drawn wide notBack, ← le_sub_iff_add_le, max_le_iff]
    constructor <;> rintro ⟨first, second⟩ <;> constructor <;> linarith
  · simp only [reach, overlapAllowed, if_neg wide] at notBack ⊢
    rw [scene.bar_end_thin wide]
    constructor
    · intro first
      constructor <;> linarith
    · rintro ⟨-, second⟩
      linarith

end Bar

/-! ## All bars -/

/-- One more place before others. -/
theorem hasRoom_cons (place : ℚ) (places : List ℚ) :
    scene.HasRoom (place :: places) ↔
      (∀ (k : Nat) (other : ℚ), places[k]? = some other →
        place + (k + 1) ≤ other + scene.overlapAllowed) ∧ scene.HasRoom places := by
  constructor
  · intro room
    constructor
    · intro k other isOther
      simpa using room 0 (k + 1) place other rfl isOther (Nat.succ_pos k)
    · intro i j first second isFirst isSecond less
      simpa using room (i + 1) (j + 1) first second isFirst isSecond (Nat.succ_lt_succ less)
  · rintro ⟨fromPlace, room⟩ i j first second isFirst isSecond less
    obtain ⟨j, rfl⟩ := Nat.exists_eq_succ_of_ne_zero (Nat.ne_zero_of_lt less)
    cases i with
    | zero =>
        obtain rfl := Option.some.inj isFirst
        simpa using fromPlace j second isSecond
    | succ i =>
        simpa using room i j first second isFirst isSecond (Nat.lt_of_succ_lt_succ less)

/-- Bars behind the end of another one. -/
theorem sideBySide_barsAt_iff
    {lastTx : ℚ}
    (drawn : -1 < lastTx)
    {places : List ℚ}
    (onChart : ∀ place ∈ places, 0 ≤ place) :
    (∀ bar ∈ (scene.barsAt lastTx places).head?, lastTx ≤ bar.1) ∧
        SideBySide (scene.barsAt lastTx places) ↔
      (∀ (k : Nat) (place : ℚ), places[k]? = some place →
        lastTx + k ≤ place + scene.reach) ∧ scene.HasRoom places := by
  induction places generalizing lastTx with
  | nil => simp [barsAt, SideBySide, HasRoom]
  | cons tx places inductionHypothesis =>
      obtain ⟨here, others⟩ := List.forall_mem_cons.mp onChart
      have drawnBar : -1 < (scene.bar lastTx tx).1 + (scene.bar lastTx tx).2 := by
        have wide := scene.one_le_bar lastTx tx
        have begins : -1 < (scene.bar lastTx tx).1 := by
          unfold bar
          split
          · exact drawn
          · exact lt_of_lt_of_le (by norm_num) here
        linarith
      rw [barsAt, SideBySide, List.isChain_cons, ← SideBySide, inductionHypothesis drawnBar others,
        hasRoom_cons]
      have first : (∀ bar ∈ (scene.bar lastTx tx :: scene.barsAt
          ((scene.bar lastTx tx).1 + (scene.bar lastTx tx).2) places).head?,
            lastTx ≤ bar.1) ↔ lastTx ≤ tx + scene.reach := by
        rw [← scene.le_bar_iff drawn.ne' tx]
        simp
      rw [first]
      constructor
      · rintro ⟨notBack, notAhead, room⟩
        have split := fun (k : Nat) (place : ℚ) isPlace =>
          (scene.bar_end_le_iff drawn.ne' notBack k place).mp (notAhead k place isPlace)
        refine ⟨fun k place isPlace => ?_, fun k other isOther => (split k other isOther).2,
          room⟩
        cases k with
        | zero =>
            obtain rfl := Option.some.inj isPlace
            simpa using notBack
        | succ k => simpa using (split k place isPlace).1
      · rintro ⟨notAhead, fromPlace, room⟩
        have notBack : lastTx ≤ tx + scene.reach := by simpa using notAhead 0 tx rfl
        refine ⟨notBack, fun k place isPlace => ?_, room⟩
        rw [scene.bar_end_le_iff drawn.ne' notBack]
        exact ⟨by simpa using notAhead (k + 1) place isPlace, fromPlace k place isPlace⟩

/-- Visible bars that lie beside each other do not overlap. -/
theorem SideBySide.pairwise
    {bars : List (ℚ × ℚ)}
    (visible : ∀ bar ∈ bars, 1 ≤ bar.2)
    (sideBySide : SideBySide bars) :
    bars.Pairwise fun first second => first.1 + first.2 ≤ second.1 := by
  induction bars with
  | nil => exact List.Pairwise.nil
  | cons bar bars inductionHypothesis =>
      obtain ⟨next, others⟩ := List.isChain_cons.mp sideBySide
      have pairwise := inductionHypothesis
        (fun other member => visible other (List.mem_cons_of_mem _ member)) others
      refine List.pairwise_cons.mpr ⟨fun other member => ?_, pairwise⟩
      cases bars with
      | nil => exact absurd member (by simp)
      | cons second rest =>
          have begins := next second rfl
          rcases List.mem_cons.mp member with rfl | inRest
          · exact begins
          · have wide := visible second (by simp)
            have behind := (List.pairwise_cons.mp pairwise).1 other inRest
            linarith

/-- All bars are visible. -/
theorem one_le_barsAt (lastTx : ℚ) (places : List ℚ) :
    ∀ bar ∈ scene.barsAt lastTx places, 1 ≤ bar.2 := by
  induction places generalizing lastTx with
  | nil => simp [barsAt]
  | cons tx places inductionHypothesis =>
      rw [barsAt]
      exact List.forall_mem_cons.mpr ⟨scene.one_le_bar lastTx tx, inductionHypothesis _⟩

/-- Then no two bars of a process overlap. -/
theorem pairwise_activityBars
    {clip : Clip}
    {samples : List ProcessSample}
    (sideBySide : SideBySide (scene.activityBars clip samples)) :
    (scene.activityBars clip samples).Pairwise fun first second =>
      first.1 + first.2 ≤ second.1 :=
  sideBySide.pairwise (scene.one_le_barsAt _ _)

/-- Bars do not begin left of the picture. -/
theorem sampleX_nonneg
    {samples : List ProcessSample}
    (onChart : scene.OnChart samples)
    {sample : ProcessSample}
    (member : sample ∈ samples) : 0 ≤ scene.sampleX sample := by
  have time : 0 ≤ scene.procTree.timeX scene.rect sample.time :=
    div_nonneg (mul_nonneg (sub_nonneg.mpr (onChart.begun sample member)) onChart.width)
      onChart.duration
  have rounded := scene.canvas.round_mono 0 _ time
  have zero : scene.canvas.round 0 = 0 := scene.canvas.round_intCast 0
  rw [zero] at rounded
  exact add_nonneg onChart.left (Int.cast_nonneg rounded)

/-- The bars of a process lie beside each other if and only if its samples have room. -/
theorem sideBySide_activityBars_iff
    {clip : Clip}
    {samples : List ProcessSample}
    (onChart : scene.OnChart samples) :
    SideBySide (scene.activityBars clip samples) ↔
      scene.HasRoom ((scene.shownSamples clip samples).map scene.sampleX) := by
  have shownOnChart : ∀ place ∈ (scene.shownSamples clip samples).map scene.sampleX,
      0 ≤ place := by
    intro place member
    obtain ⟨sample, isShown, rfl⟩ := List.mem_map.mp member
    exact scene.sampleX_nonneg onChart
      (List.mem_of_mem_filter ((List.takeWhile_prefix _).subset isShown))
  unfold activityBars
  revert shownOnChart
  cases (scene.shownSamples clip samples).map scene.sampleX with
  | nil => simp [barsAt, SideBySide, HasRoom]
  | cons tx places =>
      intro shownOnChart
      obtain ⟨here, others⟩ := List.forall_mem_cons.mp shownOnChart
      have visible : 1 ≤ max scene.sampleW 1 := le_max_right _ _
      rw [barsAt, scene.bar_first, SideBySide, List.isChain_cons, ← SideBySide,
        scene.sideBySide_barsAt_iff (by linarith) others, hasRoom_cons]
      apply and_congr_left'
      have ends : tx + max scene.sampleW 1 + scene.overlapAllowed = tx + 1 + scene.reach := by
        unfold overlapAllowed reach
        split
        next wide => rw [max_eq_left wide]; ring
        next thin => rw [max_eq_right (not_le.mp thin).le]
      constructor <;> intro apart k place isPlace <;>
        have here := apart k place isPlace <;> linarith

/-- Samples at the same time. -/
def atOnce (count : Nat) : List ProcessSample :=
  List.replicate count ⟨1, ['R'], ⟨none, 1, 0, 0, 0⟩⟩

/-- A chart on which a sample is fifty pixels wide. -/
def twoFrameScene : Scene where
  canvas := fixedWidth
  options := { showPid := false, showAll := false }
  procTree :=
    { objects := fun _ => { Process.new 1000 ['a'] 0 0 with samples := atOnce 3 }
      processTree := .nil
      startTime := 0
      duration := 2
      samplePeriod := 1
      numProc := 1
      idle := none
      taskstats := false }
  rect := ⟨10, 0, 100, 100⟩

/-- Two samples at the same time have room beside each other. -/
theorem sideBySide_twoAtOnce :
    SideBySide (twoFrameScene.activityBars none (atOnce 2)) := by
  have onChart : twoFrameScene.OnChart (atOnce 2) :=
    ⟨by decide +kernel, by decide +kernel, by decide +kernel, by decide +kernel⟩
  refine (sideBySide_activityBars_iff twoFrameScene onChart).mpr ?_
  have places : (twoFrameScene.shownSamples none (atOnce 2)).map twoFrameScene.sampleX =
      [60, 60] := by
    decide +kernel
  have wide : twoFrameScene.overlapAllowed = 1 := by decide +kernel
  rw [places, hasRoom_cons, hasRoom_cons, wide]
  refine ⟨fun k other isOther => ?_, by simp, by simp [HasRoom]⟩
  cases k with
  | zero =>
      obtain rfl := Option.some.inj isOther
      norm_num
  | succ k => simp at isOther

/-- The third of three samples at the same time is drawn over the first one. -/
theorem not_sideBySide_threeAtOnce :
    (atOnce 3).Pairwise (fun first second => first.time ≤ second.time) ∧
      twoFrameScene.OnChart (atOnce 3) ∧
      twoFrameScene.activityBars none (atOnce 3) = [(60, 50), (110, 1), (60, 50)] ∧
      ¬SideBySide (twoFrameScene.activityBars none (atOnce 3)) := by
  refine ⟨by decide +kernel, ?_, by decide +kernel, by decide +kernel⟩
  exact ⟨by decide +kernel, by decide +kernel, by decide +kernel, by decide +kernel⟩

end Scene
end Draw
end Bootchart
