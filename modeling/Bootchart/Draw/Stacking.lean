import Bootchart.Draw.Cumulative
import Bootchart.Library.Accumulated

/-!
# The layers of a cumulative graph lie on each other

The loop over the times repaints lazily, and `last_below` lags behind: after the boundary
below has changed, it is one segment late. As no boundary ever rises with time, what lags
lies above, so a boundary that equals it has not changed since the segment began.
-/

namespace Bootchart
namespace Draw
namespace CumlGraph

open Library (Text Dict accumulated runningSums)
open ProcessTree (Statistic samplesTotal)

variable (graph : CumlGraph)

/-! ## What a group has used -/

/-- What a group has used up to a time. -/
def used (cs : CumlSample) (time : ℚ) : ℚ :=
  accumulated (·.time) graph.sampleValue.value cs.samples time

/-- How high the area of a group is at a time. -/
def height (cs : CumlSample) (time : ℚ) : ℚ :=
  graph.canvas.round (graph.pixPerNs * graph.used cs time)

/-- Where the layers end at a time. -/
def boundary (layers : List Layer) (time : ℚ) : ℚ :=
  graph.bottom - (layers.map fun layer => graph.height layer.group time).sum

/-- A boundary that does not rise with time: positions grow downwards. -/
def NonIncreasing (row : Dict ℚ ℚ) : Prop :=
  ∀ first ∈ graph.times, ∀ second ∈ graph.times, first ≤ second →
    valueAt row second ≤ valueAt row first

/-- A group as it is drawn. -/
structure IsGroup (cs : CumlSample) : Prop where
  /-- Its samples are sorted. -/
  sorted : cs.samples.Pairwise fun s t => s.time ≤ t.time
  /-- Their times are sample times. -/
  inTimes : ∀ sample ∈ cs.samples, sample.time ∈ graph.times
  /-- Their values are not negative. -/
  nonneg : ∀ sample ∈ cs.samples, 0 ≤ graph.sampleValue.value sample

/-- A group that was drawn lies on the boundary below it. -/
structure Stacks (done : List Layer) (layer : Layer) : Prop where
  /-- The new boundary lies where the layers end. -/
  row : ∀ time ∈ graph.times,
    layer.row.get? time = some (graph.boundary (done ++ [layer]) time)
  /-- It does not rise with time. -/
  nonIncreasing : graph.NonIncreasing layer.row
  /-- Every rectangle reaches from the new boundary to the one before, at every sample
  time it is painted for. -/
  spans : ∀ segment ∈ layer.segments, ∀ time ∈ graph.times, segment.Covers time →
    segment.rect.y = graph.boundary (done ++ [layer]) time ∧
      segment.rect.y + segment.rect.height = graph.boundary done time
  /-- These rectangles are what is painted. -/
  painted : ∀ place, (graph.drawLayer place layer).commands =
    layer.segments.map fun segment => .fillRect (getColor place) segment.rect

/-! ## Sample times -/

/-- The sample times are strictly increasing. -/
theorem sorted_times : graph.times.Pairwise (· < ·) := by
  have sorted : graph.times.Pairwise (· ≤ ·) := by
    have ordered := @List.pairwise_mergeSort ℚ (fun first second => decide (first ≤ second))
      (fun _ _ _ first second => by simp only [decide_eq_true_eq] at *; linarith)
      (fun first second => by simpa using le_total first second)
      (graph.samples.map (·.time)).dedup
    exact ordered.imp fun atMost => by simpa using atMost
  have nodup : graph.times.Nodup :=
    (List.mergeSort_perm _ _).nodup_iff.mpr (List.nodup_dedup _)
  exact (List.Pairwise.and sorted nodup).imp fun both => lt_of_le_of_ne both.1 both.2

/-- The sample times are the times of samples. -/
theorem mem_times {time : ℚ} :
    time ∈ graph.times ↔ ∃ sample ∈ graph.samples, sample.time = time := by
  rw [times, (List.mergeSort_perm _ _).mem_iff, List.mem_dedup, List.mem_map]

@[simp] theorem valueAt_set (dict : Dict ℚ ℚ) (key value time : ℚ) :
    valueAt (dict.set key value) time = if time = key then value else valueAt dict time := by
  rw [valueAt, Dict.get?_set]
  split <;> rfl

/-- The first boundary is the lower side of the chart. -/
theorem valueAt_firstBelow {time : ℚ} (member : time ∈ graph.times) :
    valueAt graph.firstBelow time = graph.bottom := by
  unfold firstBelow
  revert member
  induction graph.times using List.reverseRecOn with
  | nil => intro member; exact absurd member (by simp)
  | append_singleton times last inductionHypothesis =>
      intro member
      rw [List.foldl_append, List.foldl_cons, List.foldl_nil, valueAt_set]
      split
      next => rfl
      next other => exact inductionHypothesis (by simpa [other] using member)

/-! ## One group -/

section Group

variable {graph} {cs : CumlSample} {below : Dict ℚ ℚ}

/-- What was used up to the last of some times is what was used at them. -/
theorem IsGroup.used_eq
    (isGroup : graph.IsGroup cs)
    {done : List ℚ}
    {time : ℚ}
    (isPrefix : done ++ [time] <+: graph.times) :
    graph.used cs time =
      samplesTotal graph.sampleValue
        (cs.samples.filter fun sample => sample.time ∈ done ++ [time]) := by
  have same : ∀ sample ∈ cs.samples,
      decide (sample.time ≤ time) = decide (sample.time ∈ done ++ [time]) := by
    intro sample member
    rw [decide_eq_decide]
    exact (Library.mem_before_iff_le graph.sorted_times isPrefix
      (isGroup.inTimes sample member)).symm
  rw [used, accumulated, List.filter_congr same]
  rfl

/-- More and more is used. -/
theorem IsGroup.height_mono
    (isGroup : graph.IsGroup cs)
    (positive : 0 ≤ graph.pixPerNs)
    {first second : ℚ}
    (atMost : first ≤ second) : graph.height cs first ≤ graph.height cs second := by
  have more : graph.used cs first ≤ graph.used cs second :=
    Library.accumulated_mono isGroup.nonneg atMost
  exact Int.cast_le.mpr (graph.canvas.round_mono _ _
    (mul_le_mul_of_nonneg_left more positive))

/-- The pen has drawn the group up to some times. -/
structure Follows (graph : CumlGraph) (cs : CumlSample) (below : Dict ℚ ℚ)
    (done : List ℚ) (pen : Pen) : Prop where
  /-- The height is what was used at the times passed. -/
  cuml : pen.cuml = graph.canvas.round (graph.pixPerNs * samplesTotal graph.sampleValue
    (cs.samples.filter fun sample => sample.time ∈ done))
  /-- The boundary is that of the segment that has begun. -/
  y : pen.y = valueAt below pen.lastTime - pen.cuml
  /-- The boundary below may lag behind, but then it lies lower. -/
  lastBelow : valueAt below pen.lastTime ≤ pen.lastBelow
  /-- Segments begin at sample times. -/
  lastTime : pen.lastTime ∈ graph.times
  /-- They do not begin at times to come. -/
  reached : ∀ time ∈ graph.times, time ∉ done → pen.lastTime ≤ time
  /-- Nothing has changed since the segment began. -/
  steady : ∀ time ∈ done, pen.lastTime ≤ time →
    valueAt below time = valueAt below pen.lastTime ∧ graph.height cs time = pen.cuml
  /-- The new boundary at times passed. -/
  rowDone : ∀ time ∈ done,
    pen.row.get? time = some (valueAt below time - graph.height cs time)
  /-- What was used, at times to come. -/
  rowRest : ∀ time ∉ done,
    pen.row.get? time = (graph.accumulate cs.samples).1.get? time
  /-- The segments that were painted end at times passed. -/
  stops : ∀ segment ∈ pen.segments, ∃ stop ∈ done, segment.stop = some stop
  /-- They reach from the new boundary to the one below. -/
  spans : ∀ segment ∈ pen.segments, ∀ time ∈ done, segment.Covers time →
    segment.rect.y = valueAt below time - graph.height cs time ∧
      segment.rect.y + segment.rect.height = valueAt below time

/-- The pen before the first time. -/
theorem follows_start (times : graph.times ≠ []) :
    graph.Follows cs below [] (graph.penStart below (graph.accumulate cs.samples).1) := by
  obtain ⟨first, rest, isTimes⟩ := List.exists_cons_of_ne_nil times
  have sorted := graph.sorted_times
  have head : graph.times.headD 0 = first := by rw [isTimes]; rfl
  rw [isTimes, List.pairwise_cons] at sorted
  have zero : graph.canvas.round 0 = 0 := graph.canvas.round_intCast 0
  constructor
  case cuml => simp [penStart, samplesTotal, zero]
  case y => simp [penStart]
  case lastBelow => exact le_refl _
  case lastTime => simp [penStart, isTimes]
  case reached =>
    intro time member _
    rw [isTimes, List.mem_cons] at member
    simp only [penStart, head]
    rcases member with rfl | inRest
    · exact le_refl _
    · exact (sorted.1 time inRest).le
  case rowRest => exact fun _ _ => rfl
  all_goals simp [penStart]

/-- The height that the pen takes at a time. -/
theorem Follows.newHeight
    (isGroup : graph.IsGroup cs)
    {done : List ℚ}
    {time : ℚ}
    (isPrefix : done ++ [time] <+: graph.times)
    (notDone : time ∉ done)
    {pen : Pen}
    (follows : graph.Follows cs below done pen) :
    ((pen.row.get? time).map fun value =>
      (graph.canvas.round (value * graph.pixPerNs) : ℚ)).getD pen.cuml =
        graph.height cs time := by
  rw [follows.rowRest time notDone]
  have sums : (graph.accumulate cs.samples).1.get? time =
      if time ∈ cs.samples.map (·.time) then some (graph.used cs time) else none :=
    Library.get?_runningSums isGroup.sorted time
  rw [sums]
  split
  next => rw [Option.map_some, Option.getD_some, height, mul_comm]
  next noSample =>
    have same : ∀ sample ∈ cs.samples,
        decide (sample.time ∈ done) = decide (sample.time ∈ done ++ [time]) := by
      intro sample member
      have other : sample.time ≠ time := fun equal =>
        noSample (List.mem_map.mpr ⟨sample, member, equal⟩)
      simp [other]
    rw [Option.map_none, Option.getD_none, follows.cuml, height, isGroup.used_eq isPrefix,
      List.filter_congr same]

section Step

variable {done : List ℚ} {time : ℚ} {pen : Pen}

/-- Setting the new boundary at one more time. -/
theorem Follows.row_set (follows : graph.Follows cs below done pen) :
    (∀ other ∈ done ++ [time],
      (pen.row.set time (valueAt below time - graph.height cs time)).get? other =
        some (valueAt below other - graph.height cs other)) ∧
    ∀ other ∉ done ++ [time],
      (pen.row.set time (valueAt below time - graph.height cs time)).get? other =
        (graph.accumulate cs.samples).1.get? other := by
  constructor
  · intro other isBefore
    rw [Dict.get?_set]
    split
    next here => rw [here]
    next elsewhere => exact follows.rowDone other (by simpa [elsewhere] using isBefore)
  · intro other notBefore
    rw [List.mem_append, List.mem_singleton, not_or] at notBefore
    rw [Dict.get?_set_of_ne notBefore.2, follows.rowRest other notBefore.1]

/-- Segments that were painted do not reach one more time. -/
theorem Follows.spans_append
    (follows : graph.Follows cs below done pen)
    (earlier : ∀ other ∈ done, other < time) :
    (∀ segment ∈ pen.segments, ∃ stop ∈ done ++ [time], segment.stop = some stop) ∧
    ∀ segment ∈ pen.segments, ∀ other ∈ done ++ [time], segment.Covers other →
      segment.rect.y = valueAt below other - graph.height cs other ∧
        segment.rect.y + segment.rect.height = valueAt below other := by
  constructor
  · intro segment member
    obtain ⟨stop, stopDone, isStop⟩ := follows.stops segment member
    exact ⟨stop, List.mem_append_left _ stopDone, isStop⟩
  · intro segment member other isBefore covers
    rcases List.mem_append.mp isBefore with isDone | isNew
    · exact follows.spans segment member other isDone covers
    · obtain ⟨stop, stopDone, isStop⟩ := follows.stops segment member
      have stopped := covers.2 stop isStop
      rw [List.mem_singleton.mp isNew] at stopped
      exact absurd (earlier stop stopDone) stopped.not_gt

/-- The pen at one more time. -/
theorem follows_step
    (isGroup : graph.IsGroup cs)
    (falls : graph.NonIncreasing below)
    (isPrefix : done ++ [time] <+: graph.times)
    (follows : graph.Follows cs below done pen) :
    graph.Follows cs below (done ++ [time]) (graph.penStep below pen time) := by
  have isTime : time ∈ graph.times := isPrefix.subset (by simp)
  have earlier := Library.lt_of_mem_before graph.sorted_times isPrefix
  have notDone : time ∉ done := fun member => (earlier time member).false
  have later : ∀ other ∈ graph.times, other ∉ done ++ [time] → time ≤ other := by
    intro other member notBefore
    rw [Library.mem_before_iff_le graph.sorted_times isPrefix member] at notBefore
    exact (not_le.mp notBefore).le
  have newCuml : graph.height cs time = graph.canvas.round (graph.pixPerNs *
      samplesTotal graph.sampleValue
        (cs.samples.filter fun sample => sample.time ∈ done ++ [time])) := by
    rw [height, isGroup.used_eq isPrefix]
  have lower := falls pen.lastTime follows.lastTime time isTime
    (follows.reached time isTime notDone)
  obtain ⟨oldStops, oldSpans⟩ := follows.spans_append earlier
  obtain ⟨rowDone, rowRest⟩ := follows.row_set
  unfold penStep
  simp only [follows.newHeight isGroup isPrefix notDone, decide_eq_true_eq]
  split
  next =>
    constructor
    case cuml => exact newCuml
    case y => rfl
    case lastBelow =>
      dsimp only
      split
      next => exact lower
      next same => exact (not_not.mp same).le
    case lastTime => exact isTime
    case reached => exact later
    case steady =>
      intro other isBefore atLeast
      rcases List.mem_append.mp isBefore with isDone | isNew
      · exact absurd (earlier other isDone) (not_lt.mpr atLeast)
      · rw [List.mem_singleton.mp isNew]
        exact ⟨rfl, rfl⟩
    case rowDone => exact rowDone
    case rowRest => exact rowRest
    case stops =>
      intro segment member
      rcases List.mem_append.mp member with isOld | isNew
      · exact oldStops segment isOld
      · rw [List.mem_singleton.mp isNew]
        exact ⟨time, by simp, rfl⟩
    case spans =>
      intro segment member other isBefore covers
      rcases List.mem_append.mp member with isOld | isNew
      · exact oldSpans segment isOld other isBefore covers
      · -- The new segment covers times passed, at which nothing had changed.
        rw [List.mem_singleton.mp isNew] at covers ⊢
        have isDone : other ∈ done := by
          have less : other ≠ time := (covers.2 time rfl).ne
          simpa [less] using isBefore
        obtain ⟨sameBelow, sameHeight⟩ := follows.steady other isDone covers.1
        dsimp only
        rw [sameBelow, sameHeight]
        exact ⟨rfl, sub_add_cancel _ _⟩
  next unchanged =>
    rw [not_or, not_not, not_not] at unchanged
    obtain ⟨sameBelow, sameHeight⟩ := unchanged
    -- The boundary below equals one that lay lower when the segment began.
    have still : valueAt below time = valueAt below pen.lastTime :=
      le_antisymm lower (follows.lastBelow.trans sameBelow.ge)
    have sameY : pen.y = valueAt below time - graph.height cs time := by
      rw [follows.y, still, sameHeight]
    constructor
    case cuml => rw [← newCuml, sameHeight]
    case y => exact follows.y
    case lastBelow => exact follows.lastBelow
    case lastTime => exact follows.lastTime
    case reached =>
      intro other member notBefore
      exact (follows.reached time isTime notDone).trans (later other member notBefore)
    case steady =>
      intro other isBefore atLeast
      rcases List.mem_append.mp isBefore with isDone | isNew
      · exact follows.steady other isDone atLeast
      · rw [List.mem_singleton.mp isNew]
        exact ⟨still, sameHeight⟩
    case rowDone => simpa only [sameY] using rowDone
    case rowRest => simpa only [sameY] using rowRest
    case stops => exact oldStops
    case spans => exact oldSpans

end Step

/-- The pen at any number of times. -/
theorem follows_run
    (isGroup : graph.IsGroup cs)
    (falls : graph.NonIncreasing below)
    (times : graph.times ≠ [])
    {done : List ℚ}
    (isPrefix : done <+: graph.times) :
    graph.Follows cs below done (done.foldl (graph.penStep below)
      (graph.penStart below (graph.accumulate cs.samples).1)) := by
  induction done using List.reverseRecOn with
  | nil => exact follows_start times
  | append_singleton done time inductionHypothesis =>
      have before := inductionHypothesis ((List.prefix_append _ _).trans isPrefix)
      rw [List.foldl_append]
      exact follows_step isGroup falls isPrefix before

/-- The values of the samples of a group, added up. -/
theorem snd_accumulate (graph : CumlGraph) (samples : List ProcessSample) :
    (graph.accumulate samples).2 = samplesTotal graph.sampleValue samples :=
  Library.snd_runningSums samples

/-- A group that is drawn has samples, and the chart has a height. -/
theorem of_layer
    (isGroup : graph.IsGroup cs)
    (large : 2 < (graph.accumulate cs.samples).2 * graph.pixPerNs) :
    0 ≤ graph.pixPerNs ∧ graph.times ≠ [] := by
  rw [snd_accumulate] at large
  have nonneg : 0 ≤ samplesTotal graph.sampleValue cs.samples := by
    refine List.sum_nonneg fun value isValue => ?_
    obtain ⟨sample, member, rfl⟩ := List.mem_map.mp isValue
    exact isGroup.nonneg sample member
  constructor
  · by_contra negative
    have small := mul_nonpos_of_nonneg_of_nonpos nonneg (not_le.mp negative).le
    linarith
  · intro noTimes
    have noSamples : cs.samples = [] := by
      refine List.eq_nil_iff_forall_not_mem.mpr fun sample member => ?_
      have isTime := isGroup.inTimes sample member
      rw [noTimes] at isTime
      exact absurd isTime (by simp)
    rw [noSamples] at large
    norm_num [samplesTotal] at large

/-- A group is drawn between two boundaries. -/
structure Lies (graph : CumlGraph) (below : Dict ℚ ℚ) (layer : Layer) : Prop where
  /-- The new boundary. -/
  row : ∀ time ∈ graph.times,
    layer.row.get? time = some (valueAt below time - graph.height layer.group time)
  /-- It does not rise. -/
  nonIncreasing : graph.NonIncreasing layer.row
  /-- Rectangles reach from it to the one below. -/
  spans : ∀ segment ∈ layer.segments, ∀ time ∈ graph.times, segment.Covers time →
    segment.rect.y = valueAt below time - graph.height layer.group time ∧
      segment.rect.y + segment.rect.height = valueAt below time

/-- One round of the loop over the groups. -/
theorem lies_layer
    (isGroup : graph.IsGroup cs)
    (falls : graph.NonIncreasing below)
    {layer : Layer}
    (isLayer : graph.layer below cs = some layer) :
    layer.group = cs ∧ graph.Lies below layer := by
  unfold CumlGraph.layer at isLayer
  dsimp only at isLayer
  split at isLayer
  next => exact absurd isLayer (by simp)
  next large =>
    obtain rfl := Option.some.inj isLayer
    obtain ⟨positive, times⟩ := of_layer isGroup (not_le.mp large)
    have follows := follows_run isGroup falls times (List.prefix_refl _)
    refine ⟨rfl, follows.rowDone, ?_, ?_⟩
    · intro first isFirst second isSecond atMost
      simp only [valueAt, follows.rowDone _ isFirst, follows.rowDone _ isSecond,
        Option.getD_some]
      exact sub_le_sub (falls first isFirst second isSecond atMost)
        (isGroup.height_mono positive atMost)
    · intro segment member time isTime covers
      rcases List.mem_append.mp member with isOld | isLast
      · exact follows.spans segment isOld time isTime covers
      · -- Nothing has changed since the last segment began.
        rw [List.mem_singleton.mp isLast] at covers ⊢
        obtain ⟨sameBelow, sameHeight⟩ := follows.steady time isTime covers.1
        dsimp only
        rw [sameBelow, sameHeight]
        exact ⟨rfl, sub_add_cancel _ _⟩

end Group

/-! ## All groups -/

/-- A group holds the samples of all processes of its name, sorted. -/
structure Gathers (processes : List Process) (cmd : Text) (cs : CumlSample) : Prop where
  /-- Its name. -/
  named : cs.cmd = cmd
  /-- It is sorted. -/
  sorted : cs.samples.Pairwise fun s t => s.time ≤ t.time
  /-- Its samples. -/
  perm : cs.samples.Perm
    ((processes.filter fun proc => proc.cmd = cmd).flatMap (·.samples))

/-- Merging keeps a group sorted. -/
theorem sorted_mergeSamples (cs : CumlSample) (proc : Process) :
    (cs.mergeSamples proc).samples.Pairwise fun s t => s.time ≤ t.time := by
  have sorted := @List.pairwise_mergeSort ProcessSample (fun s t => decide (s.time ≤ t.time))
    (fun _ _ _ first second => by simp only [decide_eq_true_eq] at *; linarith)
    (fun first second => by simpa using le_total first.time second.time)
    (cs.samples ++ proc.samples)
  exact sorted.imp fun atMost => by simpa using atMost

/-- Merging adds the samples of a process. -/
theorem Gathers.mergeSamples
    {processes : List Process}
    {proc : Process}
    {cs : CumlSample}
    (gathers : Gathers processes proc.cmd cs) :
    Gathers (processes ++ [proc]) proc.cmd (cs.mergeSamples proc) where
  named := gathers.named
  sorted := sorted_mergeSamples cs proc
  perm := by
    rw [List.filter_append, List.flatMap_append]
    refine (List.mergeSort_perm _ _).trans (gathers.perm.append ?_)
    simp

/-- Every process is merged into the group of its name. -/
theorem gathers_groups (processes : List Process) (cmd : Text) :
    match (processes.foldl addToGroup Dict.empty).get? cmd with
    | some cs => Gathers processes cmd cs
    | none => ∀ proc ∈ processes, proc.cmd ≠ cmd := by
  induction processes using List.reverseRecOn with
  | nil => simp
  | append_singleton processes proc inductionHypothesis =>
      rw [List.foldl_append, List.foldl_cons, List.foldl_nil, addToGroup, Dict.get?_set]
      by_cases same : cmd = proc.cmd
      · subst same
        rw [if_pos rfl]
        cases isGroup : (processes.foldl addToGroup Dict.empty).get? proc.cmd with
        | some cs =>
            rw [isGroup] at inductionHypothesis
            exact inductionHypothesis.mergeSamples
        | none =>
            rw [isGroup] at inductionHypothesis
            have nobody : Gathers processes proc.cmd { cmd := proc.cmd, samples := [] } := by
              have none : (processes.filter fun other => other.cmd = proc.cmd) = [] := by
                simpa [List.filter_eq_nil_iff] using inductionHypothesis
              exact ⟨rfl, List.Pairwise.nil, by rw [none]; exact List.Perm.refl _⟩
            exact nobody.mergeSamples
      · rw [if_neg same]
        cases isGroup : (processes.foldl addToGroup Dict.empty).get? cmd with
        | some cs =>
            rw [isGroup] at inductionHypothesis
            refine ⟨inductionHypothesis.named, inductionHypothesis.sorted, ?_⟩
            simpa [List.filter_append, Ne.symm same] using inductionHypothesis.perm
        | none =>
            rw [isGroup] at inductionHypothesis
            simpa [or_imp, forall_and, Ne.symm same] using inductionHypothesis

/-- The groups of the processes. -/
theorem isGroup_mProcList
    (nonneg : ∀ proc ∈ graph.processList, ∀ sample ∈ proc.samples,
      0 ≤ graph.sampleValue.value sample)
    {cs : CumlSample}
    (member : cs ∈ graph.mProcList.values) : graph.IsGroup cs := by
  obtain ⟨⟨cmd, group⟩, isEntry, rfl⟩ := List.mem_map.mp member
  have gathers := gathers_groups graph.shown cmd
  rw [← mProcList, Dict.mem_entries.mp isEntry] at gathers
  have shown : ∀ sample ∈ group.samples,
      ∃ proc ∈ graph.shown, sample ∈ proc.samples := by
    intro sample isSample
    obtain ⟨proc, isProc, inProc⟩ :=
      List.mem_flatMap.mp (gathers.perm.mem_iff.mp isSample)
    exact ⟨proc, List.mem_of_mem_filter isProc, inProc⟩
  refine ⟨gathers.sorted, fun sample isSample => ?_, fun sample isSample => ?_⟩
  · obtain ⟨proc, isProc, inProc⟩ := shown sample isSample
    exact graph.mem_times.mpr ⟨sample, List.mem_flatMap.mpr ⟨proc, isProc, inProc⟩, rfl⟩
  · obtain ⟨proc, isProc, inProc⟩ := shown sample isSample
    exact nonneg proc (List.mem_of_mem_filter isProc) sample inProc

/-- What is painted for a group. -/
theorem commands_drawLayer (place : Nat) (layer : Layer) :
    (graph.drawLayer place layer).commands =
      layer.segments.map fun segment => .fillRect (getColor place) segment.rect := by
  unfold drawLayer
  induction layer.segments with
  | nil => rfl
  | cons segment segments inductionHypothesis =>
      rw [List.flatMap_cons, List.map_cons, ← inductionHypothesis]
      cases isStop : segment.stop <;>
        simp [drawSegment, isStop, Drawing.commands, List.replicate]

/-- The loop over the groups. -/
theorem stacks_layersFrom
    {groups : List CumlSample}
    (isGroup : ∀ cs ∈ groups, graph.IsGroup cs)
    {below : Dict ℚ ℚ}
    (falls : graph.NonIncreasing below)
    (under : List Layer)
    (isBelow : ∀ time ∈ graph.times, valueAt below time = graph.boundary under time)
    {done : List Layer}
    {layer : Layer}
    (isPrefix : done ++ [layer] <+: graph.layersFrom below groups) :
    graph.Stacks (under ++ done) layer := by
  induction groups generalizing below under done with
  | nil => simp [layersFrom] at isPrefix
  | cons cs groups inductionHypothesis =>
      obtain ⟨isFirst, areGroups⟩ := List.forall_mem_cons.mp isGroup
      rw [layersFrom] at isPrefix
      split at isPrefix
      next => exact inductionHypothesis areGroups falls under isBelow isPrefix
      next first isLayer =>
        obtain ⟨rfl, lies⟩ := lies_layer isFirst falls isLayer
        have ends : ∀ time ∈ graph.times,
            valueAt below time - graph.height first.group time =
              graph.boundary (under ++ [first]) time := by
          intro time isTime
          rw [isBelow time isTime]
          simp only [boundary, List.map_append, List.sum_append, List.map_singleton,
            List.sum_singleton]
          ring
        cases done with
        | nil =>
            obtain rfl : layer = first := by
              simpa [List.cons_prefix_cons] using isPrefix
            rw [List.append_nil]
            refine ⟨fun time isTime => ?_, lies.nonIncreasing,
              fun segment member time isTime covers => ?_,
              fun place => graph.commands_drawLayer place layer⟩
            · rw [lies.row time isTime, ends time isTime]
            · rw [← ends time isTime, ← isBelow time isTime]
              exact lies.spans segment member time isTime covers
        | cons other done =>
            obtain ⟨rfl, isRest⟩ := List.cons_prefix_cons.mp isPrefix
            have above := inductionHypothesis areGroups lies.nonIncreasing (_ ++ _)
              (fun time isTime => by
                rw [valueAt, lies.row time isTime, Option.getD_some, ends time isTime])
              isRest
            rwa [List.append_assoc] at above

/-- The groups that are drawn are those that are large enough, in order. -/
theorem map_group_layers :
    graph.layers.map (·.group) = graph.mProcList.values.filter fun cs =>
      2 < samplesTotal graph.sampleValue cs.samples * graph.pixPerNs := by
  have groups : ∀ groups below, (graph.layersFrom below groups).map (·.group) =
      groups.filter fun cs =>
        2 < samplesTotal graph.sampleValue cs.samples * graph.pixPerNs := by
    intro groups
    induction groups with
    | nil => exact fun _ => rfl
    | cons cs groups inductionHypothesis =>
        intro below
        rw [layersFrom, List.filter_cons, ← snd_accumulate]
        by_cases small : (graph.accumulate cs.samples).2 * graph.pixPerNs ≤ 2
        · simp [CumlGraph.layer, small, inductionHypothesis, not_lt.mpr small]
        · simp [CumlGraph.layer, small, inductionHypothesis, not_le.mp small]
  exact groups _ _

/-- Every group that is drawn lies on those drawn before it. -/
theorem stacks_layers
    (nonneg : ∀ proc ∈ graph.processList, ∀ sample ∈ proc.samples,
      0 ≤ graph.sampleValue.value sample)
    {done : List Layer}
    {layer : Layer}
    (isPrefix : done ++ [layer] <+: graph.layers) : graph.Stacks done layer := by
  refine graph.stacks_layersFrom
    (fun cs member => graph.isGroup_mProcList nonneg member) ?_ [] ?_ isPrefix
  · intro first isFirst second isSecond _
    rw [graph.valueAt_firstBelow isFirst, graph.valueAt_firstBelow isSecond]
  · intro time isTime
    simp [graph.valueAt_firstBelow isTime, boundary]

/-- A process with one sample. -/
def oneSample (cmd : Text) (time user : ℚ) : Process :=
  { Process.new 1000 cmd 0 0 with samples := [⟨time, ['R'], ⟨none, user, 0, 0, 0⟩⟩] }

/-- Two processes, one after the other. -/
def twoGroups : CumlGraph where
  canvas := fixedWidth
  procTree :=
    { objects := fun _ => oneSample [] 0 0
      processTree := .nil
      startTime := 0
      duration := 2
      samplePeriod := 1
      numProc := 2
      idle := none
      taskstats := true }
  processList := [oneSample ['a'] 0 6, oneSample ['b'] 1 4]
  chartBounds := ⟨10, 10, 100, 100⟩
  sampleValue := .cpu

/-- The second process lies on the first one. -/
theorem stacks_layers_twoGroups :
    ∃ first second, twoGroups.layers = [first, second] ∧
      twoGroups.Stacks [first] second := by
  have names : twoGroups.layers.map (·.group.cmd) = [['a'], ['b']] := by decide +kernel
  obtain ⟨first, others, isLayers, -, isRest⟩ := List.map_eq_cons_iff.mp names
  obtain ⟨second, rest, rfl, -, isEnd⟩ := List.map_eq_cons_iff.mp isRest
  obtain rfl := List.map_eq_nil_iff.mp isEnd
  have nonneg : ∀ proc ∈ twoGroups.processList, ∀ sample ∈ proc.samples,
      0 ≤ twoGroups.sampleValue.value sample := by decide +kernel
  refine ⟨first, second, isLayers, stacks_layers twoGroups nonneg ?_⟩
  rw [isLayers]
  exact List.prefix_refl _

end CumlGraph
end Draw
end Bootchart
