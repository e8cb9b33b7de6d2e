import Bootchart.Collector.TaskstatsReply

/-!
# Searching a reply

The search of `wait_taskstats` follows the attributes of a reply one by one, except that it moves
on among nested ones by the sum of the lengths so far. So it is right as long as it does not move on
from the second one.
-/

namespace Bootchart
namespace Collector
namespace TaskstatsReply

open Library (align4 Halts halts_iterate_iff halts_ended_iff halts_step_iff not_halts)

variable (memory : Nat → UInt8)

/-! ## Searches -/

/-- The search ends with an outcome, and it has looked only at the reply and made only moves to the
next attribute. -/
def Search.EndsWell (outcome : Outcome) (search : Search) : Prop :=
  Halts (Search.step memory) (fun search => search.outcome ≠ none)
    (fun search => search.Has (nlmsgLen memory 0) outcome ∧ search.Steady memory) search

/-- Up to now the search has looked only at the reply, and made only moves to the next
attribute. -/
structure Search.Clean (search : Search) : Prop where
  /-- Each header looked at is in the reply. -/
  inside : ∀ na ∈ search.looked, na + nlaHdrlen ≤ nlmsgLen memory 0
  /-- Each move is to the next attribute. -/
  steady : search.Steady memory

section Run

variable {memory} {search : Search} {outcome : Outcome}

/-- A search that has not ended makes a step. -/
theorem Search.endsWell_step (running : search.outcome = none) :
    search.EndsWell memory outcome ↔ (search.step memory).EndsWell memory outcome :=
  halts_step_iff (not_not.mpr running)

/-- A search that has ended has its outcome. -/
theorem Search.Clean.endsWell_iff (clean : search.Clean memory) {found : Outcome}
    (isFound : search.outcome = some found) :
    search.EndsWell memory outcome ↔ found = outcome := by
  have ended : search.outcome ≠ none := isFound ▸ Option.some_ne_none found
  have atEnd : search.EndsWell memory outcome ↔
      search.Has (nlmsgLen memory 0) outcome ∧ search.Steady memory :=
    halts_ended_iff ended (Search.step_of_outcome ended)
  rw [atEnd]
  constructor
  · exact fun holds => Option.some.inj (isFound.symm.trans holds.1.ended)
  · rintro rfl
    exact ⟨⟨clean.inside, isFound⟩, clean.steady⟩

/-- A search that has looked behind the reply does not end well. -/
theorem not_halts_of_outside {na stop : Nat} (isLooked : na ∈ search.looked)
    (outside : stop < na + nlaHdrlen) :
    ¬Halts (Search.step memory) (fun search => search.outcome ≠ none)
      (Search.Has stop outcome) search := by
  apply not_halts (fun state => na ∈ state.looked) isLooked
  · exact fun state stillLooked => Search.subset_step.1 stillLooked
  · exact fun state stillLooked _ has =>
      absurd (has.inside na stillLooked) (Nat.not_le.mpr outside)

/-- A search that has looked behind the reply does not end well. -/
theorem Search.not_endsWell_of_outside {na : Nat} (isLooked : na ∈ search.looked)
    (outside : nlmsgLen memory 0 < na + nlaHdrlen) : ¬search.EndsWell memory outcome :=
  fun endsWell => not_halts_of_outside isLooked outside (endsWell.mono fun _ holds => holds.1)

/-- A search that has moved over more than one attribute does not end well. -/
theorem Search.not_endsWell_of_move {move : Nat × Nat} (isMove : move ∈ search.moves)
    (notNext : move.2 ≠ (nlaLayout memory).next move.1) : ¬search.EndsWell memory outcome := by
  apply not_halts (fun state => move ∈ state.moves) isMove
  · exact fun state stillMove => Search.subset_step.2 stillMove
  · exact fun state stillMove _ holds => absurd (holds.2 move stillMove) notNext

/-- Looking at a header in the reply. -/
theorem Search.Clean.look (clean : search.Clean memory)
    (inside : search.na + nlaHdrlen ≤ nlmsgLen memory 0) {after : Search}
    (isLooked : after.looked = search.looked ++ [search.na]) (noMove : after.moves = search.moves) :
    after.Clean memory where
  inside := by
    rw [isLooked]
    exact List.forall_mem_append.mpr ⟨clean.inside, List.forall_mem_singleton.mpr inside⟩
  steady := by
    rw [Search.Steady, noMove]
    exact clean.steady

/-- A search between two attributes of the reply. -/
structure Search.At (memory : Nat → UInt8) (place : Nat) (search : Search) : Prop where
  /-- It has not ended. -/
  running : search.outcome = none
  /-- It is in the outer loop. -/
  noAggr : search.aggr = none
  /-- It is at this place. -/
  isPlace : search.na = place
  /-- This place is behind the attributes so far. -/
  isLen : genlmsgData + search.len = place
  /-- It has looked only at the reply, and made only moves to the next attribute. -/
  clean : search.Clean memory

/-- A search among the attributes nested in one, of which the first is at `first` and the next to
look at is at `place`. -/
structure Search.Among (memory : Nat → UInt8) (first stop following place : Nat)
    (search : Search) : Prop where
  /-- It has not ended. -/
  running : search.outcome = none
  /-- It is in the inner loop, and has passed the attributes before `place`. -/
  isAggr : search.aggr = some ((stop : Int) - first, place - first)
  /-- It is at this place. -/
  isPlace : search.na = place
  /-- Behind the attribute with the nested ones is another place. -/
  isLen : genlmsgData + search.len = following
  /-- It has looked only at the reply, and made only moves to the next attribute. -/
  clean : search.Clean memory

/-- The outer loop goes on before the end of the reply. -/
theorem Search.At.lt_payload_iff {place : Nat} (isAt : search.At memory place) :
    (search.len : Int) < genlmsgPayload memory ↔ place < nlmsgLen memory 0 := by
  have isLen := isAt.isLen
  rw [genlmsgData] at isLen
  rw [genlmsgPayload]
  omega

/-- At the end of the reply the next one is waited for. -/
theorem Search.At.endsWell_of_end {place : Nat} (isAt : search.At memory place)
    (isEnd : nlmsgLen memory 0 ≤ place) :
    search.EndsWell memory outcome ↔ .again = outcome := by
  have notBefore := isAt.lt_payload_iff.not.mpr (Nat.not_lt.mpr isEnd)
  rw [Search.endsWell_step isAt.running,
    Search.step_of_end isAt.running isAt.noAggr (Int.not_lt.mp notBefore)]
  have clean : ({ search with outcome := some .again } : Search).Clean memory :=
    ⟨isAt.clean.inside, isAt.clean.steady⟩
  exact clean.endsWell_iff rfl

/-- An attribute without nested ones is passed over. -/
theorem Search.At.pass {place : Nat} (isAt : search.At memory place)
    (isRecord : (nlaLayout memory).IsRecord (nlmsgLen memory 0) place)
    (notAggr : nlaType memory place ≠ taskstatsTypeAggrPid) :
    ∃ after : Search, after.At memory ((nlaLayout memory).next place) ∧
      ∀ outcome, search.EndsWell memory outcome ↔ after.EndsWell memory outcome := by
  obtain rfl := isAt.isPlace
  have before := isAt.lt_payload_iff.mpr isRecord.lt
  have isNext : genlmsgData + (search.len + nlaAlign (nlaLen memory search.na)) =
      (nlaLayout memory).next search.na := by
    rw [← Nat.add_assoc, isAt.isLen]
    rfl
  refine ⟨search.outer memory, ?_, ?_⟩
  · rw [Search.outer, if_neg notAggr]
    exact ⟨isAt.running, isAt.noAggr, isNext, isNext, isAt.clean.look isRecord.header_le rfl rfl⟩
  · intro outcome
    rw [Search.endsWell_step isAt.running, Search.step_of_outer isAt.running isAt.noAggr before]

/-- The search goes on with the attributes nested in one. -/
theorem Search.At.enter {place : Nat} (isAt : search.At memory place)
    (isRecord : (nlaLayout memory).IsRecord (nlmsgLen memory 0) place)
    (isAggr : nlaType memory place = taskstatsTypeAggrPid) :
    ∃ after : Search,
      after.Among memory (place + nlaHdrlen) (place + nlaLen memory place)
        ((nlaLayout memory).next place) (place + nlaHdrlen) ∧
      ∀ outcome, search.EndsWell memory outcome ↔ after.EndsWell memory outcome := by
  obtain rfl := isAt.isPlace
  have before := isAt.lt_payload_iff.mpr isRecord.lt
  have isNext : genlmsgData + (search.len + nlaAlign (nlaLen memory search.na)) =
      (nlaLayout memory).next search.na := by
    rw [← Nat.add_assoc, isAt.isLen]
    rfl
  have lengths : ((nlaLen memory search.na : Int) - nlaHdrlen, 0) =
      (((search.na + nlaLen memory search.na : Nat) : Int) - (search.na + nlaHdrlen : Nat),
        search.na + nlaHdrlen - (search.na + nlaHdrlen)) := by
    ext
    · dsimp only
      omega
    · exact (Nat.sub_self _).symm
  refine ⟨search.outer memory, ?_, ?_⟩
  · rw [Search.outer, if_pos isAggr]
    exact ⟨isAt.running, congrArg some lengths, rfl, isNext,
      isAt.clean.look isRecord.header_le rfl rfl⟩
  · intro outcome
    rw [Search.endsWell_step isAt.running, Search.step_of_outer isAt.running isAt.noAggr before]

section Among

variable {first stop following place : Nat}

/-- Statistics that are looked at are found. -/
theorem Search.Among.endsWell_of_stats (among : search.Among memory first stop following place)
    (inside : place + nlaHdrlen ≤ nlmsgLen memory 0)
    (isStats : nlaType memory place = taskstatsTypeStats) :
    search.EndsWell memory outcome ↔ .stats (place + nlaHdrlen) = outcome := by
  obtain rfl := among.isPlace
  rw [Search.endsWell_step among.running, Search.step_of_aggr among.running among.isAggr,
    Search.inner_of_stats isStats]
  have clean : Search.Clean memory
      { search.look with outcome := some (.stats (search.na + nlaHdrlen)) } :=
    among.clean.look inside rfl rfl
  exact clean.endsWell_iff rfl

/-- Behind the last nested attribute the search goes on in the outer loop. -/
theorem Search.Among.leave (among : search.Among memory first stop following place)
    (inside : place + nlaHdrlen ≤ nlmsgLen memory 0)
    (notStats : nlaType memory place ≠ taskstatsTypeStats)
    (isEnd : stop ≤ (nlaLayout memory).next place) (behind : first ≤ place) :
    ∃ after : Search, after.At memory following ∧
      ∀ outcome, search.EndsWell memory outcome ↔ after.EndsWell memory outcome := by
  obtain rfl := among.isPlace
  have isNext : (nlaLayout memory).next search.na =
    search.na + nlaAlign (nlaLen memory search.na) := rfl
  refine ⟨search.left, ?_, ?_⟩
  · exact ⟨among.running, rfl, among.isLen, among.isLen, among.clean.look inside rfl rfl⟩
  · intro outcome
    rw [Search.endsWell_step among.running, Search.step_of_aggr among.running among.isAggr,
      Search.inner_of_left notStats (by omega)]

/-- From the first nested attribute the search moves to the second one. -/
theorem Search.Among.move (among : search.Among memory first stop following first)
    (inside : first + nlaHdrlen ≤ nlmsgLen memory 0)
    (notStats : nlaType memory first ≠ taskstatsTypeStats)
    (notEnd : (nlaLayout memory).next first < stop) :
    ∃ after : Search,
      after.Among memory first stop following ((nlaLayout memory).next first) ∧
        ∀ outcome, search.EndsWell memory outcome ↔ after.EndsWell memory outcome := by
  obtain rfl := among.isPlace
  have isNext : (nlaLayout memory).next search.na =
    search.na + nlaAlign (nlaLen memory search.na) := rfl
  have isLen2 : search.na - search.na + nlaAlign (nlaLen memory search.na) =
      (nlaLayout memory).next search.na - search.na := by
    omega
  have isPlace : search.na + ((nlaLayout memory).next search.na - search.na) =
      (nlaLayout memory).next search.na := by
    omega
  refine ⟨search.moved ((stop : Int) - search.na) ((nlaLayout memory).next search.na - search.na),
    ?_, ?_⟩
  · have looked : search.look.Clean memory := among.clean.look inside rfl rfl
    refine ⟨among.running, rfl, isPlace, among.isLen, looked.inside, ?_⟩
    exact List.forall_mem_append.mpr ⟨looked.steady, List.forall_mem_singleton.mpr isPlace⟩
  · intro outcome
    rw [Search.endsWell_step among.running, Search.step_of_aggr among.running among.isAggr,
      Search.inner_of_moved notStats (by omega), isLen2]

/-- From any other nested attribute the search moves over more than one attribute. -/
theorem Search.Among.not_endsWell (among : search.Among memory first stop following place)
    (behind : first < place)
    (notStats : nlaType memory place ≠ taskstatsTypeStats)
    (notEnd : (nlaLayout memory).next place < stop) : ¬search.EndsWell memory outcome := by
  obtain rfl := among.isPlace
  have isNext : (nlaLayout memory).next search.na =
    search.na + nlaAlign (nlaLen memory search.na) := rfl
  rw [Search.endsWell_step among.running, Search.step_of_aggr among.running among.isAggr,
    Search.inner_of_moved notStats (by omega)]
  apply Search.not_endsWell_of_move (List.mem_append_right _ (List.mem_singleton_self _))
  dsimp only
  omega

/-- Where nothing is nested, what is behind the reply or another attribute is looked at. -/
theorem Search.Among.not_endsWell_of_outside
    (among : search.Among memory first stop following place)
    (outside : nlmsgLen memory 0 < place + nlaHdrlen) : ¬search.EndsWell memory outcome := by
  obtain rfl := among.isPlace
  have isLooked : search.na ∈ (search.step memory).looked := by
    rw [Search.step_of_aggr among.running among.isAggr, Search.inner]
    dsimp only
    split_ifs <;> exact List.mem_append_right _ (List.mem_singleton_self _)
  rw [Search.endsWell_step among.running]
  exact Search.not_endsWell_of_outside isLooked outside

end Among

/-! ## Attributes with nested ones -/

/-- Statistics are behind the header of an attribute with nested ones. -/
theorem le_of_firstStats {place data : Nat} {attributes : List Nat}
    (behind : ∀ na ∈ attributes, place ≤ na)
    (isStats : firstStats memory attributes = .stats data) : place + nlaHdrlen < data := by
  have positive : 0 < nlaHdrlen := by decide
  induction attributes with
  | nil => exact absurd isStats nofun
  | cons na attributes inductionHypothesis =>
      have rest := inductionHypothesis fun na isBehind =>
        behind na (List.mem_cons_of_mem _ isBehind)
      rw [firstStats] at isStats
      split_ifs at isStats
      · split at isStats
        case _ nested isNested =>
          have inNested := List.mem_of_find?_eq_some isNested
          have afterHeader : na + nlaHdrlen ≤ nested :=
            Library.Layout.le_of_mem_recordsFrom inNested
          have isData : nested + nlaHdrlen = data := Outcome.stats.inj isStats
          have afterPlace := behind na List.mem_cons_self
          omega
        case _ => exact rest isStats
      · exact rest isStats

section Aggr

variable {na : Nat} {attributes : List Nat}

/-- The first nested attribute may be the statistics. -/
theorem firstStats_of_first (isAggr : nlaType memory na = taskstatsTypeAggrPid)
    {first : Nat} {others : List Nat} (isNested : nestedIn memory na = first :: others)
    (isStats : nlaType memory first = taskstatsTypeStats) :
    firstStats memory (na :: attributes) = .stats (first + nlaHdrlen) := by
  rw [firstStats, if_pos isAggr, isNested, List.find?_cons_of_pos (by simpa using isStats)]

/-- The second nested attribute may be the statistics. -/
theorem firstStats_of_second (isAggr : nlaType memory na = taskstatsTypeAggrPid)
    {first second : Nat} {others : List Nat}
    (isNested : nestedIn memory na = first :: second :: others)
    (notStats : nlaType memory first ≠ taskstatsTypeStats)
    (isStats : nlaType memory second = taskstatsTypeStats) :
    firstStats memory (na :: attributes) = .stats (second + nlaHdrlen) := by
  rw [firstStats, if_pos isAggr, isNested, List.find?_cons_of_neg (by simpa using notStats),
    List.find?_cons_of_pos (by simpa using isStats)]

/-- Without nested statistics the search goes on behind the attribute. -/
theorem firstStats_of_none (isAggr : nlaType memory na = taskstatsTypeAggrPid)
    (none : ∀ nested ∈ nestedIn memory na, nlaType memory nested ≠ taskstatsTypeStats) :
    firstStats memory (na :: attributes) = firstStats memory attributes := by
  have notFound : ((nestedIn memory na).find? fun nested =>
      nlaType memory nested = taskstatsTypeStats) = Option.none :=
    List.find?_eq_none.mpr fun nested isNested => by simpa using none nested isNested
  rw [firstStats, if_pos isAggr, notFound]

/-- From the last nested attribute, when none was the statistics, the search goes on behind the
attribute with the nested ones. -/
theorem Search.Among.endsWell_iff_of_last {first stop place : Nat}
    (isAggr : nlaType memory na = taskstatsTypeAggrPid)
    (among : search.Among memory first stop ((nlaLayout memory).next na) place)
    (inside : place + nlaHdrlen ≤ nlmsgLen memory 0)
    (noStats : ∀ nested ∈ nestedIn memory na, nlaType memory nested ≠ taskstatsTypeStats)
    (notStats : nlaType memory place ≠ taskstatsTypeStats)
    (isEnd : stop ≤ (nlaLayout memory).next place) (behind : first ≤ place)
    (later : ∀ after : Search, after.At memory ((nlaLayout memory).next na) →
      (after.EndsWell memory (firstStats memory attributes) ↔ StraightFrom memory attributes)) :
    search.EndsWell memory (firstStats memory (na :: attributes)) ↔
      StraightFrom memory attributes := by
  obtain ⟨after, isAt, same⟩ := among.leave inside notStats isEnd behind
  rw [same, firstStats_of_none isAggr noStats]
  exact later after isAt

/-- Within an attribute without nested ones the following attribute is looked at. -/
theorem Search.Among.endsWell_iff_of_nil (isAggr : nlaType memory na = taskstatsTypeAggrPid)
    (among : search.Among memory (na + nlaHdrlen) (na + nlaLen memory na)
      ((nlaLayout memory).next na) (na + nlaHdrlen))
    (isRecord : (nlaLayout memory).IsRecord (nlmsgLen memory 0) na)
    (isNested : nestedIn memory na = [])
    (isEnd : na + nlaLen memory na ≤ na + nlaHdrlen)
    (rest : (nlaLayout memory).Filled (nlmsgLen memory 0) ((nlaLayout memory).next na))
    (isAttributes : (nlaLayout memory).recordsFrom (nlmsgLen memory 0)
      ((nlaLayout memory).next na) = attributes)
    (later : ∀ after : Search, after.At memory ((nlaLayout memory).next na) →
      (after.EndsWell memory (firstStats memory attributes) ↔ StraightFrom memory attributes)) :
    search.EndsWell memory (firstStats memory (na :: attributes)) ↔
      StraightFrom memory (na :: attributes) := by
  have noStats : ∀ nested ∈ nestedIn memory na, nlaType memory nested ≠ taskstatsTypeStats := by
    rw [isNested]
    exact nofun
  have isLen : nlaLen memory na = nlaHdrlen :=
    Nat.le_antisymm (Nat.add_le_add_iff_left.mp isEnd) isRecord.1
  have isNext : na + nlaHdrlen = (nlaLayout memory).next na := by
    change _ = na + align4 (nlaLen memory na)
    rw [isLen]
    rfl
  rw [StraightFrom, if_pos isAggr, isNested]
  rw [isNext] at among
  by_cases before : (nlaLayout memory).next na < nlmsgLen memory 0
  · have isFollowing := rest.isRecord before
    have isHead : attributes.head? = some ((nlaLayout memory).next na) := by
      rw [← isAttributes, Library.Layout.recordsFrom_of_isRecord isFollowing]
      rfl
    by_cases isStats : nlaType memory ((nlaLayout memory).next na) = taskstatsTypeStats
    · rw [firstStats_of_none isAggr noStats,
        among.endsWell_of_stats isFollowing.header_le isStats]
      refine iff_of_false (fun isFirst => ?_) ?_
      · have behind : ∀ other ∈ attributes, (nlaLayout memory).next na ≤ other := by
          rw [← isAttributes]
          exact fun other isLater => Library.Layout.le_of_mem_recordsFrom isLater
        exact absurd (le_of_firstStats behind isFirst.symm) (lt_irrefl _)
      · rintro ⟨⟨following, isFollowing, notStats⟩, _⟩
        obtain rfl := Option.some.inj (isHead.symm.trans isFollowing)
        exact notStats isStats
    · have afterFollowing := isFollowing.lt_next
      rw [among.endsWell_iff_of_last isAggr isFollowing.header_le noStats isStats (by omega) le_rfl
        later]
      exact (and_iff_right ⟨_, isHead, isStats⟩).symm
  · have isEmpty : attributes = [] := by
      rw [← isAttributes]
      exact Library.Layout.recordsFrom_of_le (Nat.not_lt.mp before)
    have positive : 0 < nlaHdrlen := by decide
    refine iff_of_false (among.not_endsWell_of_outside (by omega)) ?_
    rintro ⟨⟨following, isFollowing, _⟩, _⟩
    rw [isEmpty] at isFollowing
    exact absurd isFollowing nofun

/-- Statistics that are the first or the second nested attribute are straight to find. -/
theorem straightFrom_of_stats (isAggr : nlaType memory na = taskstatsTypeAggrPid)
    {first : Nat} {others : List Nat} (isNested : nestedIn memory na = first :: others)
    (isStats : nlaType memory first = taskstatsTypeStats ∨
      ∃ second ∈ others.head?, nlaType memory second = taskstatsTypeStats) :
    StraightFrom memory (na :: attributes) := by
  rw [StraightFrom, if_pos isAggr, isNested]
  cases others with
  | nil =>
      rcases isStats with isFirst | ⟨second, isSecond, _⟩
      · exact Or.inl isFirst
      · exact absurd isSecond nofun
  | cons second others =>
      have isEither : nlaType memory first = taskstatsTypeStats ∨
          nlaType memory second = taskstatsTypeStats := by
        rcases isStats with isFirst | ⟨other, isSecond, isOther⟩
        · exact Or.inl isFirst
        · obtain rfl := Option.some.inj isSecond
          exact Or.inr isOther
      cases others with
      | nil => exact isEither.imp_right Or.inl
      | cons _ _ => exact isEither

/-- From the second nested attribute the search is straight if and only if that is the statistics
or the last one. -/
theorem Search.Among.endsWell_iff_of_second {first second : Nat}
    (isAggr : nlaType memory na = taskstatsTypeAggrPid)
    (among : search.Among memory first (na + nlaLen memory na) ((nlaLayout memory).next na) second)
    (inside : second + nlaHdrlen ≤ nlmsgLen memory 0) (behind : first < second)
    (filled : (nlaLayout memory).Filled (na + nlaLen memory na) ((nlaLayout memory).next second))
    (isNested : nestedIn memory na = first :: second ::
      (nlaLayout memory).recordsFrom (na + nlaLen memory na) ((nlaLayout memory).next second))
    (notStats : nlaType memory first ≠ taskstatsTypeStats)
    (later : ∀ after : Search, after.At memory ((nlaLayout memory).next na) →
      (after.EndsWell memory (firstStats memory attributes) ↔ StraightFrom memory attributes)) :
    search.EndsWell memory (firstStats memory (na :: attributes)) ↔
      StraightFrom memory (na :: attributes) := by
  by_cases isStats : nlaType memory second = taskstatsTypeStats
  · rw [firstStats_of_second isAggr isNested notStats isStats,
      among.endsWell_of_stats inside isStats]
    exact iff_of_true rfl (straightFrom_of_stats isAggr isNested (Or.inr ⟨second, rfl, isStats⟩))
  by_cases beforeThird : (nlaLayout memory).next second < na + nlaLen memory na
  · rw [Library.Layout.recordsFrom_of_isRecord (filled.isRecord beforeThird)] at isNested
    rw [StraightFrom, if_pos isAggr, isNested]
    refine iff_of_false (among.not_endsWell behind isStats beforeThird) ?_
    rintro (firstIsStats | secondIsStats)
    · exact notStats firstIsStats
    · exact isStats secondIsStats
  · have isEnd := Nat.not_lt.mp beforeThird
    rw [Library.Layout.recordsFrom_of_le isEnd] at isNested
    have noStats : ∀ nested ∈ nestedIn memory na, nlaType memory nested ≠ taskstatsTypeStats := by
      rw [isNested, List.forall_mem_cons, List.forall_mem_singleton]
      exact ⟨notStats, isStats⟩
    rw [among.endsWell_iff_of_last isAggr inside noStats isStats isEnd behind.le later,
      StraightFrom, if_pos isAggr, isNested]
    exact ((or_iff_right notStats).trans (or_iff_right isStats)).symm

/-- Among nested attributes the search is straight if and only if the statistics are the first or
the second one, or there are at most two. -/
theorem Search.Among.endsWell_iff_of_cons (isAggr : nlaType memory na = taskstatsTypeAggrPid)
    (among : search.Among memory (na + nlaHdrlen) (na + nlaLen memory na)
      ((nlaLayout memory).next na) (na + nlaHdrlen))
    (isRecord : (nlaLayout memory).IsRecord (nlmsgLen memory 0) na)
    (filled : (nlaLayout memory).Filled (na + nlaLen memory na) (na + nlaHdrlen))
    (before : na + nlaHdrlen < na + nlaLen memory na)
    (later : ∀ after : Search, after.At memory ((nlaLayout memory).next na) →
      (after.EndsWell memory (firstStats memory attributes) ↔ StraightFrom memory attributes)) :
    search.EndsWell memory (firstStats memory (na :: attributes)) ↔
      StraightFrom memory (na :: attributes) := by
  have aggrInside : na + nlaLen memory na ≤ nlmsgLen memory 0 := isRecord.2
  have isFirst := filled.isRecord before
  have isNested : nestedIn memory na = (na + nlaHdrlen) :: _ :=
    Library.Layout.recordsFrom_of_isRecord isFirst
  have inside := isFirst.header_le.trans aggrInside
  by_cases isStats : nlaType memory (na + nlaHdrlen) = taskstatsTypeStats
  · rw [firstStats_of_first isAggr isNested isStats, among.endsWell_of_stats inside isStats]
    exact iff_of_true rfl (straightFrom_of_stats isAggr isNested (Or.inl isStats))
  by_cases beforeSecond : (nlaLayout memory).next (na + nlaHdrlen) < na + nlaLen memory na
  · have isSecond := (filled.rest before).isRecord beforeSecond
    have restFilled := (filled.rest before).rest beforeSecond
    rw [Library.Layout.recordsFrom_of_isRecord isSecond] at isNested
    obtain ⟨second, amongSecond, same⟩ := among.move inside isStats beforeSecond
    rw [same]
    exact amongSecond.endsWell_iff_of_second isAggr (isSecond.header_le.trans aggrInside)
      isFirst.lt_next restFilled isNested isStats later
  · have isEnd := Nat.not_lt.mp beforeSecond
    rw [Library.Layout.recordsFrom_of_le isEnd] at isNested
    have noStats : ∀ nested ∈ nestedIn memory na, nlaType memory nested ≠ taskstatsTypeStats := by
      rw [isNested, List.forall_mem_singleton]
      exact isStats
    rw [among.endsWell_iff_of_last isAggr inside noStats isStats isEnd le_rfl later, StraightFrom,
      if_pos isAggr, isNested]
    exact (or_iff_right isStats).symm

end Aggr

/-- A search ends well if and only if the attributes behind it are straight. -/
theorem Search.At.endsWell_iff {place : Nat}
    (filled : (nlaLayout memory).Filled (nlmsgLen memory 0) place)
    (nested : ∀ na ∈ (nlaLayout memory).recordsFrom (nlmsgLen memory 0) place,
      nlaType memory na = taskstatsTypeAggrPid →
        (nlaLayout memory).Filled (na + nlaLen memory na) (na + nlaHdrlen))
    (isAt : search.At memory place) :
    search.EndsWell memory
        (firstStats memory ((nlaLayout memory).recordsFrom (nlmsgLen memory 0) place)) ↔
      StraightFrom memory ((nlaLayout memory).recordsFrom (nlmsgLen memory 0) place) := by
  induction filled generalizing search with
  | ended place isEnd =>
      rw [Library.Layout.recordsFrom_of_le isEnd, isAt.endsWell_of_end isEnd]
      exact iff_of_true rfl trivial
  | record place isRecord rest inductionHypothesis =>
      rw [Library.Layout.recordsFrom_of_isRecord isRecord] at nested ⊢
      have later := fun after : Search => @inductionHypothesis after
        fun na isBehind => nested na (List.mem_cons_of_mem _ isBehind)
      by_cases isAggr : nlaType memory place = taskstatsTypeAggrPid
      · obtain ⟨inner, among, same⟩ := isAt.enter isRecord isAggr
        have filledNested := nested place List.mem_cons_self isAggr
        rw [same]
        rcases Nat.lt_or_ge (place + nlaHdrlen) (place + nlaLen memory place) with before | isEnd
        · exact among.endsWell_iff_of_cons isAggr isRecord filledNested before later
        · exact among.endsWell_iff_of_nil isAggr isRecord (Library.Layout.recordsFrom_of_le isEnd)
            isEnd rest rfl later
      · obtain ⟨after, isAfter, same⟩ := isAt.pass isRecord isAggr
        rw [same, firstStats, StraightFrom, if_neg isAggr, if_neg isAggr]
        exact later after isAfter

end Run

/-- In a reply that consists of attributes the search begins with the first one. -/
theorem Reply.WellFormed.at_start {reply : Reply} (wellFormed : reply.WellFormed) :
    (Search.start reply).At reply.memory genlmsgData where
  running := by
    refine if_neg (not_or.mpr ⟨wellFormed.notError, ?_⟩)
    rw [wellFormed.isMessage]
    exact nofun
  noAggr := rfl
  isPlace := rfl
  isLen := rfl
  clean := ⟨nofun, nofun⟩

/-- In a straight reply the search is sound. If it is sound in another one, it moves over more than
one attribute nevertheless. -/
theorem sound_of_straight_and_straight_of_steady {reply : Reply} (wellFormed : reply.WellFormed) :
    (Straight reply → Sound reply) ∧ (Sound reply → Steady reply → Straight reply) := by
  have endsWell := wellFormed.at_start.endsWell_iff wellFormed.filled wellFormed.nested
  constructor
  · intro straight
    exact Halts.mono (endsWell.mpr straight) fun _ holds => holds.1
  · rintro ⟨count, hasEnded, has⟩ steady
    exact endsWell.mp ⟨count, hasEnded, has, steady count⟩

/-- A reply of some bytes, with zeros behind it. -/
def replyOf (bytes : List UInt8) : Reply where
  memory := fun place => bytes.getD place 0
  repLen := bytes.length

/-- A reply with the statistics as the second of two nested attributes. -/
def pairReply : Reply :=
  replyOf [40, 0, 0, 0, 24, 0, 0, 0, 0, 0, 0, 0, 0, 0, 0, 0, 2, 1, 0, 0, 20, 0, 4, 0,
    8, 0, 1, 0, 5, 0, 0, 0, 8, 0, 3, 0, 9, 0, 0, 0]

/-- It has one attribute. -/
theorem attributes_pairReply : pairReply.attributes = [20] := by
  have isRecord : (nlaLayout pairReply.memory).IsRecord 40 20 := by decide
  have isEnd : 40 ≤ (nlaLayout pairReply.memory).next 20 := by decide
  change (nlaLayout pairReply.memory).recordsFrom 40 20 = [20]
  rw [Library.Layout.recordsFrom_of_isRecord isRecord, Library.Layout.recordsFrom_of_le isEnd]

/-- It consists of attributes. -/
theorem wellFormed_pairReply : pairReply.WellFormed where
  notError := by decide
  isMessage := by decide
  headers := by decide
  filled := .record _ (by decide) (.ended _ (by decide))
  nested := by
    rw [attributes_pairReply, List.forall_mem_singleton]
    exact fun _ => .record _ (by decide) (.record _ (by decide) (.ended _ (by decide)))

/-- Its statistics are found. -/
theorem sound_pairReply : Sound pairReply := by
  apply (sound_of_straight_and_straight_of_steady wellFormed_pairReply).1
  have isFirst : (nlaLayout pairReply.memory).IsRecord 40 24 := by decide
  have isSecond : (nlaLayout pairReply.memory).IsRecord 40 32 := by decide
  have isNested : nestedIn pairReply.memory 20 =
      24 :: (nlaLayout pairReply.memory).recordsFrom 40 32 :=
    Library.Layout.recordsFrom_of_isRecord isFirst
  rw [Library.Layout.recordsFrom_of_isRecord isSecond] at isNested
  rw [Straight, attributes_pairReply]
  exact straightFrom_of_stats (by decide) isNested (Or.inr ⟨32, rfl, by decide⟩)

/-- A reply with the statistics as the third nested attribute, behind one that is empty. -/
def thirdReply : Reply :=
  replyOf [44, 0, 0, 0, 24, 0, 0, 0, 0, 0, 0, 0, 0, 0, 0, 0, 2, 1, 0, 0, 24, 0, 4, 0,
    8, 0, 1, 0, 5, 0, 0, 0, 4, 0, 6, 0, 8, 0, 3, 0, 9, 0, 0, 0]

/-- The search for them looks behind the reply. -/
theorem not_sound_thirdReply : ¬Sound thirdReply := by
  have stays : ∀ search : Search, search.outcome ≠ none →
      search.step thirdReply.memory = search := fun _ => Search.step_of_outcome
  have isLooked : 44 ∈ ((Search.step thirdReply.memory)^[4] (Search.start thirdReply)).looked := by
    decide
  rw [Sound, halts_iterate_iff stays 4]
  exact not_halts_of_outside isLooked (by decide)

end TaskstatsReply
end Collector
end Bootchart
