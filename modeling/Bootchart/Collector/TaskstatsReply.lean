import Bootchart.Collector.NetlinkHeaders
import Bootchart.Library.Halting

/-!
# The reply about a process

`wait_taskstats` searches a reply for the statistics of a process, which are an attribute among
those nested in another one. The places that the search looks at, and how it moves among nested
attributes, are kept next to the state of the code.
-/

namespace Bootchart
namespace Collector
namespace TaskstatsReply

open Library (Halts)

/-! ## Replies -/

/-- `TASKSTATS_TYPE_STATS`. -/
def taskstatsTypeStats : Nat := 3

/-- `TASKSTATS_TYPE_AGGR_PID`. -/
def taskstatsTypeAggrPid : Nat := 4

/-- `GENL_HDRLEN`. -/
def genlHdrlen : Nat := 4

/-- `GENLMSG_DATA`, counted from the message. -/
def genlmsgData : Nat := nlmsgHdrlen + genlHdrlen

/-- What `recv` has left in `msg`. -/
structure Reply where
  /-- The memory from `msg` on, also behind what was received. -/
  memory : Nat → UInt8
  /-- The number of bytes received. -/
  repLen : Nat

variable (memory : Nat → UInt8)

/-- `GENLMSG_PAYLOAD`, as a number with sign. -/
def genlmsgPayload : Int := (nlmsgLen memory 0 : Int) - nlmsgHdrlen - genlHdrlen

/-! ## The search -/

/-- How an iteration of the loop over replies ends. -/
inductive Outcome
  /-- `NULL` is returned. -/
  | null
  /-- The payload at a place is returned. -/
  | stats (place : Nat)
  /-- The next reply is waited for. -/
  | again
  deriving DecidableEq

/-- The state of the loops over the attributes, and what was done so far. -/
structure Search where
  /-- `na`, counted from `msg`. -/
  na : Nat
  /-- `len`. -/
  len : Nat
  /-- `aggr_len` and `len2` within the inner loop. -/
  aggr : Option (Int × Nat)
  /-- The iteration has ended. -/
  outcome : Option Outcome
  /-- The headers looked at. -/
  looked : List Nat
  /-- The moves from one nested attribute to the next: from where to where. -/
  moves : List (Nat × Nat)

namespace Search

/-- Before the loops, when only the header of the message was looked at: errors and incomplete
messages are not searched. -/
def start (reply : Reply) : Search where
  na := genlmsgData
  len := 0
  aggr := none
  outcome :=
    if nlmsgType reply.memory 0 = nlmsgError ∨ nlmsgOk reply.memory 0 reply.repLen = false then
      some .null
    else none
  looked := []
  moves := []

/-- The body of the outer loop, up to the inner one if there are nested attributes. -/
def outer (search : Search) : Search :=
  let len := search.len + nlaAlign (nlaLen memory search.na)
  let looked := search.looked ++ [search.na]
  if nlaType memory search.na = taskstatsTypeAggrPid then
    { search with
      na := search.na + nlaHdrlen
      len := len
      aggr := some ((nlaLen memory search.na : Int) - nlaHdrlen, 0)
      looked := looked }
  else { search with na := genlmsgData + len, len := len, looked := looked }

/-- The condition of the inner loop and its body. -/
def inner (search : Search) (aggrLen : Int) (len2 : Nat) : Search :=
  let looked := search.looked ++ [search.na]
  if nlaType memory search.na = taskstatsTypeStats then
    { search with outcome := some (.stats (search.na + nlaHdrlen)), looked := looked }
  else
    let len2 := len2 + nlaAlign (nlaLen memory search.na)
    if aggrLen ≤ len2 then
      -- `goto next_attr`
      { search with na := genlmsgData + search.len, aggr := none, looked := looked }
    else
      { search with
        na := search.na + len2
        aggr := some (aggrLen, len2)
        looked := looked
        moves := search.moves ++ [(search.na, search.na + len2)] }

/-- One iteration of the loop in which the search is. -/
def step (search : Search) : Search :=
  match search.outcome with
  | some _ => search
  | none =>
      match search.aggr with
      | some (aggrLen, len2) => search.inner memory aggrLen len2
      | none =>
          if search.len < genlmsgPayload memory then search.outer memory
          else { search with outcome := some .again }

end Search

/-! ## What the search is to do -/

/-- The attributes nested in the one at a place. -/
def nestedIn (na : Nat) : List Nat :=
  (nlaLayout memory).recordsFrom (na + nlaLen memory na) (na + nlaHdrlen)

/-- The statistics nested in the first of some attributes in which there are any. -/
def firstStats : List Nat → Outcome
  | [] => .again
  | na :: attributes =>
      if nlaType memory na = taskstatsTypeAggrPid then
        match (nestedIn memory na).find? fun nested =>
            nlaType memory nested = taskstatsTypeStats with
        | some nested => .stats (nested + nlaHdrlen)
        | none => firstStats attributes
      else firstStats attributes

namespace Reply

variable (reply : Reply)

/-- The attributes of a reply. -/
def attributes : List Nat :=
  (nlaLayout reply.memory).recordsFrom (nlmsgLen reply.memory 0) genlmsgData

/-- A reply that consists of attributes, as do those in it that have nested ones. -/
structure WellFormed : Prop where
  /-- It is no error. -/
  notError : nlmsgType reply.memory 0 ≠ nlmsgError
  /-- It was received as a whole. -/
  isMessage : nlmsgOk reply.memory 0 reply.repLen = true
  /-- It has both headers. -/
  headers : genlmsgData ≤ nlmsgLen reply.memory 0
  /-- Its payload consists of attributes. -/
  filled : (nlaLayout reply.memory).Filled (nlmsgLen reply.memory 0) genlmsgData
  /-- The statistics of a process consist of attributes. -/
  nested : ∀ na ∈ reply.attributes, nlaType reply.memory na = taskstatsTypeAggrPid →
    (nlaLayout reply.memory).Filled (na + nlaLen reply.memory na) (na + nlaHdrlen)

end Reply

/-- A search that has looked only at headers before an end, and has come to an outcome. -/
structure Search.Has (stop : Nat) (outcome : Outcome) (search : Search) : Prop where
  /-- Each header looked at is before the end. -/
  inside : ∀ na ∈ search.looked, na + nlaHdrlen ≤ stop
  /-- The outcome is this one. -/
  ended : search.outcome = some outcome

/-- The search for the statistics ends with the first ones, and has looked only at the reply. -/
def Sound (reply : Reply) : Prop :=
  Halts (Search.step reply.memory) (fun search => search.outcome ≠ none)
    (Search.Has (nlmsgLen reply.memory 0) (firstStats reply.memory reply.attributes))
    (Search.start reply)

/-- Each move from a nested attribute is to the next one. -/
def Search.Steady (search : Search) : Prop :=
  ∀ move ∈ search.moves, move.2 = (nlaLayout memory).next move.1

/-- The search makes only moves to the next attribute. -/
def Steady (reply : Reply) : Prop :=
  ∀ count, ((Search.step reply.memory)^[count] (Search.start reply)).Steady reply.memory

/-- Up to the first statistics there are at most two nested attributes in each attribute that has
nested ones, or the statistics are the first or the second one. Behind an attribute with room for
nested ones, but without any, there is another attribute, which is no statistics. -/
def StraightFrom : List Nat → Prop
  | [] => True
  | na :: attributes =>
      if nlaType memory na = taskstatsTypeAggrPid then
        match nestedIn memory na with
        | [] =>
            (∃ following ∈ attributes.head?, nlaType memory following ≠ taskstatsTypeStats) ∧
              StraightFrom attributes
        | [first] => nlaType memory first = taskstatsTypeStats ∨ StraightFrom attributes
        | [first, second] =>
            nlaType memory first = taskstatsTypeStats ∨
              nlaType memory second = taskstatsTypeStats ∨ StraightFrom attributes
        | first :: second :: _ =>
            nlaType memory first = taskstatsTypeStats ∨
              nlaType memory second = taskstatsTypeStats
      else StraightFrom attributes

/-- The statistics are found without a move over more than one attribute. -/
def Straight (reply : Reply) : Prop := StraightFrom reply.memory reply.attributes

/-! ## Steps -/

section Step

variable {memory} {search : Search}

/-- A search that has ended stays where it is. -/
theorem Search.step_of_outcome (ended : search.outcome ≠ none) :
    search.step memory = search := by
  obtain ⟨outcome, isOutcome⟩ := Option.ne_none_iff_exists'.mp ended
  rw [Search.step, isOutcome]

/-- A step of the inner loop. -/
theorem Search.step_of_aggr (running : search.outcome = none) {aggrLen : Int} {len2 : Nat}
    (isAggr : search.aggr = some (aggrLen, len2)) :
    search.step memory = search.inner memory aggrLen len2 := by
  rw [Search.step, running, isAggr]

/-- A step of the outer loop. -/
theorem Search.step_of_outer (running : search.outcome = none) (noAggr : search.aggr = none)
    (before : (search.len : Int) < genlmsgPayload memory) :
    search.step memory = search.outer memory := by
  rw [Search.step, running, noAggr]
  exact if_pos before

/-- The end of the outer loop. -/
theorem Search.step_of_end (running : search.outcome = none) (noAggr : search.aggr = none)
    (isEnd : genlmsgPayload memory ≤ search.len) :
    search.step memory = { search with outcome := some .again } := by
  rw [Search.step, running, noAggr]
  exact if_neg (Int.not_lt.mpr isEnd)

/-- What was looked at stays looked at, and a move that was made stays made. -/
theorem Search.subset_step :
    search.looked ⊆ (search.step memory).looked ∧ search.moves ⊆ (search.step memory).moves := by
  unfold Search.step
  split
  · exact ⟨fun _ => id, fun _ => id⟩
  · split
    · unfold Search.inner
      dsimp only
      split_ifs
      · exact ⟨List.subset_append_left _ _, fun _ => id⟩
      · exact ⟨List.subset_append_left _ _, fun _ => id⟩
      · exact ⟨List.subset_append_left _ _, List.subset_append_left _ _⟩
    · unfold Search.outer
      dsimp only
      split_ifs
      · exact ⟨List.subset_append_left _ _, fun _ => id⟩
      · exact ⟨List.subset_append_left _ _, fun _ => id⟩
      · exact ⟨fun _ => id, fun _ => id⟩

/-- The search looks at the header of a nested attribute. -/
def Search.look (search : Search) : Search :=
  { search with looked := search.looked ++ [search.na] }

/-- The inner loop is left for the next attribute. -/
def Search.left (search : Search) : Search :=
  { search.look with na := genlmsgData + search.len, aggr := none }

/-- The inner loop moves on by the sum of the lengths so far. -/
def Search.moved (search : Search) (aggrLen : Int) (len2 : Nat) : Search :=
  { search.look with
    na := search.na + len2
    aggr := some (aggrLen, len2)
    moves := search.moves ++ [(search.na, search.na + len2)] }

/-- The inner loop finds statistics. -/
theorem Search.inner_of_stats {aggrLen : Int} {len2 : Nat}
    (isStats : nlaType memory search.na = taskstatsTypeStats) :
    search.inner memory aggrLen len2 =
      { search.look with outcome := some (.stats (search.na + nlaHdrlen)) } := by
  rw [Search.inner, if_pos isStats]
  rfl

/-- The inner loop is left when the lengths so far reach the end. -/
theorem Search.inner_of_left {aggrLen : Int} {len2 : Nat}
    (notStats : nlaType memory search.na ≠ taskstatsTypeStats)
    (isEnd : aggrLen ≤ (len2 + nlaAlign (nlaLen memory search.na) : Nat)) :
    search.inner memory aggrLen len2 = search.left := by
  rw [Search.inner, if_neg notStats, if_pos isEnd]
  rfl

/-- The inner loop moves on when the lengths so far do not reach the end. -/
theorem Search.inner_of_moved {aggrLen : Int} {len2 : Nat}
    (notStats : nlaType memory search.na ≠ taskstatsTypeStats)
    (notEnd : (len2 + nlaAlign (nlaLen memory search.na) : Nat) < aggrLen) :
    search.inner memory aggrLen len2 =
      search.moved aggrLen (len2 + nlaAlign (nlaLen memory search.na)) := by
  rw [Search.inner, if_neg notStats, if_neg (Int.not_le.mpr notEnd)]
  rfl

end Step

end TaskstatsReply
end Collector
end Bootchart
