import Bootchart.Collector.Netlink
import Bootchart.Collector.NetlinkHeaders
import Bootchart.Collector.Output
import Bootchart.Library.Halting

/-!
# The messages of a datagram

`netlink_listen_thread` receives datagrams of the kernel and walks over the messages in them. The
length that is left is an unsigned number from which the aligned length of each message is
subtracted. What the walk looks at is kept next to the state of the code.
-/

namespace Bootchart
namespace Collector
namespace NetlinkMessages

open Library (align4 align4_bounds Halts halts_ended_iff halts_step_iff iterate_invariant not_halts
  word)

/-! ## Events -/

/-- `BUFF_SIZE`. -/
def buffSize : Nat := 1024

/-- `sizeof (struct cn_msg)`, in front of the event. -/
def cnMsgSize : Nat := 20

/-- `sizeof (struct proc_event)`. -/
def procEventSize : Nat := 40

/-- The place of `event_data` in `struct proc_event`. -/
def eventDataOffset : Nat := 16

/-- `PROC_EVENT_FORK`. -/
def procEventFork : Nat := 1

/-- `PROC_EVENT_EXEC`. -/
def procEventExec : Nat := 2

/-- `PROC_EVENT_EXIT`. -/
def procEventExit : Nat := 0x80000000

section Event

variable (memory : Nat → UInt8)

/-- A number of type `pid_t`. -/
def pidAt (place : Nat) : Pid :=
  (BitVec.ofNat 32 (word memory place 4)).toInt

/-- The event at an address. -/
def procEventAt (ev : Nat) : ProcEvent :=
  let what := word memory ev 4
  let eventData := ev + eventDataOffset
  if what = procEventFork then
    .fork (pidAt memory eventData) (pidAt memory (eventData + 4)) (pidAt memory (eventData + 8))
      (pidAt memory (eventData + 12))
  else if what = procEventExit then
    .exit (pidAt memory eventData) (pidAt memory (eventData + 4))
  else if what = procEventExec then .exec (pidAt memory eventData)
  else .other what

/-- The event in a message. -/
def eventOf (nlh : Nat) : ProcEvent :=
  procEventAt memory (nlh + nlmsgHdrlen + cnMsgSize)

/-- What `handle_news` looks at: the kind of the event, and the whole event if it is queued, or the
process if it is reported. -/
def newsReads (nlh : Nat) : List (Nat × Nat) :=
  let ev := nlh + nlmsgHdrlen + cnMsgSize
  (ev, 4) ::
    match eventOf memory nlh with
    | .fork _ _ _ _ => [(ev, procEventSize)]
    | .exit _ _ => [(ev, procEventSize)]
    | .exec _ => [(ev + eventDataOffset, 4)]
    | .other _ => []

end Event

/-! ## The walk -/

/-- The state of the loop over the messages, and what was done so far. -/
structure Walk where
  /-- `nlh`, counted from `buff`. -/
  nlh : Nat
  /-- `recv_len`. -/
  recvLen : Nat
  /-- The loop has ended. -/
  ended : Bool
  /-- The bytes looked at: where they begin and how many they are. -/
  reads : List (Nat × Nat)
  /-- The messages handed to `handle_news`. -/
  handled : List Nat
  /-- The scanner. -/
  nls : NetLinkPidScanner

/-- One iteration: the condition of the loop and its body. -/
def Walk.step (memory : Nat → UInt8) (walk : Walk) : Walk :=
  if walk.ended then walk
  else
    let header := if nlmsgHdrlen ≤ walk.recvLen then [(walk.nlh, 4)] else []
    if nlmsgOk memory walk.nlh walk.recvLen then
      let type := nlmsgType memory walk.nlh
      let reads := walk.reads ++ header ++ [(walk.nlh + 4, 2)]
      if type = nlmsgNoop then { walk with reads := reads }
      else if type = nlmsgError ∨ type = nlmsgOverrun then
        { walk with reads := reads, ended := true }
      else
        let walk :=
          { walk with
            reads := reads ++ newsReads memory walk.nlh
            handled := walk.handled ++ [walk.nlh]
            nls := handleNews walk.nls (eventOf memory walk.nlh) }
        if type = nlmsgDone then { walk with ended := true }
        else
          let aligned := nlmsgAlign (nlmsgLen memory walk.nlh)
          { walk with
            nlh := walk.nlh + aligned
            -- `recv_len` has no sign
            recvLen := (walk.recvLen + 2 ^ 64 - aligned) % 2 ^ 64 }
    else { walk with reads := walk.reads ++ header, ended := true }

/-- What `netlink_recvfrom` does. -/
inductive Reception
  /-- It returns an error, and the buffer keeps its zeros. -/
  | failed
  /-- It returns a datagram, which fits into the buffer. -/
  | datagram (bytes : Bytes) (fits : bytes.length ≤ buffSize)

namespace Reception

/-- The bytes received. -/
def bytes : Reception → Bytes
  | .failed => []
  | .datagram bytes _ => bytes

/-- The number returned, as a number without sign. -/
def recvLen : Reception → Nat
  | .failed => 2 ^ 64 - 1
  | .datagram bytes _ => bytes.length

/-- The bytes that may be looked at: those received, or the zeros of the buffer. -/
def limit : Reception → Nat
  | .failed => buffSize
  | .datagram bytes _ => bytes.length

/-- The memory from the buffer on. What is behind the buffer is not known. -/
def memory (stack : Nat → UInt8) (reception : Reception) : Nat → UInt8 := fun place =>
  reception.bytes.getD place (if place < buffSize then 0 else stack place)

/-- The walk before its first iteration. Nothing received is nothing to walk over. -/
def start (nls : NetLinkPidScanner) (reception : Reception) : Walk where
  nlh := 0
  recvLen := reception.recvLen
  ended := reception.recvLen < 1
  reads := []
  handled := []
  nls := nls

end Reception

/-! ## What the walk is to do -/

/-- The messages of a datagram. -/
def Reception.messages (stack : Nat → UInt8) (reception : Reception) : List Nat :=
  (nlmsgLayout (reception.memory stack)).recordsFrom reception.bytes.length 0

/-- The messages before the first one that is done, an error or an overrun, and the one that is
done. -/
def handledOf (memory : Nat → UInt8) : List Nat → List Nat
  | [] => []
  | nlh :: messages =>
      let type := nlmsgType memory nlh
      if type = nlmsgError ∨ type = nlmsgOverrun then []
      else if type = nlmsgDone then [nlh]
      else nlh :: handledOf memory messages

/-- A walk that has looked only at bytes before an end, and has handed over some messages. -/
structure Walk.Has (stop : Nat) (handled : List Nat) (walk : Walk) : Prop where
  /-- Each byte looked at is before the end. -/
  inside : ∀ read ∈ walk.reads, read.1 + read.2 ≤ stop
  /-- Each message is handed over once, in their order. -/
  once : walk.handled = handled

/-- The walk ends, and then it has looked only at bytes it may look at and has handed over the
messages that are to be handled. -/
def Sound (stack : Nat → UInt8) (nls : NetLinkPidScanner) (reception : Reception) : Prop :=
  Halts (Walk.step (reception.memory stack)) (fun walk => walk.ended = true)
    (Walk.Has reception.limit (handledOf (reception.memory stack) (reception.messages stack)))
    (reception.start nls)

/-- The bytes of an event that are needed. -/
def newsSize : ProcEvent → Nat
  | .fork _ _ _ _ => procEventSize
  | .exit _ _ => procEventSize
  | .exec _ => eventDataOffset + 4
  | .other _ => 4

/-- The bytes before `stop` hold the event in a message, as far as it is needed. -/
def HoldsNews (memory : Nat → UInt8) (stop nlh : Nat) : Prop :=
  nlh + nlmsgHdrlen + cnMsgSize + newsSize (eventOf memory nlh) ≤ stop

/-- Up to the message that is done, an error or an overrun there is no message that is to be
skipped. Those that are handled hold their events, and behind those that are not done there is room
for their padding. -/
def Regular (memory : Nat → UInt8) (stop : Nat) : List Nat → Prop
  | [] => True
  | nlh :: messages =>
      let type := nlmsgType memory nlh
      type ≠ nlmsgNoop ∧
        (type = nlmsgError ∨ type = nlmsgOverrun ∨
          HoldsNews memory stop nlh ∧
            (type = nlmsgDone ∨
              (nlmsgLayout memory).next nlh ≤ stop ∧ Regular memory stop messages))

/-! ## Steps -/

section Step

variable {memory : Nat → UInt8} {walk : Walk}

/-- A walk that has ended stays where it is. -/
theorem Walk.step_of_ended (hasEnded : walk.ended = true) : walk.step memory = walk := by
  rw [Walk.step, if_pos hasEnded]

/-- The walk ends where no message is. -/
theorem Walk.step_of_not_ok (running : walk.ended = false)
    (isNone : nlmsgOk memory walk.nlh walk.recvLen = false) :
    walk.step memory =
      { walk with
        reads := walk.reads ++ if nlmsgHdrlen ≤ walk.recvLen then [(walk.nlh, 4)] else []
        ended := true } := by
  simp [Walk.step, running, isNone]

/-- What is looked at of the header of a message. -/
def headerReads (nlh : Nat) : List (Nat × Nat) := [(nlh, 4), (nlh + 4, 2)]

/-- A message leaves room for its header. -/
theorem hdrlen_le_of_ok (isMessage : nlmsgOk memory walk.nlh walk.recvLen = true) :
    nlmsgHdrlen ≤ walk.recvLen :=
  of_decide_eq_true (Bool.and_eq_true_iff.mp isMessage).1

/-- A message to be skipped is not skipped. -/
theorem Walk.step_of_noop (running : walk.ended = false)
    (isMessage : nlmsgOk memory walk.nlh walk.recvLen = true)
    (isNoop : nlmsgType memory walk.nlh = nlmsgNoop) :
    walk.step memory = { walk with reads := walk.reads ++ headerReads walk.nlh } := by
  simp [Walk.step, running, isMessage, isNoop, hdrlen_le_of_ok isMessage, headerReads]

/-- An error or an overrun ends the walk. -/
theorem Walk.step_of_error (running : walk.ended = false)
    (isMessage : nlmsgOk memory walk.nlh walk.recvLen = true)
    (isError : nlmsgType memory walk.nlh = nlmsgError ∨
      nlmsgType memory walk.nlh = nlmsgOverrun) :
    walk.step memory =
      { walk with reads := walk.reads ++ headerReads walk.nlh, ended := true } := by
  have notNoop : nlmsgType memory walk.nlh ≠ nlmsgNoop := by
    rcases isError with isType | isType
    · rw [isType]
      decide
    · rw [isType]
      decide
  simp [Walk.step, running, isMessage, isError, notNoop, hdrlen_le_of_ok isMessage, headerReads]

/-- Any other message is handed over. -/
def Walk.handle (memory : Nat → UInt8) (walk : Walk) : Walk :=
  { walk with
    reads := walk.reads ++ headerReads walk.nlh ++ newsReads memory walk.nlh
    handled := walk.handled ++ [walk.nlh]
    nls := handleNews walk.nls (eventOf memory walk.nlh) }

/-- The message that is done is the last one. -/
theorem Walk.step_of_done (running : walk.ended = false)
    (isMessage : nlmsgOk memory walk.nlh walk.recvLen = true)
    (isDone : nlmsgType memory walk.nlh = nlmsgDone) :
    walk.step memory = { walk.handle memory with ended := true } := by
  have notNoop : nlmsgDone ≠ nlmsgNoop := by decide
  have notError : ¬(nlmsgDone = nlmsgError ∨ nlmsgDone = nlmsgOverrun) := by decide
  simp [Walk.step, running, isMessage, isDone, notNoop, notError, hdrlen_le_of_ok isMessage,
    headerReads, Walk.handle]

/-- Behind any other message the walk goes on. -/
def Walk.pass (memory : Nat → UInt8) (walk : Walk) : Walk :=
  { walk.handle memory with
    nlh := walk.nlh + nlmsgAlign (nlmsgLen memory walk.nlh)
    recvLen := (walk.recvLen + 2 ^ 64 - nlmsgAlign (nlmsgLen memory walk.nlh)) % 2 ^ 64 }

/-- The walk goes on behind a message that is not the last one. -/
theorem Walk.step_of_other (running : walk.ended = false)
    (isMessage : nlmsgOk memory walk.nlh walk.recvLen = true)
    (notNoop : nlmsgType memory walk.nlh ≠ nlmsgNoop)
    (notError : ¬(nlmsgType memory walk.nlh = nlmsgError ∨
      nlmsgType memory walk.nlh = nlmsgOverrun))
    (notDone : nlmsgType memory walk.nlh ≠ nlmsgDone) :
    walk.step memory = walk.pass memory := by
  simp [Walk.step, running, isMessage, notNoop, notError, notDone, hdrlen_le_of_ok isMessage,
    headerReads, Walk.pass, Walk.handle]

end Step

/-! ## Walks -/

/-- What `handle_news` looks at is the event as far as it is needed. -/
theorem newsReads_inside_iff {memory : Nat → UInt8} {stop nlh : Nat} :
    (∀ read ∈ newsReads memory nlh, read.1 + read.2 ≤ stop) ↔ HoldsNews memory stop nlh := by
  have sizes : 4 ≤ procEventSize := by decide
  rw [newsReads, HoldsNews, List.forall_mem_cons]
  cases eventOf memory nlh with
  | fork _ _ _ _ =>
      rw [List.forall_mem_singleton, newsSize]
      omega
  | exit _ _ =>
      rw [List.forall_mem_singleton, newsSize]
      omega
  | exec _ =>
      rw [List.forall_mem_singleton, newsSize]
      omega
  | other _ => exact and_iff_left nofun

section Run

variable {memory : Nat → UInt8} {stop : Nat} {handled : List Nat} {walk : Walk}

/-- What was looked at stays looked at. -/
theorem Walk.mem_reads_step {read : Nat × Nat} (isRead : read ∈ walk.reads) :
    read ∈ (walk.step memory).reads := by
  unfold Walk.step
  dsimp only
  split_ifs <;> simp [isRead]

/-- A walk that has looked behind the end will not be sound. -/
theorem not_halts_of_outside {read : Nat × Nat} (isRead : read ∈ walk.reads)
    (outside : stop < read.1 + read.2) :
    ¬Halts (Walk.step memory) (fun walk => walk.ended = true) (Walk.Has stop handled) walk := by
  apply not_halts (fun state => read ∈ state.reads) isRead
  · exact fun state => Walk.mem_reads_step
  · intro state stillRead _ has
    exact absurd (has.inside read stillRead) (Nat.not_le.mpr outside)

/-- A walk at a message to be skipped does not end. -/
theorem not_halts_of_noop (running : walk.ended = false)
    (isMessage : nlmsgOk memory walk.nlh walk.recvLen = true)
    (isNoop : nlmsgType memory walk.nlh = nlmsgNoop) {holds : Walk → Prop} :
    ¬Halts (Walk.step memory) (fun walk => walk.ended = true) holds walk := by
  apply not_halts
    (fun state => state.ended = false ∧ nlmsgOk memory state.nlh state.recvLen = true ∧
      nlmsgType memory state.nlh = nlmsgNoop)
    ⟨running, isMessage, isNoop⟩
  · rintro state ⟨stillRunning, stillMessage, stillNoop⟩
    rw [Walk.step_of_noop stillRunning stillMessage stillNoop]
    exact ⟨stillRunning, stillMessage, stillNoop⟩
  · intro state still hasEnded _
    rw [still.1] at hasEnded
    exact Bool.noConfusion hasEnded

/-- A walk that is over is sound if it has what it is to have. -/
theorem halts_ended (hasEnded : walk.ended = true) :
    Halts (Walk.step memory) (fun walk => walk.ended = true) (Walk.Has stop handled) walk ↔
      walk.Has stop handled :=
  halts_ended_iff hasEnded (Walk.step_of_ended hasEnded)

/-- A walk that is not over is sound if it is so behind a step. -/
theorem halts_step (running : walk.ended = false) :
    Halts (Walk.step memory) (fun walk => walk.ended = true) (Walk.Has stop handled) walk ↔
      Halts (Walk.step memory) (fun walk => walk.ended = true) (Walk.Has stop handled)
        (walk.step memory) :=
  halts_step_iff (Bool.eq_false_iff.mp running)

/-- The length left has become negative, and so it is large. -/
theorem not_halts_of_large (running : walk.ended = false) (large : nlmsgHdrlen ≤ walk.recvLen)
    (behind : stop < walk.nlh + 4) :
    ¬Halts (Walk.step memory) (fun walk => walk.ended = true) (Walk.Has stop handled) walk := by
  rw [halts_step running]
  have isRead : (walk.nlh, 4) ∈ (walk.step memory).reads := by
    unfold Walk.step
    rw [if_neg (Bool.eq_false_iff.mp running), if_pos large]
    dsimp only
    split_ifs <;> simp
  exact not_halts_of_outside isRead behind

/-- A walk between two messages of a datagram. -/
structure Walk.At (stop : Nat) (walk : Walk) : Prop where
  /-- It has not ended. -/
  running : walk.ended = false
  /-- It is not behind the end. -/
  within : walk.nlh ≤ stop
  /-- What is left is behind it. -/
  left : walk.recvLen = stop - walk.nlh
  /-- It has looked only at bytes before the end. -/
  inside : ∀ read ∈ walk.reads, read.1 + read.2 ≤ stop

/-- The header of a message that fits is before the end. -/
theorem headerReads_inside {nlh : Nat} (room : nlh + nlmsgHdrlen ≤ stop) :
    ∀ read ∈ headerReads nlh, read.1 + read.2 ≤ stop := by
  have sizes : 4 + 2 ≤ nlmsgHdrlen := by decide
  rw [headerReads, List.forall_mem_cons, List.forall_mem_singleton]
  omega

/-- `NLMSG_OK` finds the messages of the datagram. -/
theorem Walk.At.nlmsgOk_iff (atMessage : walk.At stop) :
    nlmsgOk memory walk.nlh walk.recvLen = true ↔
      (nlmsgLayout memory).IsRecord stop walk.nlh := by
  rw [atMessage.left]
  exact Collector.nlmsgOk_iff memory atMessage.within

/-- What was looked at of a message that is handed over is before the end if its event is. -/
theorem Walk.At.handle_inside (atMessage : walk.At stop)
    (isRecord : (nlmsgLayout memory).IsRecord stop walk.nlh)
    (news : HoldsNews memory stop walk.nlh) :
    ∀ read ∈ (walk.handle memory).reads, read.1 + read.2 ≤ stop := by
  apply List.forall_mem_append.mpr ⟨?_, newsReads_inside_iff.mpr news⟩
  exact List.forall_mem_append.mpr ⟨atMessage.inside, headerReads_inside isRecord.header_le⟩

/-- A message that does not hold its event is read behind the end. -/
theorem not_halts_of_short (running : walk.ended = false)
    (isMessage : nlmsgOk memory walk.nlh walk.recvLen = true)
    (notNoop : nlmsgType memory walk.nlh ≠ nlmsgNoop)
    (notError : ¬(nlmsgType memory walk.nlh = nlmsgError ∨
      nlmsgType memory walk.nlh = nlmsgOverrun))
    (short : ¬HoldsNews memory stop walk.nlh) :
    ¬Halts (Walk.step memory) (fun walk => walk.ended = true) (Walk.Has stop handled) walk := by
  rw [← newsReads_inside_iff] at short
  push Not at short
  obtain ⟨read, isRead, outside⟩ := short
  have inHandle : read ∈ (walk.handle memory).reads := List.mem_append_right _ isRead
  rw [halts_step running]
  by_cases isDone : nlmsgType memory walk.nlh = nlmsgDone
  · rw [Walk.step_of_done running isMessage isDone]
    exact not_halts_of_outside inHandle outside
  · rw [Walk.step_of_other running isMessage notNoop notError isDone]
    exact not_halts_of_outside inHandle outside

/-- Behind a message of the datagram is the next one. -/
theorem Walk.pass_nlh (small : stop ≤ buffSize)
    (isRecord : (nlmsgLayout memory).IsRecord stop walk.nlh) :
    (walk.pass memory).nlh = (nlmsgLayout memory).next walk.nlh := by
  have inside : walk.nlh + nlmsgLen memory walk.nlh ≤ stop := isRecord.2
  have sizes : buffSize < 2 ^ 32 - 3 := by decide
  have aligned : nlmsgAlign (nlmsgLen memory walk.nlh) = align4 (nlmsgLen memory walk.nlh) :=
    nlmsgAlign_eq (by omega)
  rw [Walk.pass, aligned]
  rfl

/-- The length left behind a message may be negative, and then it is large. -/
theorem Walk.At.pass_recvLen (atMessage : walk.At stop) (small : stop ≤ buffSize)
    (isRecord : (nlmsgLayout memory).IsRecord stop walk.nlh) :
    (walk.pass memory).recvLen =
      (stop + 2 ^ 64 - (nlmsgLayout memory).next walk.nlh) % 2 ^ 64 := by
  have isNext := Walk.pass_nlh small isRecord
  have left := atMessage.left
  have within := atMessage.within
  change walk.nlh + nlmsgAlign (nlmsgLen memory walk.nlh) = _ at isNext
  change (walk.recvLen + 2 ^ 64 - nlmsgAlign (nlmsgLen memory walk.nlh)) % 2 ^ 64 = _
  rw [← isNext, left, ← Nat.sub_sub, Nat.sub_add_comm within]

/-- Behind a message with room for its padding the walk is between messages again. -/
theorem Walk.At.pass (atMessage : walk.At stop) (small : stop ≤ buffSize)
    (isRecord : (nlmsgLayout memory).IsRecord stop walk.nlh)
    (news : HoldsNews memory stop walk.nlh)
    (room : (nlmsgLayout memory).next walk.nlh ≤ stop) : (walk.pass memory).At stop where
  running := atMessage.running
  within := Walk.pass_nlh small isRecord ▸ room
  left := by
    have sizes : buffSize < 2 ^ 64 := by decide
    rw [atMessage.pass_recvLen small isRecord, Walk.pass_nlh small isRecord]
    omega
  inside := atMessage.handle_inside isRecord news

/-- Behind a message without room for its padding the next header is read behind the end. -/
theorem Walk.At.not_halts_pass (atMessage : walk.At stop) (small : stop ≤ buffSize)
    (isRecord : (nlmsgLayout memory).IsRecord stop walk.nlh)
    (noRoom : stop < (nlmsgLayout memory).next walk.nlh) :
    ¬Halts (Walk.step memory) (fun walk => walk.ended = true) (Walk.Has stop handled)
      (walk.pass memory) := by
  have inside : walk.nlh + nlmsgLen memory walk.nlh ≤ stop := isRecord.2
  have aligned := (align4_bounds (nlmsgLen memory walk.nlh)).2
  have isNext : (nlmsgLayout memory).next walk.nlh =
    walk.nlh + align4 (nlmsgLen memory walk.nlh) := rfl
  have sizes : nlmsgHdrlen < 2 ^ 63 := by decide
  have running : (walk.pass memory).ended = false := atMessage.running
  apply not_halts_of_large running
  · rw [atMessage.pass_recvLen small isRecord]
    omega
  · rw [Walk.pass_nlh small isRecord]
    omega

/-- Where no message is, the walk ends soundly. -/
theorem Walk.At.halts_of_not_isRecord (atMessage : walk.At stop)
    (isNone : ¬(nlmsgLayout memory).IsRecord stop walk.nlh) :
    Halts (Walk.step memory) (fun walk => walk.ended = true) (Walk.Has stop walk.handled) walk := by
  have notOk : nlmsgOk memory walk.nlh walk.recvLen = false :=
    Bool.eq_false_iff.mpr fun isMessage => isNone (atMessage.nlmsgOk_iff.mp isMessage)
  rw [halts_step atMessage.running, Walk.step_of_not_ok atMessage.running notOk, halts_ended rfl]
  refine ⟨List.forall_mem_append.mpr ⟨atMessage.inside, ?_⟩, rfl⟩
  split_ifs with room
  · have sizes : 4 ≤ nlmsgHdrlen := by decide
    have within := atMessage.within
    have recvLen := atMessage.left
    rw [List.forall_mem_singleton]
    omega
  · exact nofun

/-- At an error or an overrun the walk ends soundly. -/
theorem Walk.At.halts_of_error (atMessage : walk.At stop)
    (isRecord : (nlmsgLayout memory).IsRecord stop walk.nlh)
    (isError : nlmsgType memory walk.nlh = nlmsgError ∨
      nlmsgType memory walk.nlh = nlmsgOverrun) :
    Halts (Walk.step memory) (fun walk => walk.ended = true) (Walk.Has stop walk.handled) walk := by
  have isMessage := atMessage.nlmsgOk_iff.mpr isRecord
  rw [halts_step atMessage.running, Walk.step_of_error atMessage.running isMessage isError,
    halts_ended rfl]
  refine ⟨?_, rfl⟩
  exact List.forall_mem_append.mpr ⟨atMessage.inside, headerReads_inside isRecord.header_le⟩

/-- A walk ends soundly if and only if the messages behind it are regular. -/
theorem halts_iff_regular (small : stop ≤ buffSize) (atMessage : walk.At stop) :
    Halts (Walk.step memory) (fun walk => walk.ended = true)
        (Walk.Has stop (walk.handled ++
          handledOf memory ((nlmsgLayout memory).recordsFrom stop walk.nlh))) walk ↔
      Regular memory stop ((nlmsgLayout memory).recordsFrom stop walk.nlh) := by
  induction isLeft : stop - walk.nlh using Nat.strong_induction_on generalizing walk with
  | _ left inductionHypothesis =>
  have running := atMessage.running
  by_cases isRecord : (nlmsgLayout memory).IsRecord stop walk.nlh
  · have isMessage := atMessage.nlmsgOk_iff.mpr isRecord
    rw [Library.Layout.recordsFrom_of_isRecord isRecord, handledOf, Regular]
    by_cases isNoop : nlmsgType memory walk.nlh = nlmsgNoop
    · exact iff_of_false (not_halts_of_noop running isMessage isNoop)
        fun regular => regular.1 isNoop
    rw [and_iff_right isNoop, ← or_assoc]
    by_cases isError : nlmsgType memory walk.nlh = nlmsgError ∨
        nlmsgType memory walk.nlh = nlmsgOverrun
    · rw [if_pos isError, List.append_nil]
      exact iff_of_true (atMessage.halts_of_error isRecord isError) (Or.inl isError)
    rw [or_iff_right isError, if_neg isError]
    by_cases news : HoldsNews memory stop walk.nlh
    · have inside := atMessage.handle_inside isRecord news
      rw [and_iff_right news, halts_step running]
      by_cases isDone : nlmsgType memory walk.nlh = nlmsgDone
      · rw [Walk.step_of_done running isMessage isDone, halts_ended rfl, if_pos isDone]
        exact iff_of_true ⟨inside, rfl⟩ (Or.inl isDone)
      rw [Walk.step_of_other running isMessage isNoop isError isDone, if_neg isDone,
        or_iff_right isDone]
      by_cases room : (nlmsgLayout memory).next walk.nlh ≤ stop
      · have later := isRecord.lt_next
        have isNext := Walk.pass_nlh small isRecord
        have rest := inductionHypothesis _ (by omega) (atMessage.pass small isRecord news room) rfl
        rw [isNext, Walk.pass, Walk.handle, List.append_assoc] at rest
        rw [and_iff_right room]
        exact rest
      · exact iff_of_false
          (atMessage.not_halts_pass small isRecord (Nat.lt_of_not_le room))
          fun regular => room regular.1
    · exact iff_of_false (not_halts_of_short running isMessage isNoop isError news)
        fun regular => news regular.1
  · rw [Library.Layout.recordsFrom_of_not_isRecord isRecord, handledOf, List.append_nil]
    exact iff_of_true (atMessage.halts_of_not_isRecord isRecord) trivial

end Run

/-- The scanner has the news of the messages handed over. -/
theorem nls_iterate (stack : Nat → UInt8) (nls : NetLinkPidScanner) (reception : Reception)
    (count : Nat) :
    let walk := (Walk.step (reception.memory stack))^[count] (reception.start nls)
    walk.nls = (walk.handled.map (eventOf (reception.memory stack))).foldl handleNews nls := by
  refine iterate_invariant
    (fun walk : Walk => walk.nls =
      (walk.handled.map (eventOf (reception.memory stack))).foldl handleNews nls) rfl ?_ count
  intro walk isNews
  unfold Walk.step
  dsimp only
  split_ifs <;> simp [isNews]

/-- Nothing received is no message. -/
theorem Reception.messages_of_empty (stack : Nat → UInt8) {reception : Reception}
    (empty : reception.bytes = []) : reception.messages stack = [] := by
  rw [Reception.messages, empty]
  exact Library.Layout.recordsFrom_of_le le_rfl

/-- The messages of a datagram are walked over soundly if and only if they are regular. -/
theorem sound_iff_regular (stack : Nat → UInt8) (nls : NetLinkPidScanner)
    (reception : Reception) :
    Sound stack nls reception ↔
      Regular (reception.memory stack) reception.bytes.length (reception.messages stack) := by
  cases reception with
  | failed =>
      have noMessages := @Reception.messages_of_empty stack .failed rfl
      have isNone : nlmsgOk (Reception.failed.memory stack) 0 (2 ^ 64 - 1) = false := rfl
      have running : (Reception.failed.start nls).ended = false := rfl
      rw [Sound, noMessages, halts_step running, Walk.step_of_not_ok running isNone, halts_ended rfl]
      have inside : ∀ read ∈ [((0 : Nat), (4 : Nat))], read.1 + read.2 ≤ buffSize := by
        rw [List.forall_mem_singleton]
        decide
      exact iff_of_true ⟨inside, rfl⟩ trivial
  | datagram bytes fits =>
      by_cases empty : bytes = []
      · have noMessages := @Reception.messages_of_empty stack (.datagram bytes fits) empty
        have hasEnded : ((Reception.datagram bytes fits).start nls).ended = true := by
          subst empty
          rfl
        rw [Sound, noMessages, halts_ended hasEnded]
        exact iff_of_true ⟨nofun, rfl⟩ trivial
      · have received : 0 < bytes.length := List.length_pos_of_ne_nil empty
        have running : ((Reception.datagram bytes fits).start nls).ended = false :=
          decide_eq_false (Nat.not_lt.mpr received)
        have atStart : ((Reception.datagram bytes fits).start nls).At bytes.length :=
          ⟨running, Nat.zero_le _, rfl, nofun⟩
        exact halts_iff_regular fits atStart

/-- A datagram with one message that is to be skipped. -/
def noopDatagram : Reception :=
  .datagram [16, 0, 0, 0, 1, 0, 0, 0, 0, 0, 0, 0, 0, 0, 0, 0] (by decide)

/-- A message that is to be skipped is looked at again and again. -/
theorem not_sound_noop : ¬Sound (fun _ => 0) .fresh noopDatagram :=
  not_halts_of_noop rfl rfl rfl

end NetlinkMessages
end Collector
end Bootchart
