import Bootchart.Collector.Output
import Bootchart.Library.LittleEndian
import Mathlib.Data.List.GetD
import Mathlib.Data.Nat.Find

/-!
# The stack map in another process

`find_chunks` copies the stack of another collector and looks for the stack map in it. The copy is
read in a loop, as `pread` may return less than it was asked for.
-/

namespace Bootchart
namespace Collector
namespace FindChunks

open Library (window length_window)

/-! ## Searching -/

/-- `STACK_MAP_MAGIC`, with the zero behind it. -/
def stackMapMagic : Bytes :=
  "really-unique-stack-pointer-for-xp-detection-goodness".toList.map
    (fun c => UInt8.ofNat c.toNat) ++ [0]

/-- `sizeof (StackMap)` where pointers have eight bytes: the magic text, two bytes of padding, the
chunks, `max_chunk` and four bytes of padding. -/
def sizeofStackMap : Nat := 54 + 2 + chunkSlots * 8 + 4 + 4

/-- `strcmp` finds the magic text at an address. Only the last byte of the text is zero, so that
all of them are compared. -/
def isMagic (memory : Nat → UInt8) (start : Nat) : Bool :=
  window memory start stackMapMagic.length = stackMapMagic

/-- `search_stack`. -/
def searchStack (stack : Nat → UInt8) (len : Nat) : Option Nat :=
  (List.range len).find? (isMagic stack)

/-! ## Reading -/

/-- What `pread` does when it is asked for so many bytes. -/
inductive PreadOutcome (requested : Nat)
  /-- The error `EINTR` or `EAGAIN`. -/
  | again
  /-- Another error. -/
  | failed
  /-- Some bytes, at most those asked for. -/
  | read (bytes : Bytes) (fits : bytes.length ≤ requested)

/-- Where the loop stands. -/
structure ReadState where
  /-- `read_bytes`. -/
  readBytes : Nat
  /-- The memory from `copy` on, also behind the end of the buffer. -/
  copy : Nat → UInt8
  /-- The loop was left by `break`. -/
  broken : Bool

/-- Bytes written to the memory. -/
def store (memory : Nat → UInt8) (start : Nat) (bytes : Bytes) : Nat → UInt8 := fun index =>
  if start ≤ index then bytes.getD (index - start) (memory index) else memory index

section Loop

variable (toread : Nat) (heap : Nat → UInt8) (outcomes : Nat → PreadOutcome toread)

/-- Before the loop: the buffer is not initialised. -/
def ReadState.start : ReadState where
  readBytes := 0
  copy := heap
  broken := false

/-- The loop goes on, and asks for `toread` bytes to be stored behind `read_bytes`. -/
def ReadState.Running (state : ReadState) : Prop :=
  state.broken = false ∧ state.readBytes < toread

instance (state : ReadState) : Decidable (state.Running toread) :=
  inferInstanceAs (Decidable (_ ∧ _))

/-- An iteration of the loop. -/
def ReadState.next {toread : Nat} (state : ReadState) : PreadOutcome toread → ReadState
  | .again => state
  | .failed => { state with broken := true }
  | .read bytes _ =>
      { state with
        readBytes := state.readBytes + bytes.length
        copy := store state.copy state.readBytes bytes }

/-- The state behind some outcomes, or at the end of the loop if that comes before. -/
def stateAfter : Nat → ReadState
  | 0 => ReadState.start heap
  | count + 1 =>
      let state := stateAfter count
      if state.Running toread then state.next (outcomes count) else state

/-- The bytes that `pread` has returned behind some outcomes. -/
def received : Nat → Bytes
  | 0 => []
  | count + 1 =>
      if (stateAfter toread heap outcomes count).Running toread then
        match outcomes count with
        | .read bytes _ => received count ++ bytes
        | _ => received count
      else received count

/-! ## What the loop is to do -/

/-- A stack map lies within some bytes, and the magic text is nowhere before it. -/
def IsFirstMap (bytes : Bytes) (place : Nat) : Prop :=
  place + sizeofStackMap ≤ bytes.length ∧ stackMapMagic <+: bytes.drop place ∧
    ∀ earlier < place, ¬stackMapMagic <+: bytes.drop earlier

/-- No byte beyond the buffer is asked for, the loop ends unless `pread` is interrupted without
end, and what is found was received. -/
structure Sound : Prop where
  /-- Every request lies in the buffer of `toread` bytes. -/
  inside : ∀ count, (stateAfter toread heap outcomes count).Running toread →
    (stateAfter toread heap outcomes count).readBytes + toread ≤ toread
  /-- The loop ends. -/
  ends : (¬∀ count, ∃ later ≥ count, outcomes later = .again) →
    ∃ count, ¬(stateAfter toread heap outcomes count).Running toread
  /-- Success is reported for a whole stack map. -/
  found : ∀ count place, ¬(stateAfter toread heap outcomes count).Running toread →
    searchStack (stateAfter toread heap outcomes count).copy
      (stateAfter toread heap outcomes count).readBytes = some place →
        IsFirstMap (received toread heap outcomes count) place

/-- The outcome is neither an interruption nor an empty read. -/
def Decisive : PreadOutcome toread → Prop
  | .again => False
  | .failed => True
  | .read bytes _ => bytes ≠ []

/-- The outcome is an error, or all bytes, with a whole stack map behind the first place where the
magic text is found, if it is found. -/
def Complete : PreadOutcome toread → Prop
  | .again => False
  | .failed => True
  | .read bytes _ => bytes.length = toread ∧
      ∀ place, searchStack (store heap 0 bytes) toread = some place →
        place + sizeofStackMap ≤ toread

/-- The first decisive outcome is complete. If there is none, `pread` is interrupted without
end. -/
def SingleRead : Prop :=
  toread = 0 ∨
    (∃ count, (∀ earlier < count, ¬Decisive toread (outcomes earlier)) ∧
      Complete toread heap (outcomes count)) ∨
    ((∀ count, ¬Decisive toread (outcomes count)) ∧
      ∀ count, ∃ later ≥ count, outcomes later = .again)

/-! ## Searching what was read -/

/-- The bytes of the memory where some were stored. -/
theorem window_store {bytes : Bytes} {place count : Nat} (inside : place + count ≤ bytes.length) :
    window (store heap 0 bytes) place count = (bytes.drop place).take count := by
  apply List.ext_getElem
  · rw [length_window, List.length_take, List.length_drop]
    omega
  · intro index isIndex _
    rw [length_window] at isIndex
    rw [List.getElem_take, List.getElem_drop]
    simp only [window, List.getElem_map, List.getElem_range, store, Nat.zero_le, if_true,
      Nat.sub_zero]
    exact List.getD_eq_getElem _ _ (by omega)

/-- The magic text is found where it was stored. -/
theorem isMagic_store {bytes : Bytes} {place : Nat}
    (inside : place + stackMapMagic.length ≤ bytes.length) :
    isMagic (store heap 0 bytes) place = true ↔ stackMapMagic <+: bytes.drop place := by
  rw [isMagic, decide_eq_true_eq, window_store heap inside, List.prefix_iff_eq_take, eq_comm]

/-- The first place where the magic text is found. -/
theorem searchStack_eq_some {stack : Nat → UInt8} {len place : Nat} :
    searchStack stack len = some place ↔
      isMagic stack place = true ∧ place < len ∧
        ∀ earlier < place, isMagic stack earlier = false := by
  rw [searchStack, List.find?_range_eq_some]
  simp

/-- A stack map that lies within what was read is the first one there. -/
theorem isFirstMap_of_searchStack {bytes : Bytes} {place : Nat}
    (found : searchStack (store heap 0 bytes) bytes.length = some place)
    (inside : place + sizeofStackMap ≤ bytes.length) :
    IsFirstMap bytes place := by
  have smaller : stackMapMagic.length ≤ sizeofStackMap := by decide
  obtain ⟨isPlace, _, first⟩ := searchStack_eq_some.mp found
  refine ⟨inside, (isMagic_store heap (by omega)).mp isPlace, ?_⟩
  intro earlier isEarlier isMap
  have notMagic := first earlier isEarlier
  rw [(isMagic_store heap (by omega)).mpr isMap] at notMagic
  exact absurd notMagic nofun

/-- In no bytes nothing is found. -/
theorem searchStack_zero (stack : Nat → UInt8) : searchStack stack 0 = none := rfl

/-! ## Runs of the loop -/

variable {toread} {heap} {outcomes}

/-- Nothing stored changes nothing. -/
theorem store_nil (memory : Nat → UInt8) (start : Nat) : store memory start [] = memory := by
  funext index
  rw [store, List.getD_nil, ite_self]

/-- An outcome that is not decisive leaves the state. -/
theorem next_of_not_decisive {state : ReadState} {outcome : PreadOutcome toread}
    (idle : ¬Decisive toread outcome) : state.next outcome = state := by
  cases outcome with
  | again => rfl
  | failed => exact absurd trivial idle
  | read bytes fits =>
      obtain rfl : bytes = [] := not_not.mp idle
      rw [ReadState.next, store_nil]
      rfl

/-- Outcomes that are not decisive leave the state. -/
theorem stateAfter_of_idle {count : Nat}
    (idle : ∀ earlier < count, ¬Decisive toread (outcomes earlier)) :
    stateAfter toread heap outcomes count = ReadState.start heap := by
  induction count with
  | zero => rfl
  | succ count inductionHypothesis =>
      rw [stateAfter, inductionHypothesis fun earlier isEarlier => idle earlier (by omega),
        next_of_not_decisive (idle count (by omega)), ite_self]

/-- Outcomes that are not decisive bring nothing. -/
theorem received_of_idle {count : Nat}
    (idle : ∀ earlier < count, ¬Decisive toread (outcomes earlier)) :
    received toread heap outcomes count = [] := by
  induction count with
  | zero => rfl
  | succ count inductionHypothesis =>
      have before := inductionHypothesis fun earlier isEarlier => idle earlier (by omega)
      have here := idle count (by omega)
      rw [received, before]
      cases isOutcome : outcomes count with
      | again => exact ite_self _
      | failed => exact ite_self _
      | read bytes fits =>
          rw [isOutcome] at here
          obtain rfl : bytes = [] := not_not.mp here
          exact ite_self _

/-- Behind its end the loop makes no step. -/
theorem stateAfter_of_ended {count : Nat}
    (ended : ¬(stateAfter toread heap outcomes count).Running toread) {later : Nat}
    (isLater : count ≤ later) :
    stateAfter toread heap outcomes later = stateAfter toread heap outcomes count ∧
      received toread heap outcomes later = received toread heap outcomes count := by
  induction later, isLater using Nat.le_induction with
  | base => exact ⟨rfl, rfl⟩
  | succ later _ inductionHypothesis =>
      rw [stateAfter, received, inductionHypothesis.1, if_neg ended, if_neg ended]
      exact ⟨rfl, inductionHypothesis.2⟩

/-- The loop has ended without a byte read. -/
theorem sound_of_ended_empty {count : Nat}
    (ended : ¬(stateAfter toread heap outcomes count).Running toread)
    (empty : ∀ earlier, (stateAfter toread heap outcomes earlier).readBytes = 0) :
    Sound toread heap outcomes where
  inside := by
    intro earlier _
    rw [empty, Nat.zero_add]
  ends := fun _ => ⟨count, ended⟩
  found := by
    intro earlier place _ isPlace
    rw [empty, searchStack_zero] at isPlace
    exact absurd isPlace nofun

/-- A loop that stays at its start is sound if and only if it is interrupted without end. -/
theorem sound_of_idle (positive : 0 < toread)
    (idle : ∀ count, ¬Decisive toread (outcomes count)) :
    Sound toread heap outcomes ↔ ∀ count, ∃ later ≥ count, outcomes later = .again := by
  have atStart : ∀ count, stateAfter toread heap outcomes count = ReadState.start heap :=
    fun count => stateAfter_of_idle fun earlier _ => idle earlier
  have running : ∀ count, (stateAfter toread heap outcomes count).Running toread := by
    intro count
    rw [atStart]
    exact ⟨rfl, positive⟩
  constructor
  · intro sound
    by_contra finitely
    obtain ⟨count, ended⟩ := sound.ends finitely
    exact ended (running count)
  · intro endless
    constructor
    · intro count _
      rw [atStart]
      exact (Nat.zero_add toread).le
    · exact fun finitely => absurd endless finitely
    · intro count place ended
      exact absurd (running count) ended

/-- The state behind the first decisive outcome. -/
theorem stateAfter_of_decisive (positive : 0 < toread) {count : Nat}
    (idle : ∀ earlier < count, ¬Decisive toread (outcomes earlier)) :
    stateAfter toread heap outcomes (count + 1) =
      (ReadState.start heap).next (outcomes count) := by
  have running : (ReadState.start heap).Running toread := ⟨rfl, positive⟩
  rw [stateAfter, stateAfter_of_idle idle, if_pos running]

/-- A loop that ends with its first decisive outcome is at its start or at its end. -/
theorem stateAfter_cases (positive : 0 < toread) {count : Nat}
    (idle : ∀ earlier < count, ¬Decisive toread (outcomes earlier))
    (ended : ¬((ReadState.start heap).next (outcomes count)).Running toread) (other : Nat) :
    stateAfter toread heap outcomes other = ReadState.start heap ∨
      stateAfter toread heap outcomes other = (ReadState.start heap).next (outcomes count) ∧
        received toread heap outcomes other = received toread heap outcomes (count + 1) := by
  have after : stateAfter toread heap outcomes (count + 1) =
      (ReadState.start heap).next (outcomes count) := stateAfter_of_decisive positive idle
  rcases Nat.lt_or_ge count other with isLater | isEarlier
  · rw [← after] at ended ⊢
    exact Or.inr (stateAfter_of_ended ended isLater)
  · exact Or.inl (stateAfter_of_idle fun earlier before => idle earlier (by omega))

/-- What was received with the first decisive outcome. -/
theorem received_of_decisive (positive : 0 < toread) {count : Nat}
    (idle : ∀ earlier < count, ¬Decisive toread (outcomes earlier)) :
    received toread heap outcomes (count + 1) =
      match outcomes count with
      | .read bytes _ => bytes
      | _ => [] := by
  have running : (ReadState.start heap).Running toread := ⟨rfl, positive⟩
  rw [received, stateAfter_of_idle idle, if_pos running, received_of_idle idle]
  cases outcomes count <;> rfl

/-- Some bytes are stored at the beginning of the buffer. -/
theorem next_read {bytes : Bytes} (fits : bytes.length ≤ toread) :
    (ReadState.start heap).next (.read bytes fits) =
      { readBytes := bytes.length, copy := store heap 0 bytes, broken := false } := by
  rw [ReadState.next, ReadState.start, Nat.zero_add]

/-- An error ends the loop without a byte read. -/
theorem sound_of_failed (positive : 0 < toread) {count : Nat}
    (idle : ∀ earlier < count, ¬Decisive toread (outcomes earlier))
    (isFailed : outcomes count = .failed) : Sound toread heap outcomes := by
  have after := @stateAfter_of_decisive toread heap outcomes positive count idle
  have ended : ¬((ReadState.start heap).next (outcomes count)).Running toread := by
    rw [isFailed]
    exact fun running => Bool.noConfusion running.1
  refine sound_of_ended_empty (after ▸ ended) fun other => ?_
  rcases stateAfter_cases positive idle ended other with isStart | ⟨isEnd, _⟩
  · rw [isStart]
    rfl
  · rw [isEnd, isFailed]
    rfl

/-- When all bytes are read at once, what is found was received if the whole stack map was. -/
theorem sound_of_full (positive : 0 < toread) {count : Nat}
    (idle : ∀ earlier < count, ¬Decisive toread (outcomes earlier)) {bytes : Bytes}
    {fits : bytes.length ≤ toread} (isRead : outcomes count = .read bytes fits)
    (full : bytes.length = toread) :
    Sound toread heap outcomes ↔
      ∀ place, searchStack (store heap 0 bytes) toread = some place →
        place + sizeofStackMap ≤ toread := by
  have after := @stateAfter_of_decisive toread heap outcomes positive count idle
  have bytesAfter := @received_of_decisive toread heap outcomes positive count idle
  have states := @stateAfter_cases toread heap outcomes positive count idle
  rw [isRead] at after bytesAfter states
  rw [next_read] at after states
  have ended : ¬ReadState.Running toread
      { readBytes := bytes.length, copy := store heap 0 bytes, broken := false } :=
    fun running => absurd running.2 (by rw [full]; exact lt_irrefl toread)
  constructor
  · intro sound place isPlace
    have isFound := sound.found (count + 1) place (after ▸ ended)
    rw [after, bytesAfter] at isFound
    rw [← full] at isPlace ⊢
    exact (isFound isPlace).1
  · intro whole
    constructor
    · intro other isRunning
      rcases states ended other with isStart | ⟨isEnd, _⟩
      · rw [isStart]
        exact (Nat.zero_add toread).le
      · rw [isEnd] at isRunning
        exact absurd isRunning ended
    · exact fun _ => ⟨count + 1, after ▸ ended⟩
    · intro other place isEnded isPlace
      rcases states ended other with isStart | ⟨isEnd, isReceived⟩
      · rw [isStart] at isEnded
        exact absurd ⟨rfl, positive⟩ isEnded
      · rw [isEnd] at isPlace
        rw [isReceived, bytesAfter]
        apply isFirstMap_of_searchStack heap isPlace
        rw [full]
        apply whole
        rw [← full]
        exact isPlace

/-- When some bytes are missing, the rest is asked for with the size of the whole. -/
theorem not_sound_of_short (positive : 0 < toread) {count : Nat}
    (idle : ∀ earlier < count, ¬Decisive toread (outcomes earlier)) {bytes : Bytes}
    {fits : bytes.length ≤ toread} (isRead : outcomes count = .read bytes fits)
    (nonempty : bytes ≠ []) (short : bytes.length ≠ toread) : ¬Sound toread heap outcomes := by
  intro sound
  have request := sound.inside (count + 1)
  rw [stateAfter_of_decisive positive idle, isRead, next_read] at request
  have isRunning : ReadState.Running toread
      { readBytes := bytes.length, copy := store heap 0 bytes, broken := false } :=
    ⟨rfl, lt_of_le_of_ne fits short⟩
  have bound : bytes.length + toread ≤ toread := request isRunning
  have some := List.length_pos_of_ne_nil nonempty
  omega

/-- The loop that is decided by one outcome is sound if and only if that is complete. -/
theorem sound_of_decisive (positive : 0 < toread) {count : Nat}
    (idle : ∀ earlier < count, ¬Decisive toread (outcomes earlier))
    (decisive : Decisive toread (outcomes count)) :
    Sound toread heap outcomes ↔ Complete toread heap (outcomes count) := by
  cases isOutcome : outcomes count with
  | again =>
      rw [isOutcome] at decisive
      exact absurd decisive id
  | failed => exact iff_of_true (sound_of_failed positive idle isOutcome) trivial
  | read bytes fits =>
      rw [isOutcome] at decisive
      by_cases full : bytes.length = toread
      · rw [Complete, and_iff_right full]
        exact sound_of_full positive idle isOutcome full
      · exact iff_of_false (not_sound_of_short positive idle isOutcome decisive full)
          fun complete => full complete.1

variable (toread heap outcomes)

/-- An outcome that is complete is decisive. -/
theorem decisive_of_complete (positive : 0 < toread) {outcome : PreadOutcome toread}
    (complete : Complete toread heap outcome) : Decisive toread outcome := by
  cases outcome with
  | again => exact complete
  | failed => trivial
  | read bytes fits =>
      rintro rfl
      exact positive.ne complete.1

/-- The stack map is read soundly if and only if `pread` returns the stack at once, apart from
interruptions and empty reads before. -/
theorem sound_iff_singleRead :
    Sound toread heap outcomes ↔ SingleRead toread heap outcomes := by
  classical
  rcases Nat.eq_zero_or_pos toread with rfl | positive
  · have notRunning : ∀ count, ¬(stateAfter 0 heap outcomes count).Running 0 :=
      fun count running => absurd running.2 (Nat.not_lt_zero _)
    have empty : ∀ count, (stateAfter 0 heap outcomes count).readBytes = 0 := by
      intro count
      rw [(stateAfter_of_ended (notRunning 0) (Nat.zero_le count)).1]
      rfl
    exact iff_of_true (sound_of_ended_empty (notRunning 0) empty) (Or.inl rfl)
  · by_cases decided : ∃ count, Decisive toread (outcomes count)
    · have decisive := Nat.find_spec decided
      have idle : ∀ earlier < Nat.find decided, ¬Decisive toread (outcomes earlier) :=
        fun earlier isEarlier => Nat.find_min decided isEarlier
      rw [sound_of_decisive positive idle decisive]
      constructor
      · exact fun complete => Or.inr (Or.inl ⟨Nat.find decided, idle, complete⟩)
      · rintro (isZero | ⟨count, idleBefore, complete⟩ | ⟨never, _⟩)
        · exact absurd isZero positive.ne'
        · have isFirst : Nat.find decided = count := by
            apply (Nat.find_eq_iff decided).mpr
            exact ⟨decisive_of_complete toread heap positive complete, idleBefore⟩
          rw [isFirst]
          exact complete
        · exact absurd decisive (never _)
    · have idle : ∀ count, ¬Decisive toread (outcomes count) := not_exists.mp decided
      rw [sound_of_idle positive idle]
      constructor
      · exact fun endless => Or.inr (Or.inr ⟨idle, endless⟩)
      · rintro (isZero | ⟨count, _, complete⟩ | ⟨_, endless⟩)
        · exact absurd isZero positive.ne'
        · exact absurd (decisive_of_complete toread heap positive complete) (idle count)
        · exact endless

end Loop

/-- A stack of two bytes that are read one by one: the second request is for two bytes behind the
first. -/
theorem not_sound_partial :
    ¬Sound 2 (fun _ => 0) fun _ => .read [0] (by decide) := by
  intro sound
  exact absurd (sound.inside 1 (by decide)) (by decide)

/-- A stack of one byte, where `pread` returns no bytes at all, is read without end. -/
example : ¬SingleRead 1 (fun _ => 0) fun _ => .read [] (by decide) := by
  rintro (isZero | ⟨count, _, complete⟩ | ⟨_, endless⟩)
  · exact absurd isZero (by decide)
  · exact absurd complete.1 (by decide)
  · obtain ⟨later, _, isAgain⟩ := endless 0
    exact absurd isAgain nofun

end FindChunks
end Collector
end Bootchart
