import Bootchart.Collector.ChunkLengths
import Bootchart.Collector.OutputRun

/-!
# The buffers and the lengths of their chunks

Every run of the buffers, taken in whole iterations of the copy loops, is a run of the lengths of
their chunks.
-/

namespace Bootchart
namespace Collector
namespace ChunkLengths

open Library

/-- The field `length` of a chunk. -/
def lengthOf (chunk : Chunk) : BitVec 64 :=
  BitVec.ofNat 64 chunk.data.length

/-- The loop of a call. -/
def loopOf : Call → Loop
  | .idle => .idle
  | .appending str => .append (BitVec.ofNat 64 str.length)
  | .appended str => .append (BitVec.ofNat 64 str.length)
  | .dumping => .dump
  | .dumped => .dump

/-- A buffer file, as far as lengths go. -/
def fileOf (client : Client) : File where
  cur := client.file.cur
  loop := loopOf client.call

/-- The lengths of the chunks of a stack map. -/
def lengthsOf (sm : StackMap) : List (BitVec 64) :=
  sm.chunks.map lengthOf

/-- The buffers, as far as lengths go. -/
def tableOf (buffers : Buffers) : Table where
  lengths := lengthsOf buffers.sm
  files := buffers.clients.map fileOf

/-- A number below the word size is its own value. -/
theorem toNat_ofNat_of_lt {number : Nat} (small : number < 2 ^ 64) :
    (BitVec.ofNat 64 number).toNat = number := by
  rw [BitVec.toNat_ofNat, Nat.mod_eq_of_lt small]

/-- Chunks are smaller than words can tell. -/
theorem toNat_lengthOf (chunk : Chunk) : (lengthOf chunk).toNat = chunk.data.length := by
  have small : chunkPayload < 2 ^ 64 := by decide
  have fits := chunk.fits
  exact toNat_ofNat_of_lt (by omega)

@[simp] theorem length_lengthsOf (sm : StackMap) : (lengthsOf sm).length = sm.chunks.length :=
  List.length_map _

/-- The length of the chunk in a slot. -/
theorem getElem?_lengthsOf {sm : StackMap} {slot : Nat} {chunk : Chunk}
    (present : sm.chunks[slot]? = some chunk) :
    (lengthsOf sm)[slot]? = some (lengthOf chunk) := by
  rw [lengthsOf, List.getElem?_map, present]
  rfl

/-- The free bytes of a chunk, as an unsigned difference. -/
theorem toNat_room_lengthsOf {sm : StackMap} {slot : Nat} {chunk : Chunk}
    (present : sm.chunks[slot]? = some chunk) :
    (room (lengthsOf sm) slot).toNat = chunk.room := by
  have atMost : (lengthOf chunk).toNat ≤ chunkPayload := by
    rw [toNat_lengthOf]
    exact chunk.fits
  rw [toNat_room (getElem?_lengthsOf present) atMost, toNat_lengthOf]
  rfl

/-- The lengths where one chunk has changed. -/
theorem lengthsOf_modify {sm : StackMap} {slot : Nat} {chunk : Chunk}
    (present : sm.chunks[slot]? = some chunk) (change : Chunk → Chunk) :
    lengthsOf (sm.modify slot change) = (lengthsOf sm).set slot (lengthOf (change chunk)) := by
  obtain ⟨before, behind, isChunks, rfl, isModified⟩ := modify_eq_of_getElem? present change
  rw [lengthsOf, lengthsOf, StackMap.chunks_modify, isModified, isChunks, List.map_append,
    List.map_append, List.map_cons, List.map_cons, List.set_append_right _ _ (by simp)]
  simp

/-- Allocation commutes with taking the lengths. -/
theorem chunkAlloc_lengthsOf (sm : StackMap) (dest : Bytes) :
    chunkAlloc (lengthsOf sm) = (lengthsOf (sm.chunkAlloc dest).1, (sm.chunkAlloc dest).2) := by
  by_cases full : sm.chunks.length = chunkSlots
  · have slots := chunkSlots_pos
    have inside : chunkSlots - 1 < sm.chunks.length := by omega
    have last := List.getElem?_eq_getElem inside
    rw [StackMap.chunkAlloc_of_full sm dest full, chunkAlloc, length_lengthsOf, if_pos full, full,
      lengthsOf_modify last]
    rfl
  · obtain ⟨isChunks, isSlot⟩ := StackMap.chunks_chunkAlloc_of_not_full sm dest full
    rw [chunkAlloc, length_lengthsOf, if_neg full, isSlot, lengthsOf, lengthsOf, isChunks,
      List.map_append]
    rfl

/-- A write that fits and the check behind it are the end of an iteration. -/
theorem advance_lengthsOf {sm : StackMap} {file : BufferFile} {chunk : Chunk}
    (present : file.chunk? sm = some chunk) {bytes : Bytes}
    (fits : bytes.length ≤ chunk.room) :
    advance (lengthsOf sm) file.cur (BitVec.ofNat 64 bytes.length) =
      (lengthsOf (replaceFull (sm.modify file.cur (·.write bytes)) file).1,
        (replaceFull (sm.modify file.cur (·.write bytes)) file).2.cur) := by
  have inside := (List.getElem?_eq_some_iff.mp present).1
  have written : file.chunk? (sm.modify file.cur (·.write bytes)) = some (chunk.write bytes) := by
    rw [BufferFile.chunk?, StackMap.chunks_modify, List.getElem?_modify_eq]
    exact congrArg (Option.map _) present
  have isLength : lengthOf chunk + BitVec.ofNat 64 bytes.length =
      lengthOf (chunk.write bytes) := by
    rw [lengthOf, lengthOf, chunk.data_write bytes fits, List.length_append, BitVec.ofNat_add]
  rw [advance, List.getD_eq_getElem?_getD, getElem?_lengthsOf present, Option.getD_some, isLength,
    ← lengthsOf_modify present fun chunk => chunk.write bytes, replaceFull, written]
  dsimp only
  by_cases full : (chunk.write bytes).data.length ≥ chunkPayload
  · have isFull : lengthOf (chunk.write bytes) ≥ payload := by
      rw [ge_iff_le, BitVec.le_def, toNat_lengthOf]
      exact full
    rw [if_pos full, if_pos isFull, chunkAlloc_lengthsOf _ file.dest]
  · have notFull : ¬lengthOf (chunk.write bytes) ≥ payload := by
      rw [ge_iff_le, BitVec.le_def, toNat_lengthOf]
      exact full
    rw [if_neg full, if_neg notFull]

/-! ## Iterations -/

/-- What the collector does between two loop heads. -/
inductive Iteration
  /-- `buffer_file_new`. -/
  | new (dest : Bytes)
  /-- Call `buffer_file_append`. -/
  | append (index : Nat) (str : Bytes)
  /-- Call `buffer_file_dump`. -/
  | dump (index : Nat)
  /-- One iteration of `buffer_file_append`. -/
  | write (index : Nat)
  /-- One iteration of `buffer_file_dump`. -/
  | read (index : Nat) (result : Option Bytes)

/-- The steps of the buffers. -/
def Iteration.steps : Iteration → List Collector.Action
  | .new dest => [.new dest]
  | .append index str => [.client index (.append str)]
  | .dump index => [.client index .dump]
  | .write index => [.client index .copy, .client index .check]
  | .read index none => [.client index (.read none)]
  | .read index (some []) => [.client index (.read (some []))]
  | .read index (some bytes) => [.client index (.read (some bytes)), .client index .check]

/-- The action on the lengths. -/
def Iteration.onLengths : Iteration → Action
  | .new _ => .new
  | .append index str => .append index (BitVec.ofNat 64 str.length)
  | .dump index => .dump index
  | .write index => .write index
  | .read index result => .read index (result.map fun bytes => BitVec.ofNat 64 bytes.length)

/-- Every string passed has a length in the range of `size_t`. -/
def Iteration.Addressable : Iteration → Prop
  | .append _ str => str.length < 2 ^ 64
  | _ => True

/-- What the calls in progress still hold has a length in the range of `size_t`. -/
def Addressable (buffers : Buffers) : Prop :=
  ∀ client ∈ buffers.clients, client.call.remaining.length < 2 ^ 64

/-- A file of the buffers. -/
theorem getElem?_files {buffers : Buffers} {index : Nat} {client : Client}
    (present : buffers.clients[index]? = some client) :
    (tableOf buffers).files[index]? = some (fileOf client) := by
  rw [tableOf, List.getElem?_map, present]
  rfl

/-- The buffers where a client has changed. -/
theorem tableOf_set (buffers : Buffers) (index : Nat) (sm : StackMap) (client : Client) :
    tableOf { sm, clients := buffers.clients.set index client } =
      (tableOf buffers).put index (lengthsOf sm) (fileOf client) := by
  rw [tableOf, Table.put, tableOf, List.map_set]

/-- One step of a client. -/
theorem run_client {buffers later : Buffers} {index : Nat} {action : ClientAction}
    (ran : run Buffers.step buffers [.client index action] = some later) :
    ∃ client sm client', buffers.clients[index]? = some client ∧
      client.step buffers.sm action = some (sm, client') ∧
      later = { sm, clients := buffers.clients.set index client' } := by
  rw [run_cons, Option.bind_eq_some_iff] at ran
  obtain ⟨next, stepped, isNext⟩ := ran
  obtain rfl := Option.some.inj isNext
  exact Buffers.step_client_cases stepped

/-- Two steps of one client. -/
theorem run_client_client {buffers later : Buffers} {index : Nat} {first second : ClientAction}
    (ran : run Buffers.step buffers [.client index first, .client index second] = some later) :
    ∃ client sm client' sm' client'', buffers.clients[index]? = some client ∧
      client.step buffers.sm first = some (sm, client') ∧
      client'.step sm second = some (sm', client'') ∧
      later = { sm := sm', clients := buffers.clients.set index client'' } := by
  rw [run_cons, Option.bind_eq_some_iff] at ran
  obtain ⟨next, firstStepped, ran⟩ := ran
  obtain ⟨client, sm, client', present, inner, rfl⟩ := Buffers.step_client_cases firstStepped
  obtain ⟨middle, sm', client'', isMiddle, inner', rfl⟩ := run_client ran
  have inside := (List.getElem?_eq_some_iff.mp present).1
  obtain rfl : client' = middle := by
    rw [List.getElem?_set_self inside] at isMiddle
    exact Option.some.inj isMiddle
  refine ⟨client, sm, client', sm', client'', present, inner, inner', ?_⟩
  rw [List.set_set]

/-- A client that has no more left than fits a word leaves the buffers addressable. -/
theorem Addressable.set {buffers : Buffers} (addressable : Addressable buffers) (index : Nat)
    (sm : StackMap) {client : Client} (fits : client.call.remaining.length < 2 ^ 64) :
    Addressable { sm, clients := buffers.clients.set index client } := by
  intro other isOther
  rcases List.mem_or_eq_of_mem_set isOther with before | rfl
  · exact addressable other before
  · exact fits

/-- An allocated file on the lengths. -/
theorem tableOf_opened (buffers : Buffers) (dest : Bytes) :
    tableOf (buffers.opened dest) = (tableOf buffers).opened := by
  have allocated := chunkAlloc_lengthsOf buffers.sm dest
  rw [Table.opened, tableOf, tableOf, Buffers.opened, allocated, List.map_append]
  rfl

/-- The bytes that an iteration copies. -/
theorem toWrite_lengthsOf {sm : StackMap} {file : BufferFile} {chunk : Chunk}
    (present : file.chunk? sm = some chunk) {str : Bytes} (fits : str.length < 2 ^ 64) :
    Table.toWrite (lengthsOf sm) file.cur (BitVec.ofNat 64 str.length) =
      BitVec.ofNat 64 (str.take (min chunk.room str.length)).length := by
  apply BitVec.eq_of_toNat_eq
  have atMost : (str.take (min chunk.room str.length)).length ≤ str.length := by
    rw [List.length_take]
    exact min_le_right _ _
  rw [toNat_toWrite, toNat_room_lengthsOf present, toNat_ofNat_of_lt fits,
    toNat_ofNat_of_lt (by omega), List.length_take]
  omega

/-- The bytes left behind an iteration, as an unsigned difference. -/
theorem ofNat_length_sub_take (str : Bytes) (count : Nat) :
    BitVec.ofNat 64 str.length - BitVec.ofNat 64 (str.take count).length =
      BitVec.ofNat 64 (str.drop count).length := by
  have parts : (str.take count).length + (str.drop count).length = str.length := by
    rw [← List.length_append, List.take_append_drop]
  rw [← parts, BitVec.ofNat_add, BitVec.add_comm, BitVec.add_sub_cancel]

/-- The loop goes on while bytes are left. -/
theorem loopOf_rest {rest : Bytes} (fits : rest.length < 2 ^ 64) :
    loopOf (if rest.length > 0 then .appending rest else .idle) =
      if BitVec.ofNat 64 rest.length > 0 then .append (BitVec.ofNat 64 rest.length)
      else .idle := by
  have same : BitVec.ofNat 64 rest.length > 0 ↔ rest.length > 0 := by
    rw [gt_iff_lt, BitVec.lt_def, toNat_ofNat_of_lt fits]
    rfl
  by_cases more : rest.length > 0
  · rw [if_pos more, if_pos (same.mpr more)]
    rfl
  · rw [if_neg more, if_neg fun isMore => more (same.mp isMore)]
    rfl

/-- A client with bytes that fit stores them. -/
theorem put_written {buffers : Buffers} {file : BufferFile} {chunk : Chunk}
    (present : file.chunk? buffers.sm = some chunk) {bytes : Bytes}
    (fits : bytes.length ≤ chunk.room) (index : Nat) (call : Call) :
    tableOf { sm := (replaceFull (buffers.sm.modify file.cur (·.write bytes)) file).1
              clients := buffers.clients.set index
                ⟨(replaceFull (buffers.sm.modify file.cur (·.write bytes)) file).2, call⟩ } =
      (tableOf buffers).put index
        (advance (tableOf buffers).lengths file.cur (BitVec.ofNat 64 bytes.length)).1
        ⟨(advance (tableOf buffers).lengths file.cur (BitVec.ofNat 64 bytes.length)).2,
          loopOf call⟩ := by
  rw [tableOf_set]
  change _ = (tableOf buffers).put index
    (advance (lengthsOf buffers.sm) file.cur (BitVec.ofNat 64 bytes.length)).1
    ⟨(advance (lengthsOf buffers.sm) file.cur (BitVec.ofNat 64 bytes.length)).2, loopOf call⟩
  rw [advance_lengthsOf present fits]
  rfl

/-- An iteration of `buffer_file_append` on the lengths. -/
theorem write_onLengths {buffers later : Buffers} {index : Nat} (addressable : Addressable buffers)
    (ran : run Buffers.step buffers (Iteration.steps (.write index)) = some later) :
    (tableOf buffers).step (Iteration.onLengths (.write index)) = some (tableOf later) ∧
      Addressable later := by
  obtain ⟨⟨file, call⟩, sm, client', sm', client'', isClient, copied, checked, rfl⟩ :=
    run_client_client ran
  cases call with
  | appending str =>
      cases present : file.chunk? buffers.sm with
      | none => simp [Client.step, present] at copied
      | some chunk =>
          simp only [Client.step, present, Option.some.injEq, Prod.mk.injEq] at copied
          obtain ⟨rfl, rfl⟩ := copied
          simp only [Client.step, Option.some.injEq, Prod.mk.injEq] at checked
          obtain ⟨rfl, rfl⟩ := checked
          have strFits : str.length < 2 ^ 64 := addressable _ (List.mem_of_getElem? isClient)
          have restFits : (str.drop (min chunk.room str.length)).length < 2 ^ 64 := by
            rw [List.length_drop]
            omega
          have bytesFit : (str.take (min chunk.room str.length)).length ≤ chunk.room := by
            rw [List.length_take]
            omega
          constructor
          · rw [put_written present bytesFit, loopOf_rest restFits, ← ofNat_length_sub_take,
              ← toWrite_lengthsOf present strFits]
            exact Table.writeIteration_of_append (getElem?_files isClient)
          · apply addressable.set
            split
            · exact restFits
            · exact Nat.two_pow_pos 64
  | _ => simp [Client.step] at copied

/-- The last iteration of `buffer_file_dump` on the lengths. -/
theorem readEnd_onLengths {buffers later : Buffers} {index : Nat} {result : Option Bytes}
    (addressable : Addressable buffers) (isEnd : result = none ∨ result = some [])
    (ran : run Buffers.step buffers [.client index (.read result)] = some later) :
    (tableOf buffers).step (Iteration.onLengths (.read index result)) = some (tableOf later) ∧
      Addressable later := by
  obtain ⟨⟨file, call⟩, sm, client', isClient, stepped, rfl⟩ := run_client ran
  cases call with
  | dumping =>
      cases present : file.chunk? buffers.sm with
      | none => rcases isEnd with rfl | rfl <;> simp [Client.step, present] at stepped
      | some chunk =>
          have isIdle : buffers.sm = sm ∧ (⟨file, .idle⟩ : Client) = client' := by
            rcases isEnd with rfl | rfl <;>
              simpa only [Client.step, present, Option.some.injEq, Prod.mk.injEq] using stepped
          obtain ⟨rfl, rfl⟩ := isIdle
          refine ⟨?_, addressable.set _ _ (Nat.two_pow_pos 64)⟩
          rw [tableOf_set, Iteration.onLengths, Table.step]
          apply Table.readIteration_of_end (getElem?_files isClient)
          rcases isEnd with rfl | rfl <;> simp
  | _ => simp [Client.step] at stepped

/-- An iteration of `buffer_file_dump` that reads some bytes, on the lengths. -/
theorem read_onLengths {buffers later : Buffers} {index : Nat} {byte : UInt8} {bytes : Bytes}
    (addressable : Addressable buffers)
    (ran : run Buffers.step buffers (Iteration.steps (.read index (some (byte :: bytes)))) =
      some later) :
    (tableOf buffers).step (Iteration.onLengths (.read index (some (byte :: bytes)))) =
        some (tableOf later) ∧
      Addressable later := by
  obtain ⟨⟨file, call⟩, sm, client', sm', client'', isClient, stored, checked, rfl⟩ :=
    run_client_client ran
  cases call with
  | dumping =>
      cases present : file.chunk? buffers.sm with
      | none => simp [Client.step, present] at stored
      | some chunk =>
          simp only [Client.step, present, Option.ite_none_right_eq_some, Option.some.injEq,
            Prod.mk.injEq] at stored
          obtain ⟨bytesFit, rfl, rfl⟩ := stored
          simp only [Client.step, Option.some.injEq, Prod.mk.injEq] at checked
          obtain ⟨rfl, rfl⟩ := checked
          refine ⟨?_, addressable.set _ _ (Nat.two_pow_pos 64)⟩
          have isCount : (BitVec.ofNat 64 (byte :: bytes).length).toNat =
              (byte :: bytes).length := by
            apply toNat_ofNat_of_lt
            have small : chunkPayload < 2 ^ 64 := by decide
            rw [Chunk.room] at bytesFit
            omega
          have notEnd : BitVec.ofNat 64 (byte :: bytes).length ≠ 0 := by
            intro isEnd
            rw [isEnd] at isCount
            exact Nat.succ_ne_zero _ isCount.symm
          have countFits : BitVec.ofNat 64 (byte :: bytes).length ≤
              room (tableOf buffers).lengths file.cur := by
            rw [BitVec.le_def, isCount]
            change _ ≤ (room (lengthsOf buffers.sm) file.cur).toNat
            rw [toNat_room_lengthsOf present]
            exact bytesFit
          rw [put_written present bytesFit]
          exact Table.readIteration_of_count (getElem?_files isClient) notEnd countFits
  | _ => simp [Client.step] at stored

/-- Every iteration of the buffers is one on their lengths. -/
theorem step_onLengths {buffers later : Buffers} (addressable : Addressable buffers)
    {iteration : Iteration} (fits : iteration.Addressable)
    (ran : run Buffers.step buffers iteration.steps = some later) :
    (tableOf buffers).step iteration.onLengths = some (tableOf later) ∧ Addressable later := by
  cases iteration with
  | new dest =>
      obtain rfl := Option.some.inj ran
      constructor
      · rw [tableOf_opened]
        rfl
      · intro client isClient
        rcases List.mem_append.mp isClient with before | isNew
        · exact addressable client before
        · rw [List.mem_singleton.mp isNew]
          exact Nat.two_pow_pos 64
  | append index str =>
      obtain ⟨⟨file, call⟩, sm, client', present, stepped, rfl⟩ := run_client ran
      cases call <;> simp only [Client.step, Option.some.injEq, Prod.mk.injEq,
        reduceCtorEq] at stepped
      obtain ⟨rfl, rfl⟩ := stepped
      refine ⟨?_, addressable.set _ _ fits⟩
      rw [tableOf_set]
      change (tableOf buffers).beginCall index _ = _
      rw [Table.beginCall, getElem?_files present]
      rfl
  | dump index =>
      obtain ⟨⟨file, call⟩, sm, client', present, stepped, rfl⟩ := run_client ran
      cases call <;> simp only [Client.step, Option.some.injEq, Prod.mk.injEq,
        reduceCtorEq] at stepped
      obtain ⟨rfl, rfl⟩ := stepped
      refine ⟨?_, addressable.set _ _ (Nat.two_pow_pos 64)⟩
      rw [tableOf_set]
      change (tableOf buffers).beginCall index _ = _
      rw [Table.beginCall, getElem?_files present]
      rfl
  | write index => exact write_onLengths addressable ran
  | read index result =>
      cases result with
      | none => exact readEnd_onLengths addressable (Or.inl rfl) ran
      | some bytes =>
          cases bytes with
          | nil => exact readEnd_onLengths addressable (Or.inr rfl) ran
          | cons byte bytes => exact read_onLengths addressable ran

/-- Every run of the buffers in whole iterations is a run on their lengths, so that what holds
between the iterations of the lengths holds of the chunks. -/
theorem run_onLengths {iterations : List Iteration} {buffers later : Buffers}
    (addressable : Addressable buffers)
    (fits : ∀ iteration ∈ iterations, iteration.Addressable)
    (ran : run Buffers.step buffers (iterations.flatMap Iteration.steps) = some later) :
    run Table.step (tableOf buffers) (iterations.map Iteration.onLengths) =
      some (tableOf later) := by
  induction iterations generalizing buffers with
  | nil =>
      obtain rfl := Option.some.inj ran
      rfl
  | cons iteration iterations inductionHypothesis =>
      rw [List.forall_mem_cons] at fits
      rw [List.flatMap_cons, run_append, Option.bind_eq_some_iff] at ran
      obtain ⟨next, first, rest⟩ := ran
      obtain ⟨stepped, nextAddressable⟩ := step_onLengths addressable fits.1 first
      rw [List.map_cons, run_cons, stepped, Option.bind_some]
      exact inductionHypothesis nextAddressable fits.2 rest

/-- Between two iterations every buffer file has a chunk with room. -/
theorem exists_room {iterations : List Iteration} {buffers : Buffers}
    (fits : ∀ iteration ∈ iterations, iteration.Addressable)
    (ran : run Buffers.step Buffers.init (iterations.flatMap Iteration.steps) = some buffers)
    {client : Client} (isClient : client ∈ buffers.clients) :
    ∃ chunk, client.file.chunk? buffers.sm = some chunk ∧ 0 < chunk.room := by
  have initially : Addressable Buffers.init := by
    rw [Addressable, Buffers.init]
    exact List.forall_mem_nil _
  have sound := Table.isSound_of_run (run_onLengths initially fits ran)
  obtain ⟨index, inside, rfl⟩ := List.mem_iff_getElem.mp isClient
  obtain ⟨length, here, hasRoom⟩ :=
    sound.current (getElem?_files (List.getElem?_eq_getElem inside))
  change (lengthsOf buffers.sm)[buffers.clients[index].file.cur]? = some length at here
  rw [lengthsOf, List.getElem?_map, Option.map_eq_some_iff] at here
  obtain ⟨chunk, isChunk, rfl⟩ := here
  refine ⟨chunk, isChunk, ?_⟩
  rw [toNat_lengthOf] at hasRoom
  exact Nat.sub_pos_of_lt hasRoom

end ChunkLengths
end Collector
end Bootchart
