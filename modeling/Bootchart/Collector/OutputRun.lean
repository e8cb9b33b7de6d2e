import Bootchart.Collector.OutputDump
import Mathlib.Algebra.BigOperators.Fin
import Mathlib.Algebra.Order.BigOperators.Group.Finset

/-!
# Interleaved runs of the output buffers

The buffer files of the collector are filled by two threads whose loops
interleave freely, and the collector may be stopped after any step. The
invariant of one buffer file is kept by the steps of its owner and, since the
names differ, by the steps of everybody else.
-/

namespace Bootchart
namespace Collector

open Library

/-- Distinct names, all short enough for the field `dest_stream`. -/
structure ValidNames (names : List Bytes) : Prop where
  /-- No two buffer files share a destination. -/
  distinct : names.Nodup
  /-- Every name is stored with its terminator. -/
  short : ∀ dest ∈ names, ShortName dest

/-- Names that were valid later were valid before. -/
theorem ValidNames.of_prefix
    {names later : List Bytes}
    (valid : ValidNames later)
    (before : names <+: later) :
    ValidNames names where
  distinct := valid.distinct.sublist before.sublist
  short := fun dest member => valid.short dest (before.subset member)

/-- The stream of a longer run. -/
theorem passed_snoc
    (index : Nat)
    (actions : List Action)
    (action : Action) :
    passed index (actions ++ [action]) =
      passed index actions ++ action.passed index := by
  simp [passed]

namespace Buffers

/-- A step of a thread changes its own buffer file and the shared table. -/
theorem step_client_cases
    {buffers next : Buffers}
    {index : Nat}
    {action : ClientAction}
    (stepped : buffers.step (.client index action) = some next) :
    ∃ client sm client', buffers.clients[index]? = some client ∧
      client.step buffers.sm action = some (sm, client') ∧
      next = { sm, clients := buffers.clients.set index client' } := by
  simp only [step, Option.bind_eq_some_iff, Option.map_eq_some_iff] at stepped
  obtain ⟨client, present, ⟨sm, client'⟩, inner, outcome⟩ := stepped
  exact ⟨client, sm, client', present, inner, outcome.symm⟩

end Buffers

/-- The check for a full chunk keeps the name. -/
@[simp] theorem dest_replaceFull (sm : StackMap) (file : BufferFile) :
    (replaceFull sm file).2.dest = file.dest := by
  unfold replaceFull
  split
  · rfl
  · split <;> rfl

/-- A step of a thread keeps the name of its buffer file. -/
theorem Client.dest_step
    {sm sm' : StackMap}
    {client client' : Client}
    {action : ClientAction}
    (stepped : client.step sm action = some (sm', client')) :
    client'.file.dest = client.file.dest := by
  rcases Client.step_cases stepped with
    ⟨_, _, _, _, _, same, _⟩ | ⟨_, same, _⟩ | ⟨replaced, _, _⟩
  · rw [same]
  · rw [same]
  · rw [show client'.file = (replaceFull sm client.file).2 from
      congrArg Prod.snd replaced, dest_replaceFull]

namespace Buffers

@[simp] theorem names_opened (buffers : Buffers) (dest : Bytes) :
    (buffers.opened dest).names = buffers.names ++ [dest] := by
  simp [names, opened, bufferFileNew]

/-- Names are only added, and only behind the others. -/
theorem names_step
    {buffers next : Buffers}
    {action : Action}
    (stepped : buffers.step action = some next) :
    buffers.names <+: next.names := by
  cases action with
  | new dest =>
      obtain rfl : buffers.opened dest = next := Option.some.inj stepped
      simp
  | client index action =>
      obtain ⟨client, sm, client', present, inner, rfl⟩ :=
        step_client_cases stepped
      obtain ⟨inside, rfl⟩ := List.getElem?_eq_some_iff.mp present
      have same : names { sm, clients := buffers.clients.set index client' } =
          buffers.names := by
        simp only [names, List.map_set, Client.dest_step inner]
        rw [← List.getElem_map (fun client : Client => client.file.dest)
          (h := by simpa using inside), List.set_getElem_self]
      rw [same]

end Buffers

/-- The state of the buffers after a run, seen from the streams. -/
structure Consistent (actions : List Action) (buffers : Buffers) : Prop where
  /-- Each stream is stored, apart from what its call in progress still holds. -/
  stored : ∀ index client, buffers.clients[index]? = some client →
    ∃ written, written ++ client.call.remaining = passed index actions ∧
      Stored buffers.sm client.file written
  /-- Every chunk is labelled with the name of a buffer file. -/
  labels : ∀ chunk ∈ buffers.sm.chunks, chunk.destStream ∈ buffers.names
  /-- Nothing was passed to buffer files that do not exist. -/
  unopened : ∀ index, buffers.clients.length ≤ index →
    passed index actions = []

/-- Buffer files at different positions have different names. -/
theorem ValidNames.dest_ne
    {buffers : Buffers}
    (valid : ValidNames buffers.names)
    {index other : Nat}
    {client otherClient : Client}
    (present : buffers.clients[index]? = some client)
    (presentOther : buffers.clients[other]? = some otherClient)
    (different : index ≠ other) :
    client.file.dest ≠ otherClient.file.dest := by
  intro same
  obtain ⟨inside, rfl⟩ := List.getElem?_eq_some_iff.mp present
  obtain ⟨insideOther, rfl⟩ := List.getElem?_eq_some_iff.mp presentOther
  have insideNames : index < buffers.names.length := by
    simpa [Buffers.names] using inside
  have insideOtherNames : other < buffers.names.length := by
    simpa [Buffers.names] using insideOther
  have sameName : buffers.names[index] = buffers.names[other] := by
    simpa [Buffers.names] using same
  exact different (valid.distinct.getElem_inj_iff.mp sameName)

/-- The name of a buffer file is in use. -/
theorem Buffers.dest_mem_names
    {buffers : Buffers}
    {index : Nat}
    {client : Client}
    (present : buffers.clients[index]? = some client) :
    client.file.dest ∈ buffers.names :=
  List.mem_map.mpr ⟨client, List.mem_of_getElem? present, rfl⟩

namespace Consistent

variable {actions : List Action} {buffers : Buffers}

/-- Nothing is stored before the first buffer file is created. -/
theorem initially : Consistent [] Buffers.init where
  stored := by simp [Buffers.init]
  labels := by simp [Buffers.init, StackMap.init]
  unopened := by simp [passed]

/-- Creating a buffer file keeps the buffers consistent. -/
theorem opened
    (consistent : Consistent actions buffers)
    {dest : Bytes}
    (valid : ValidNames (buffers.opened dest).names) :
    Consistent (actions ++ [.new dest]) (buffers.opened dest) := by
  rw [Buffers.names_opened] at valid
  have short : ShortName dest := valid.short dest (by simp)
  have unused : dest ∉ buffers.names := by
    intro member
    exact (List.nodup_append.mp valid.distinct).2.2 dest member dest
      (List.mem_singleton_self dest) rfl
  have unlabelled : ∀ chunk ∈ buffers.sm.chunks, chunk.destStream ≠ dest :=
    fun chunk member named => unused (named ▸ consistent.labels chunk member)
  have nothing : ∀ index, passed index (actions ++ [.new dest]) =
      passed index actions := by
    intro index
    rw [passed_snoc]
    exact List.append_nil _
  constructor
  · intro index client present
    rw [nothing]
    simp only [Buffers.opened, List.getElem?_append] at present
    split at present
    · obtain ⟨written, accounted, stored⟩ :=
        consistent.stored index client present
      refine ⟨written, accounted, stored.chunkAlloc_other ?_⟩
      rw [short.take_eq]
      rintro rfl
      exact unused (Buffers.dest_mem_names present)
    · rename_i outside
      simp only [List.getElem?_singleton] at present
      split at present
      · obtain rfl := Option.some.inj present
        have empty : dumped buffers.sm dest = [] :=
          labelled_eq_nil fun chunk member =>
            unlabelled chunk (List.mem_of_mem_take member)
        have none : owned buffers.sm dest = 0 := by
          rw [owned, List.countP_eq_zero]
          intro chunk member
          simpa using unlabelled chunk member
        refine ⟨[], ?_, Stored.of_chunkAlloc dest short ?_ ?_ ?_⟩
        · exact (consistent.unopened index (by omega)).symm
        · rw [empty]
        · rw [none]
          exact Nat.zero_le _
        · exact fun _ => ⟨empty, by simp [none]⟩
      · simp at present
  · intro chunk member
    rw [Buffers.names_opened]
    rcases StackMap.mem_chunkAlloc_label buffers.sm short member with
      named | ⟨original, old, sameLabel⟩
    · simp [named]
    · rw [← sameLabel]
      exact List.mem_append_left _ (consistent.labels original old)
  · intro index outside
    rw [nothing]
    apply consistent.unopened index
    simp only [Buffers.opened, List.length_append, List.length_singleton] at outside
    omega

end Consistent

/-- The copies of one thread do not touch the streams of the others. -/
theorem Client.step_stored_other
    {sm sm' : StackMap}
    {client client' : Client}
    {action : ClientAction}
    (stepped : client.step sm action = some (sm', client'))
    {own : Bytes}
    (storedOwn : Stored sm client.file own)
    (short : ShortName client.file.dest)
    {file : BufferFile}
    {written : Bytes}
    (stored : Stored sm file written)
    (different : client.file.dest ≠ file.dest) :
    Stored sm' file written := by
  rcases Client.step_cases stepped with
    ⟨bytes, _, _, _, rfl, _, _⟩ | ⟨rfl, _, _⟩ | ⟨replaced, _, _⟩
  · apply stored.modify_other (fun chunk => chunk.destStream_write bytes)
    intro inside
    obtain ⟨chunk, present, named, _⟩ := storedOwn.current inside
    exact ⟨chunk, present, named ▸ different⟩
  · exact stored
  · rw [show sm' = (replaceFull sm client.file).1 from
      congrArg Prod.fst replaced, replaceFull]
    split
    · exact stored
    · split
      · apply stored.chunkAlloc_other
        rw [short.take_eq]
        exact different
      · exact stored

/-- A step of a thread accounts for what the thread was given. -/
theorem Client.step_stored
    {sm sm' : StackMap}
    {client client' : Client}
    {action : ClientAction}
    (stepped : client.step sm action = some (sm', client'))
    (short : ShortName client.file.dest)
    {written given : Bytes}
    (accounted : written ++ client.call.remaining = given)
    (stored : Stored sm client.file written) :
    ∃ written', written' ++ client'.call.remaining = given ++ action.passed ∧
      Stored sm' client'.file written' := by
  subst accounted
  rcases Client.step_cases stepped with
    ⟨bytes, chunk, present, fitting, rfl, same, copied⟩ |
    ⟨rfl, same, taken⟩ | ⟨replaced, same, nothing⟩
  · refine ⟨written ++ bytes, ?_, ?_⟩
    · rw [List.append_assoc, ← copied, List.append_assoc]
    · rw [same]
      exact stored.write present fitting
  · refine ⟨written, ?_, same ▸ stored⟩
    rw [← taken, List.append_assoc]
  · refine ⟨written, ?_, ?_⟩
    · rw [same, nothing, List.append_nil]
    · obtain ⟨rfl, fileEquality⟩ := Prod.mk.inj replaced
      rw [fileEquality]
      exact stored.replaceFull short

/-- A step of a thread uses no labels but those in the table and its own. -/
theorem Client.step_label
    {sm sm' : StackMap}
    {client client' : Client}
    {action : ClientAction}
    (stepped : client.step sm action = some (sm', client'))
    (short : ShortName client.file.dest)
    {chunk : Chunk}
    (member : chunk ∈ sm'.chunks) :
    chunk.destStream = client.file.dest ∨
      ∃ original ∈ sm.chunks, original.destStream = chunk.destStream := by
  rcases Client.step_cases stepped with
    ⟨bytes, _, _, _, rfl, _, _⟩ | ⟨rfl, _, _⟩ | ⟨replaced, _, _⟩
  · obtain ⟨position, present⟩ := List.mem_iff_getElem?.mp member
    obtain ⟨original, presentOriginal, sameLabel⟩ :=
      exists_label_of_modify (fun chunk => chunk.destStream_write bytes) present
    exact Or.inr ⟨original, List.mem_of_getElem? presentOriginal, sameLabel⟩
  · exact Or.inr ⟨chunk, member, rfl⟩
  · rw [show sm' = (replaceFull sm client.file).1 from
      congrArg Prod.fst replaced, replaceFull] at member
    split at member
    · exact Or.inr ⟨chunk, member, rfl⟩
    · split at member
      · exact StackMap.mem_chunkAlloc_label sm short member
      · exact Or.inr ⟨chunk, member, rfl⟩

namespace Consistent

variable {actions : List Action} {buffers : Buffers}

/-- A step of a thread keeps the buffers consistent. -/
theorem client
    (consistent : Consistent actions buffers)
    (valid : ValidNames buffers.names)
    {index : Nat}
    {action : ClientAction}
    {next : Buffers}
    (stepped : buffers.step (.client index action) = some next) :
    Consistent (actions ++ [.client index action]) next := by
  have sameNames : next.names = buffers.names := by
    refine ((Buffers.names_step stepped).eq_of_length ?_).symm
    obtain ⟨_, _, _, _, _, rfl⟩ := Buffers.step_client_cases stepped
    simp [Buffers.names]
  obtain ⟨client, sm, client', present, inner, rfl⟩ :=
    Buffers.step_client_cases stepped
  have short := valid.short _ (Buffers.dest_mem_names present)
  obtain ⟨written, accounted, stored⟩ := consistent.stored index client present
  have inside := (List.getElem?_eq_some_iff.mp present).1
  constructor
  · intro other otherClient presentOther
    rw [passed_snoc]
    by_cases same : index = other
    · subst same
      rw [List.getElem?_set_self inside, Option.some.injEq] at presentOther
      subst presentOther
      simpa [Action.passed] using
        Client.step_stored inner short accounted stored
    · rw [List.getElem?_set_ne same] at presentOther
      obtain ⟨otherWritten, otherAccounted, otherStored⟩ :=
        consistent.stored other otherClient presentOther
      refine ⟨otherWritten, ?_, ?_⟩
      · simpa [Action.passed, same] using otherAccounted
      · exact Client.step_stored_other inner stored short otherStored
          (valid.dest_ne present presentOther same)
  · intro chunk member
    rw [sameNames]
    rcases Client.step_label inner short member with
      named | ⟨original, old, sameLabel⟩
    · rw [named]
      exact Buffers.dest_mem_names present
    · exact sameLabel ▸ consistent.labels original old
  · intro other outside
    rw [List.length_set] at outside
    have different : index ≠ other := by omega
    rw [passed_snoc, consistent.unopened other outside]
    simp [Action.passed, different]

/-- The buffers are consistent after every run. -/
theorem of_run
    (ran : run Buffers.step Buffers.init actions = some buffers)
    (valid : ValidNames buffers.names) :
    Consistent actions buffers := by
  refine run_induction
    (fun actions buffers => ValidNames buffers.names → Consistent actions buffers)
    (fun _ => initially) ?_ ran valid
  intro done state action next _ consistent stepped validNext
  have validState := validNext.of_prefix (Buffers.names_step stepped)
  cases action with
  | new dest =>
      obtain rfl : state.opened dest = next := Option.some.inj stepped
      exact (consistent validState).opened validNext
  | client index action => exact (consistent validState).client validState stepped

end Consistent

/-! ## The capacity of the table -/

/-- The chunks a stream of `count` bytes takes. -/
def neededChunks (count : Nat) : Nat :=
  count / chunkPayload + 1

/-- The chunks the streams of a run take together. -/
def totalChunks (actions : List Action) (buffers : Buffers) : Nat :=
  ∑ index ∈ Finset.range buffers.clients.length,
    neededChunks (passed index actions).length

/-- Every chunk is counted under its label. -/
theorem length_le_sum_owned
    {sm : StackMap}
    {names : List Bytes}
    (labels : ∀ chunk ∈ sm.chunks, chunk.destStream ∈ names) :
    sm.chunks.length ≤ (names.map (owned sm)).sum := by
  have count : ∀ chunks : List Chunk,
      (∀ chunk ∈ chunks, chunk.destStream ∈ names) →
      chunks.length ≤
        (names.map fun dest => chunks.countP (·.destStream = dest)).sum := by
    intro chunks
    induction chunks with
    | nil => simp
    | cons chunk chunks inductionHypothesis =>
        intro labels
        have one : 1 ≤ (names.map fun dest =>
            if chunk.destStream = dest then 1 else 0).sum :=
          List.single_le_sum (by simp) 1
            (List.mem_map.mpr ⟨chunk.destStream, labels chunk (by simp), by simp⟩)
        have rest := inductionHypothesis fun other member =>
          labels other (List.mem_cons_of_mem _ member)
        simp only [List.countP_cons, List.length_cons, decide_eq_true_eq,
          List.sum_map_add]
        omega
  exact count sm.chunks labels

namespace Consistent

variable {actions : List Action} {buffers : Buffers}

/-- The table holds no more chunks than the streams need. -/
theorem length_le_totalChunks
    (consistent : Consistent actions buffers) :
    buffers.sm.chunks.length ≤ totalChunks actions buffers := by
  apply (length_le_sum_owned consistent.labels).trans
  rw [Buffers.names, List.map_map, ← Fin.sum_univ_fun_getElem, totalChunks,
    Finset.sum_range]
  apply Finset.sum_le_sum
  intro index _
  obtain ⟨written, accounted, stored⟩ := consistent.stored index
    buffers.clients[index] (List.getElem?_eq_getElem index.isLt)
  apply stored.ownedBound.trans
  rw [neededChunks, ← accounted, List.length_append]
  gcongr
  omega

/-- While the table has not overflowed, the dump shows everything written. -/
theorem dumped_eq
    (consistent : Consistent actions buffers)
    (capacity : totalChunks actions buffers ≤ chunkSlots - 1)
    {index : Nat}
    {client : Client}
    (present : buffers.clients[index]? = some client) :
    dumped buffers.sm client.file.dest ++ client.call.remaining =
      passed index actions := by
  obtain ⟨written, accounted, stored⟩ := consistent.stored index client present
  have bound := consistent.length_le_totalChunks
  have valid := stored.valid
  rw [stored.complete (by omega), accounted]

end Consistent

/-! ## Completed calls -/

/-- A step of a thread copies some bytes and keeps the rest for later. -/
theorem Client.step_copies
    {sm sm' : StackMap}
    {client client' : Client}
    {action : ClientAction}
    (stepped : client.step sm action = some (sm', client')) :
    ∃ bytes, client.call.remaining ++ action.passed =
      bytes ++ client'.call.remaining := by
  rcases Client.step_cases stepped with
    ⟨bytes, _, _, _, _, _, copied⟩ | ⟨_, _, taken⟩ | ⟨_, same, nothing⟩
  · exact ⟨bytes, copied⟩
  · exact ⟨[], taken⟩
  · exact ⟨[], by simp [same, nothing]⟩

/-- What the owner of a buffer file had copied stays copied, and the buffer
file stays where it is, whatever anybody does next. -/
theorem Buffers.step_copies
    {buffers next : Buffers}
    {action : Action}
    (stepped : buffers.step action = some next)
    {index : Nat}
    {client : Client}
    (present : buffers.clients[index]? = some client) :
    ∃ client' bytes, next.clients[index]? = some client' ∧
      client'.file.dest = client.file.dest ∧
      client.call.remaining ++ action.passed index =
        bytes ++ client'.call.remaining := by
  have inside := (List.getElem?_eq_some_iff.mp present).1
  cases action with
  | new dest =>
      obtain rfl : buffers.opened dest = next := Option.some.inj stepped
      refine ⟨client, [], ?_, rfl, List.append_nil _⟩
      simpa [opened, List.getElem?_append_left inside] using present
  | client owner action =>
      obtain ⟨stepping, sm, client', presentOwner, inner, rfl⟩ :=
        step_client_cases stepped
      by_cases same : owner = index
      · subst same
        obtain rfl : client = stepping :=
          Option.some.inj (present.symm.trans presentOwner)
        obtain ⟨bytes, copied⟩ := Client.step_copies inner
        refine ⟨client', bytes, List.getElem?_set_self inside,
          Client.dest_step inner, ?_⟩
        simpa [Action.passed] using copied
      · refine ⟨client, [], ?_, rfl, by simp [Action.passed, same]⟩
        rw [List.getElem?_set_ne same]
        exact present

/-- The bytes passed to a buffer file up to the end of one of its calls are
among those its thread has written at any later time. -/
theorem passed_prefix_of_idle
    {first second : List Action}
    {middle finish : Buffers}
    (ran : run Buffers.step middle second = some finish)
    {index : Nat}
    {before : Client}
    (present : middle.clients[index]? = some before)
    (idle : before.call = .idle) :
    ∃ behind written, finish.clients[index]? = some behind ∧
      behind.file.dest = before.file.dest ∧
      written ++ behind.call.remaining = passed index (first ++ second) ∧
      passed index first <+: written := by
  refine run_induction
    (fun done state => ∃ behind written,
      state.clients[index]? = some behind ∧
      behind.file.dest = before.file.dest ∧
      written ++ behind.call.remaining = passed index (first ++ done) ∧
      passed index first <+: written)
    ⟨before, passed index first, present, rfl, ?_, List.prefix_rfl⟩ ?_ ran
  · simp [idle, Call.remaining]
  · rintro done state action next - ⟨client, written, at_, named, accounted, grown⟩ stepped
    obtain ⟨client', bytes, at', named', copied⟩ :=
      Buffers.step_copies stepped at_
    refine ⟨client', written ++ bytes, at', named'.trans named, ?_,
      grown.trans (List.prefix_append _ _)⟩
    rw [← List.append_assoc, passed_snoc, ← accounted, List.append_assoc,
      ← copied, List.append_assoc]

/-! ## The dump -/

/-- Whenever the collector is stopped, the dump writes for each destination a
prefix of the stream passed to it. As long as the streams need no more chunks
than the dump reads, that prefix contains the bytes of every completed call: of
all calls made up to a moment at which the buffer file was idle. -/
theorem dumpBuffers_prefix
    {actions : List Action}
    {buffers : Buffers}
    (ran : run Buffers.step Buffers.init actions = some buffers)
    (valid : ValidNames buffers.names)
    {index : Nat}
    {client : Client}
    (present : buffers.clients[index]? = some client) :
    dumpBuffers buffers.sm (fun _ => []) client.file.dest <+:
        passed index actions ∧
      (totalChunks actions buffers ≤ chunkSlots - 1 →
        ∀ first second middle before,
          actions = first ++ second →
          run Buffers.step Buffers.init first = some middle →
          middle.clients[index]? = some before →
          before.call = .idle →
          passed index first <+:
            dumpBuffers buffers.sm (fun _ => []) client.file.dest) := by
  have consistent := Consistent.of_run ran valid
  rw [dumpBuffers_eq, List.nil_append]
  constructor
  · obtain ⟨written, accounted, stored⟩ := consistent.stored index client present
    rw [← accounted]
    exact stored.dumpedPrefix.trans (List.prefix_append _ _)
  · rintro capacity first second middle before rfl ranFirst presentBefore idle
    rw [run_append, ranFirst, Option.bind_some] at ran
    obtain ⟨behind, written, presentBehind, -, accounted, grown⟩ :=
      passed_prefix_of_idle ran presentBefore idle
    obtain rfl : client = behind :=
      Option.some.inj (present.symm.trans presentBehind)
    have shown := consistent.dumped_eq capacity present
    rw [← accounted] at shown
    rw [List.append_cancel_right shown]
    exact grown

/-- Two threads, the second in the middle of its copy loop. -/
def interleaved : List Action :=
  [.new [97], .new [98], .client 0 (.append [1, 2]), .client 1 .dump,
    .client 0 .copy, .client 1 (.read (some [7])), .client 0 .check]

theorem isSome_run_interleaved :
    (run Buffers.step Buffers.init interleaved).isSome := by
  decide +kernel

/-- The buffers after the two threads were stopped. -/
def interleavedBuffers : Buffers :=
  (run Buffers.step Buffers.init interleaved).get isSome_run_interleaved

/-- The first thread has completed its call, so the dump shows its stream. -/
theorem dumpBuffers_prefix_interleaved :
    dumpBuffers interleavedBuffers.sm (fun _ => []) [97] <+:
        passed 0 interleaved ∧
      passed 0 interleaved <+:
        dumpBuffers interleavedBuffers.sm (fun _ => []) [97] := by
  have ran : run Buffers.step Buffers.init interleaved =
      some interleavedBuffers :=
    (Option.some_get isSome_run_interleaved).symm
  have present : interleavedBuffers.clients[0]? =
      some { file := { dest := [97], cur := 0 }, call := .idle } := rfl
  have valid : ValidNames interleavedBuffers.names :=
    ⟨by decide +kernel, by decide +kernel⟩
  obtain ⟨prefixed, completed⟩ := dumpBuffers_prefix ran valid present
  exact ⟨prefixed, completed (by decide +kernel) interleaved []
    interleavedBuffers _ rfl ran present rfl⟩

end Collector
end Bootchart
