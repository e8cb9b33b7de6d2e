import Bootchart.Collector.Output
import Mathlib.Data.List.Count
import Mathlib.Tactic.Ring

/-!
# What a second process reads out of the buffers

The invariant behind the dump says, for each buffer file, how the bytes copied
so far lie in the table. While the current chunk is not the last slot, the
chunks labelled with the name hold exactly those bytes, the current chunk is the
last of them, and all before it are full. Once the current chunk is the last
slot, which the dump discards, the dumped part no longer changes.
-/

namespace Bootchart
namespace Collector

/-- The data of the chunks that carry one label, in the order of the list. -/
def labelled (dest : Bytes) (chunks : List Chunk) : Bytes :=
  (chunks.filter (·.destStream = dest)).flatMap (·.data)

@[simp] theorem labelled_nil (dest : Bytes) : labelled dest [] = [] := rfl

@[simp] theorem labelled_append
    (dest : Bytes)
    (first second : List Chunk) :
    labelled dest (first ++ second) =
      labelled dest first ++ labelled dest second := by
  simp [labelled]

theorem labelled_cons
    (dest : Bytes)
    (chunk : Chunk)
    (chunks : List Chunk) :
    labelled dest (chunk :: chunks) =
      (if chunk.destStream = dest then chunk.data else []) ++
        labelled dest chunks := by
  by_cases named : chunk.destStream = dest <;> simp [labelled, named]

/-- Chunks with other labels do not contribute. -/
theorem labelled_eq_nil
    {dest : Bytes}
    {chunks : List Chunk}
    (absent : ∀ chunk ∈ chunks, chunk.destStream ≠ dest) :
    labelled dest chunks = [] := by
  have filtered : chunks.filter (·.destStream = dest) = [] := by
    rw [List.filter_eq_nil_iff]
    intro chunk member
    simpa using absent chunk member
  simp [labelled, filtered]

/-- The part of one stream that the dump writes out. -/
def dumped (sm : StackMap) (dest : Bytes) : Bytes :=
  labelled dest (sm.chunks.take (chunkSlots - 1))

/-- `dump_buffers` appends to each file the chunks labelled with its name. -/
theorem dumpBuffers_eq
    (sm : StackMap)
    (files : Bytes → Bytes)
    (dest : Bytes) :
    dumpBuffers sm files dest = files dest ++ dumped sm dest := by
  have loop : ∀ (chunks : List Chunk) (files : Bytes → Bytes),
      chunks.foldl (fun files chunk =>
        Function.update files chunk.destStream
          (files chunk.destStream ++ chunk.data)) files dest =
        files dest ++ labelled dest chunks := by
    intro chunks
    induction chunks with
    | nil => simp
    | cons chunk chunks inductionHypothesis =>
        intro files
        rw [List.foldl_cons, inductionHypothesis, labelled_cons]
        by_cases named : chunk.destStream = dest
        · subst named
          simp
        · simp [named, Function.update_of_ne (Ne.symm named)]
  have taken : sm.chunks.take (dumpedChunks sm) =
      sm.chunks.take (chunkSlots - 1) := by
    rw [dumpedChunks, Nat.min_comm, ← List.take_eq_take_min]
  rw [dumpBuffers, loop, taken, dumped]

/-- The number of chunks with one label. -/
def owned (sm : StackMap) (dest : Bytes) : Nat :=
  sm.chunks.countP (·.destStream = dest)

/-! ## Changes of a single slot -/

/-- A changed slot splits the table around it. -/
theorem modify_eq_of_getElem?
    {chunks : List Chunk}
    {slot : Nat}
    {chunk : Chunk}
    (present : chunks[slot]? = some chunk)
    (change : Chunk → Chunk) :
    ∃ before behind, chunks = before ++ chunk :: behind ∧
      before.length = slot ∧
      chunks.modify slot change = before ++ change chunk :: behind := by
  obtain ⟨inside, rfl⟩ := List.getElem?_eq_some_iff.mp present
  refine ⟨chunks.take slot, chunks.drop (slot + 1), ?_, ?_, ?_⟩
  · simp
  · simp only [List.length_take]
    omega
  · rw [List.modify_eq_take_cons_drop inside]

/-- Changes that keep the labels keep the number of chunks of each label. -/
theorem owned_modify
    (sm : StackMap)
    (slot : Nat)
    (change : Chunk → Chunk)
    (keeps : ∀ chunk, (change chunk).destStream = chunk.destStream)
    (dest : Bytes) :
    owned (sm.modify slot change) dest = owned sm dest := by
  cases present : sm.chunks[slot]? with
  | none =>
      have outside := List.getElem?_eq_none_iff.mp present
      simp [owned, List.modify_eq_self outside]
  | some chunk =>
      obtain ⟨before, behind, split, _, modified⟩ :=
        modify_eq_of_getElem? present change
      simp only [owned, StackMap.chunks_modify, modified]
      rw [split]
      simp only [List.countP_append, List.countP_cons, keeps]

/-- Changes that keep the labels keep the label in every slot. -/
theorem exists_label_of_modify
    {chunks : List Chunk}
    {slot position : Nat}
    {change : Chunk → Chunk}
    (keeps : ∀ chunk, (change chunk).destStream = chunk.destStream)
    {chunk : Chunk}
    (present : (chunks.modify slot change)[position]? = some chunk) :
    ∃ original, chunks[position]? = some original ∧
      original.destStream = chunk.destStream := by
  rw [List.getElem?_modify, Option.map_eq_map, Option.map_eq_some_iff] at present
  obtain ⟨original, presentOriginal, changed⟩ := present
  refine ⟨original, presentOriginal, ?_⟩
  rw [← changed]
  split <;> simp [keeps]

/-- Changing the discarded slot does not show in a dump. -/
theorem dumped_modify_last
    (sm : StackMap)
    {slot : Nat}
    (discarded : chunkSlots - 1 ≤ slot)
    (change : Chunk → Chunk)
    (dest : Bytes) :
    dumped (sm.modify slot change) dest = dumped sm dest := by
  rw [dumped, StackMap.chunks_modify, List.take_modify,
    List.modify_eq_self, dumped]
  simp only [List.length_take]
  omega

/-- Changing a chunk with another label does not show in a dump. -/
theorem dumped_modify_other
    (sm : StackMap)
    {slot : Nat}
    {chunk : Chunk}
    (present : sm.chunks[slot]? = some chunk)
    (change : Chunk → Chunk)
    (keeps : (change chunk).destStream = chunk.destStream)
    {dest : Bytes}
    (other : chunk.destStream ≠ dest) :
    dumped (sm.modify slot change) dest = dumped sm dest := by
  obtain ⟨before, behind, split, _, modified⟩ :=
    modify_eq_of_getElem? present change
  rw [dumped, dumped, StackMap.chunks_modify, modified, split]
  simp only [List.take_append, labelled_append]
  congr 1
  cases chunkSlots - 1 - before.length with
  | zero => rfl
  | succ left => simp [labelled_cons, keeps, other]

/-- Bytes written to the last chunk of a label end up behind its stream. -/
theorem dumped_write
    (sm : StackMap)
    {slot : Nat}
    {chunk : Chunk}
    (present : sm.chunks[slot]? = some chunk)
    (kept : slot < chunkSlots - 1)
    (last : ∀ later other, sm.chunks[later]? = some other →
      other.destStream = chunk.destStream → later ≤ slot)
    {bytes : Bytes}
    (fitting : bytes.length ≤ chunk.room) :
    dumped (sm.modify slot (·.write bytes)) chunk.destStream =
      dumped sm chunk.destStream ++ bytes := by
  obtain ⟨before, behind, split, position, modified⟩ :=
    modify_eq_of_getElem? present (·.write bytes)
  have behindOther : ∀ other ∈ behind,
      other.destStream ≠ chunk.destStream := by
    intro other member named
    obtain ⟨offset, found⟩ := List.mem_iff_getElem?.mp member
    have placed : sm.chunks[slot + 1 + offset]? = some other := by
      rw [split, List.getElem?_append_right (by omega)]
      rw [show slot + 1 + offset - before.length = offset + 1 by omega]
      simpa using found
    have := last _ other placed named
    omega
  have behindTaken : ∀ count, labelled chunk.destStream (behind.take count) = [] :=
    fun count => labelled_eq_nil fun other member =>
      behindOther other (List.mem_of_mem_take member)
  obtain ⟨left, leftEquality⟩ : ∃ left,
      chunkSlots - 1 - before.length = left + 1 :=
    ⟨chunkSlots - 1 - before.length - 1, by omega⟩
  rw [dumped, dumped, StackMap.chunks_modify, modified, split]
  simp only [List.take_append, labelled_append, leftEquality,
    List.take_succ_cons, labelled_cons, Chunk.destStream_write, if_true,
    behindTaken, List.append_nil, Chunk.data_write _ _ fitting,
    List.append_assoc]

/-! ## The invariant of one buffer file -/

/-- How the bytes copied for one buffer file lie in the table. -/
structure Stored (sm : StackMap) (file : BufferFile) (written : Bytes) : Prop where
  /-- The current chunk exists. -/
  valid : file.cur < sm.chunks.length
  /-- The dump shows no more than was written. -/
  dumpedPrefix : dumped sm file.dest <+: written
  /-- Chunks are requested only when the earlier ones are full. -/
  ownedBound : owned sm file.dest ≤ written.length / chunkPayload + 1
  /-- Before the overflow reaches the file, the dump shows everything. -/
  complete : file.cur < chunkSlots - 1 → dumped sm file.dest = written
  /-- Before the overflow reaches the file, the current chunk is its own and
  all its other chunks are full. -/
  current : file.cur < chunkSlots - 1 →
    ∃ chunk, sm.chunks[file.cur]? = some chunk ∧
      chunk.destStream = file.dest ∧
      written.length + chunkPayload =
        owned sm file.dest * chunkPayload + chunk.data.length
  /-- Before the overflow reaches the file, its current chunk is its last. -/
  last : file.cur < chunkSlots - 1 →
    ∀ slot chunk, sm.chunks[slot]? = some chunk →
      chunk.destStream = file.dest → slot ≤ file.cur

namespace Stored

variable {sm : StackMap} {file : BufferFile} {written : Bytes}

/-- The invariant survives a change of a chunk that is discarded by the dump or
labelled otherwise. -/
theorem modify_other
    (stored : Stored sm file written)
    {slot : Nat}
    {change : Chunk → Chunk}
    (keeps : ∀ chunk, (change chunk).destStream = chunk.destStream)
    (foreign : slot < chunkSlots - 1 →
      ∃ chunk, sm.chunks[slot]? = some chunk ∧ chunk.destStream ≠ file.dest) :
    Stored (sm.modify slot change) file written := by
  have sameDump : dumped (sm.modify slot change) file.dest =
      dumped sm file.dest := by
    by_cases kept : slot < chunkSlots - 1
    · obtain ⟨chunk, present, other⟩ := foreign kept
      exact dumped_modify_other sm present change (keeps chunk) other
    · exact dumped_modify_last sm (by omega) change file.dest
  have sameOwned := owned_modify sm slot change keeps file.dest
  constructor
  · simpa using stored.valid
  · rw [sameDump]
    exact stored.dumpedPrefix
  · rw [sameOwned]
    exact stored.ownedBound
  · rw [sameDump]
    exact stored.complete
  · intro inside
    obtain ⟨chunk, present, named, filled⟩ := stored.current inside
    have different : slot ≠ file.cur := by
      rintro rfl
      obtain ⟨found, presentFound, other⟩ := foreign inside
      rw [present, Option.some.injEq] at presentFound
      exact other (presentFound ▸ named)
    refine ⟨chunk, ?_, named, ?_⟩
    · simpa [List.getElem?_modify, different] using present
    · rw [sameOwned]
      exact filled
  · intro inside position chunk present named
    obtain ⟨original, presentOriginal, sameLabel⟩ :=
      exists_label_of_modify keeps present
    exact stored.last inside position original presentOriginal
      (sameLabel.trans named)

/-- The invariant follows the owner's copy into its current chunk. -/
theorem write
    (stored : Stored sm file written)
    {chunk : Chunk}
    (present : file.chunk? sm = some chunk)
    {bytes : Bytes}
    (fitting : bytes.length ≤ chunk.room) :
    Stored (sm.modify file.cur (·.write bytes)) file (written ++ bytes) := by
  have sameOwned := owned_modify sm file.cur (·.write bytes)
    (fun chunk => chunk.destStream_write bytes) file.dest
  have grown : file.cur < chunkSlots - 1 →
      dumped (sm.modify file.cur (·.write bytes)) file.dest =
        written ++ bytes := by
    intro inside
    obtain ⟨own, presentOwn, named, _⟩ := stored.current inside
    obtain rfl : chunk = own := by
      rw [BufferFile.chunk?, presentOwn] at present
      exact (Option.some.inj present).symm
    rw [← named, dumped_write sm presentOwn inside
      (by simpa only [named] using stored.last inside) fitting, named,
      stored.complete inside]
  constructor
  · simpa using stored.valid
  · by_cases inside : file.cur < chunkSlots - 1
    · rw [grown inside]
    · rw [dumped_modify_last sm (by omega)]
      exact stored.dumpedPrefix.trans (List.prefix_append _ _)
  · rw [sameOwned]
    apply stored.ownedBound.trans
    gcongr
    simp
  · exact grown
  · intro inside
    obtain ⟨own, presentOwn, named, filled⟩ := stored.current inside
    obtain rfl : chunk = own := by
      rw [BufferFile.chunk?, presentOwn] at present
      exact (Option.some.inj present).symm
    refine ⟨chunk.write bytes, ?_, named, ?_⟩
    · simp [presentOwn]
    · rw [sameOwned, chunk.data_write bytes fitting]
      simp only [List.length_append]
      omega
  · intro inside position other presentOther namedOther
    obtain ⟨original, presentOriginal, sameLabel⟩ :=
      exists_label_of_modify (fun chunk => chunk.destStream_write bytes)
        presentOther
    exact stored.last inside position original presentOriginal
      (sameLabel.trans namedOther)

end Stored

/-! ## Allocation -/

/-- Names that `strncpy` copies with their terminator. -/
def ShortName (dest : Bytes) : Prop :=
  dest.length < destStreamSize

instance : DecidablePred ShortName :=
  fun dest => inferInstanceAs (Decidable (dest.length < destStreamSize))

/-- A short name is copied whole. -/
theorem ShortName.take_eq
    {dest : Bytes}
    (short : ShortName dest) :
    dest.take destStreamSize = dest :=
  List.take_of_length_le (Nat.le_of_lt short)

namespace StackMap

/-- On overflow the last slot is reset and shared. -/
theorem chunkAlloc_of_full
    (sm : StackMap)
    (dest : Bytes)
    (full : sm.chunks.length = chunkSlots) :
    sm.chunkAlloc dest =
      (sm.modify (chunkSlots - 1) Chunk.reset, chunkSlots - 1) := by
  rw [chunkAlloc, dif_pos full]

/-- Before the overflow a fresh chunk is appended. -/
theorem chunks_chunkAlloc_of_not_full
    (sm : StackMap)
    (dest : Bytes)
    (room : sm.chunks.length ≠ chunkSlots) :
    (sm.chunkAlloc dest).1.chunks = sm.chunks ++ [Chunk.fresh dest] ∧
      (sm.chunkAlloc dest).2 = sm.chunks.length := by
  rw [chunkAlloc, dif_neg room]
  exact ⟨rfl, rfl⟩

/-- The slot returned by an allocation exists. -/
theorem chunkAlloc_slot_lt (sm : StackMap) (dest : Bytes) :
    (sm.chunkAlloc dest).2 < (sm.chunkAlloc dest).1.chunks.length := by
  by_cases full : sm.chunks.length = chunkSlots
  · rw [chunkAlloc_of_full sm dest full]
    simp only [chunks_modify, List.length_modify, full]
    exact Nat.sub_lt chunkSlots_pos Nat.one_pos
  · obtain ⟨chunks, slot⟩ := chunks_chunkAlloc_of_not_full sm dest full
    simp [chunks, slot]

/-- An allocation does not change what the dump shows. -/
theorem dumped_chunkAlloc (sm : StackMap) (dest other : Bytes) :
    dumped (sm.chunkAlloc dest).1 other = dumped sm other := by
  by_cases full : sm.chunks.length = chunkSlots
  · rw [chunkAlloc_of_full sm dest full]
    exact dumped_modify_last sm (Nat.le_refl _) Chunk.reset other
  · rw [dumped, dumped, (chunks_chunkAlloc_of_not_full sm dest full).1,
      List.take_append, labelled_append]
    have fresh : labelled other
        ([Chunk.fresh dest].take (chunkSlots - 1 - sm.chunks.length)) = [] := by
      cases chunkSlots - 1 - sm.chunks.length with
      | zero => rfl
      | succ count =>
          simp only [List.take_succ_cons, List.take_nil, labelled_cons,
            Chunk.data_fresh, labelled_nil, List.append_nil]
          split <;> rfl
    rw [fresh, List.append_nil]

/-- An allocation under one label leaves the number of chunks of the other
labels alone. -/
theorem owned_chunkAlloc_other
    (sm : StackMap)
    {dest other : Bytes}
    (different : dest.take destStreamSize ≠ other) :
    owned (sm.chunkAlloc dest).1 other = owned sm other := by
  by_cases full : sm.chunks.length = chunkSlots
  · rw [chunkAlloc_of_full sm dest full]
    exact owned_modify sm _ Chunk.reset Chunk.destStream_reset other
  · rw [owned, owned, (chunks_chunkAlloc_of_not_full sm dest full).1]
    simp [different]

/-- The labels after an allocation. -/
theorem mem_chunkAlloc_label
    (sm : StackMap)
    {dest : Bytes}
    (short : ShortName dest)
    {chunk : Chunk}
    (member : chunk ∈ (sm.chunkAlloc dest).1.chunks) :
    chunk.destStream = dest ∨
      ∃ original ∈ sm.chunks, original.destStream = chunk.destStream := by
  by_cases full : sm.chunks.length = chunkSlots
  · rw [chunkAlloc_of_full sm dest full] at member
    obtain ⟨position, present⟩ := List.mem_iff_getElem?.mp member
    obtain ⟨original, presentOriginal, sameLabel⟩ :=
      exists_label_of_modify Chunk.destStream_reset present
    exact Or.inr ⟨original, List.mem_of_getElem? presentOriginal, sameLabel⟩
  · rw [(chunks_chunkAlloc_of_not_full sm dest full).1, List.mem_append] at member
    rcases member with old | new
    · exact Or.inr ⟨chunk, old, rfl⟩
    · obtain rfl := List.mem_singleton.mp new
      exact Or.inl (by simp [short.take_eq])

end StackMap

namespace Stored

variable {sm : StackMap} {file : BufferFile} {written : Bytes}

/-- The invariant survives an allocation for another buffer file. -/
theorem chunkAlloc_other
    (stored : Stored sm file written)
    {dest : Bytes}
    (different : dest.take destStreamSize ≠ file.dest) :
    Stored (sm.chunkAlloc dest).1 file written := by
  by_cases full : sm.chunks.length = chunkSlots
  · rw [StackMap.chunkAlloc_of_full sm dest full]
    exact stored.modify_other Chunk.destStream_reset fun inside =>
      absurd inside (Nat.lt_irrefl _)
  · obtain ⟨chunks, -⟩ := StackMap.chunks_chunkAlloc_of_not_full sm dest full
    have sameDump := StackMap.dumped_chunkAlloc sm dest file.dest
    have sameOwned := StackMap.owned_chunkAlloc_other sm different
    constructor
    · rw [chunks, List.length_append]
      exact Nat.lt_add_right _ stored.valid
    · rw [sameDump]
      exact stored.dumpedPrefix
    · rw [sameOwned]
      exact stored.ownedBound
    · rw [sameDump]
      exact stored.complete
    · intro inside
      rw [sameOwned, chunks, List.getElem?_append_left stored.valid]
      exact stored.current inside
    · intro inside position chunk present named
      rw [chunks, List.getElem?_append] at present
      split at present
      · exact stored.last inside position chunk present named
      · simp only [List.getElem?_singleton] at present
        split at present
        · obtain rfl := Option.some.inj present
          exact absurd named different
        · simp at present

/-- The invariant of a file that was just given a chunk, when all its earlier
chunks are full and it requested one more than it has. -/
theorem of_chunkAlloc
    (dest : Bytes)
    (short : ShortName dest)
    (prefixed : dumped sm dest <+: written)
    (bound : owned sm dest ≤ written.length / chunkPayload + 1)
    (exact : sm.chunks.length ≠ chunkSlots →
      dumped sm dest = written ∧
        written.length = owned sm dest * chunkPayload) :
    Stored (sm.chunkAlloc dest).1 { dest, cur := (sm.chunkAlloc dest).2 }
      written := by
  have sameDump := StackMap.dumped_chunkAlloc sm dest dest
  by_cases full : sm.chunks.length = chunkSlots
  · have slot : (sm.chunkAlloc dest).2 = chunkSlots - 1 := by
      rw [StackMap.chunkAlloc_of_full sm dest full]
    have outside : ¬(sm.chunkAlloc dest).2 < chunkSlots - 1 := by
      rw [slot]
      exact Nat.lt_irrefl _
    constructor
    · exact StackMap.chunkAlloc_slot_lt sm dest
    · rw [sameDump]
      exact prefixed
    · rw [StackMap.chunkAlloc_of_full sm dest full,
        owned_modify sm _ Chunk.reset Chunk.destStream_reset]
      exact bound
    · exact fun inside => absurd inside outside
    · exact fun inside => absurd inside outside
    · exact fun inside => absurd inside outside
  · obtain ⟨complete, filled⟩ := exact full
    obtain ⟨chunks, slot⟩ := StackMap.chunks_chunkAlloc_of_not_full sm dest full
    have oneMore : owned (sm.chunkAlloc dest).1 dest = owned sm dest + 1 := by
      simp [owned, chunks, short.take_eq]
    constructor
    · exact StackMap.chunkAlloc_slot_lt sm dest
    · rw [sameDump]
      exact prefixed
    · rw [oneMore, filled, Nat.mul_div_cancel _ chunkPayload_pos]
    · exact fun _ => sameDump.trans complete
    · intro _
      refine ⟨Chunk.fresh dest, ?_, short.take_eq, ?_⟩
      · simp [chunks, slot]
      · rw [oneMore, filled, Chunk.data_fresh, List.length_nil]
        ring
    · intro _ position chunk present _
      have inside := (List.getElem?_eq_some_iff.mp present).1
      rw [chunks, List.length_append, List.length_singleton] at inside
      change position ≤ (sm.chunkAlloc dest).2
      omega

/-- The invariant survives the owner's check for a full chunk. -/
theorem replaceFull
    (stored : Stored sm file written)
    (short : ShortName file.dest) :
    Stored (Collector.replaceFull sm file).1 (Collector.replaceFull sm file).2
      written := by
  unfold Collector.replaceFull
  split
  · exact stored
  · rename_i chunk present
    split
    · rename_i fullChunk
      refine of_chunkAlloc file.dest short stored.dumpedPrefix
        stored.ownedBound ?_
      intro room
      have inside : file.cur < chunkSlots - 1 := by
        have valid := stored.valid
        have bound := sm.bounded
        omega
      obtain ⟨own, presentOwn, _, filled⟩ := stored.current inside
      obtain rfl : chunk = own := by
        rw [BufferFile.chunk?, presentOwn] at present
        exact (Option.some.inj present).symm
      have fits := chunk.fits
      exact ⟨stored.complete inside, by omega⟩
    · exact stored

end Stored

/-! ## Steps of one thread -/

/-- A step of a thread either copies bytes into its current chunk, or only
changes what it is about to do, or checks for a full chunk. In each case the
bytes copied and the bytes remaining account for what it was given. -/
theorem Client.step_cases
    {sm sm' : StackMap}
    {client client' : Client}
    {action : ClientAction}
    (stepped : client.step sm action = some (sm', client')) :
    (∃ bytes chunk, client.file.chunk? sm = some chunk ∧
      bytes.length ≤ chunk.room ∧
      sm' = sm.modify client.file.cur (·.write bytes) ∧
      client'.file = client.file ∧
      client.call.remaining ++ action.passed =
        bytes ++ client'.call.remaining) ∨
    (sm' = sm ∧ client'.file = client.file ∧
      client.call.remaining ++ action.passed = client'.call.remaining) ∨
    ((sm', client'.file) = replaceFull sm client.file ∧
      client'.call.remaining = client.call.remaining ∧ action.passed = []) := by
  obtain ⟨file, call⟩ := client
  cases action with
  | append str =>
      cases call <;> simp only [Client.step, Option.some.injEq, Prod.mk.injEq,
        reduceCtorEq] at stepped
      obtain ⟨rfl, rfl⟩ := stepped
      exact Or.inr (Or.inl ⟨rfl, rfl, rfl⟩)
  | copy =>
      cases call with
      | appending str =>
          cases present : file.chunk? sm with
          | none => simp [Client.step, present] at stepped
          | some chunk =>
              simp only [Client.step, present, Option.some.injEq,
                Prod.mk.injEq] at stepped
              obtain ⟨rfl, rfl⟩ := stepped
              refine Or.inl ⟨_, chunk, rfl, ?_, rfl, rfl, ?_⟩
              · simp only [List.length_take]
                omega
              · simp [Call.remaining, ClientAction.passed]
      | _ => simp [Client.step] at stepped
  | dump =>
      cases call <;> simp only [Client.step, Option.some.injEq, Prod.mk.injEq,
        reduceCtorEq] at stepped
      obtain ⟨rfl, rfl⟩ := stepped
      exact Or.inr (Or.inl ⟨rfl, rfl, rfl⟩)
  | read result =>
      cases call with
      | dumping =>
          cases present : file.chunk? sm with
          | none => simp [Client.step, present] at stepped
          | some chunk =>
              match result with
              | none | some [] =>
                  simp only [Client.step, present, Option.some.injEq,
                    Prod.mk.injEq] at stepped
                  obtain ⟨rfl, rfl⟩ := stepped
                  exact Or.inr (Or.inl ⟨rfl, rfl, rfl⟩)
              | some (byte :: bytes) =>
                  simp only [Client.step, present, Option.ite_none_right_eq_some,
                    Option.some.injEq, Prod.mk.injEq] at stepped
                  obtain ⟨fitting, rfl, rfl⟩ := stepped
                  refine Or.inl ⟨byte :: bytes, chunk, rfl, fitting, rfl,
                    rfl, ?_⟩
                  simp [Call.remaining, ClientAction.passed]
      | _ => simp [Client.step] at stepped
  | check =>
      cases call with
      | appended str =>
          simp only [Client.step, Option.some.injEq, Prod.mk.injEq] at stepped
          obtain ⟨rfl, rfl⟩ := stepped
          refine Or.inr (Or.inr ⟨rfl, ?_, rfl⟩)
          cases str <;> rfl
      | dumped =>
          simp only [Client.step, Option.some.injEq, Prod.mk.injEq] at stepped
          obtain ⟨rfl, rfl⟩ := stepped
          exact Or.inr (Or.inr ⟨rfl, rfl, rfl⟩)
      | _ => simp [Client.step] at stepped

end Collector
end Bootchart
