import Bootchart.Collector.OutputDump
import Mathlib.Data.List.Perm.Basic

/-!
# The lengths of the chunks

The copy loops of `output.c` compute with the lengths of chunks alone: the free bytes of a chunk
are an unsigned difference, which tells how much to copy and whether a fresh chunk is needed. Here
the lengths are what the code computes, 64-bit numbers in a table of any size. The unit of
interleaving is one iteration of a loop.
-/

namespace Bootchart
namespace Collector
namespace ChunkLengths

open Library

/-- `CHUNK_PAYLOAD`. -/
def payload : BitVec 64 := BitVec.ofNat 64 chunkPayload

theorem toNat_payload : payload.toNat = chunkPayload := rfl

/-- The loop that the owner of a buffer file is in. -/
inductive Loop
  /-- No call is in progress. -/
  | idle
  /-- In `buffer_file_append`, with so many bytes to write. -/
  | append (len : BitVec 64)
  /-- In `buffer_file_dump`. -/
  | dump
  deriving DecidableEq

/-- A buffer file: the slot of its current chunk, and the loop of its owner. -/
structure File where
  /-- `cur`. -/
  cur : Nat
  /-- The loop. -/
  loop : Loop
  deriving DecidableEq

/-- The stack map, as far as lengths go, and the buffer files on it. -/
structure Table where
  /-- The field `length` of each chunk; `max_chunk` is the length of the list. -/
  lengths : List (BitVec 64)
  /-- The buffer files, in the order of their creation. -/
  files : List File
  deriving DecidableEq

/-- Before any buffer file exists. -/
def Table.init : Table where
  lengths := []
  files := []

/-- `chunk_alloc`: the lengths, and the slot of the chunk returned. -/
def chunkAlloc (lengths : List (BitVec 64)) : List (BitVec 64) × Nat :=
  if lengths.length = chunkSlots then
    (lengths.set (lengths.length - 1) 0, lengths.length - 1)
  else
    (lengths ++ [0], lengths.length)

/-- `CHUNK_PAYLOAD - file->cur->length`. -/
def room (lengths : List (BitVec 64)) (cur : Nat) : BitVec 64 :=
  payload - lengths.getD cur 0

/-- The end of an iteration of both loops: the length of the current chunk grows, and a chunk
that is full is replaced. -/
def advance (lengths : List (BitVec 64)) (cur : Nat) (count : BitVec 64) :
    List (BitVec 64) × Nat :=
  let length := lengths.getD cur 0 + count
  let lengths := lengths.set cur length
  if length ≥ payload then chunkAlloc lengths else (lengths, cur)

/-- What an owner of a buffer file does next. -/
inductive Action
  /-- `buffer_file_new`. -/
  | new
  /-- Call `buffer_file_append` with so many bytes. -/
  | append (index : Nat) (len : BitVec 64)
  /-- Call `buffer_file_dump`. -/
  | dump (index : Nat)
  /-- One iteration of `buffer_file_append`. -/
  | write (index : Nat)
  /-- One iteration of `buffer_file_dump`, where `read` fails or returns a count. -/
  | read (index : Nat) (result : Option (BitVec 64))
  deriving DecidableEq

/-- A call of a function begins on a buffer file. -/
def Action.Begins (index : Nat) : Action → Prop
  | .append owner _ => owner = index
  | .dump owner => owner = index
  | _ => False

/-- The part of the memory of a chunk that is handed to `memcpy` or `read`. -/
structure Access where
  /-- The chunk. -/
  slot : Nat
  /-- The first byte, counted from `data`. -/
  offset : BitVec 64
  /-- The number of bytes. -/
  size : BitVec 64
  deriving DecidableEq

namespace Table

/-- The argument `to_write` of `memcpy`. -/
def toWrite (lengths : List (BitVec 64)) (cur : Nat) (len : BitVec 64) : BitVec 64 :=
  if room lengths cur < len then room lengths cur else len

/-- The memory that an action is about to access. -/
def access (table : Table) : Action → Option Access
  | .write index =>
      match table.files[index]? with
      | some ⟨cur, .append len⟩ =>
          some { slot := cur, offset := table.lengths.getD cur 0
                 size := toWrite table.lengths cur len }
      | _ => none
  | .read index _ =>
      match table.files[index]? with
      | some ⟨cur, .dump⟩ =>
          some { slot := cur, offset := table.lengths.getD cur 0, size := room table.lengths cur }
      | _ => none
  | _ => none

/-- The table where a buffer file has changed. -/
def put (table : Table) (index : Nat) (lengths : List (BitVec 64)) (file : File) : Table where
  lengths := lengths
  files := table.files.set index file

/-- `buffer_file_new`. -/
def opened (table : Table) : Table :=
  let allocated := chunkAlloc table.lengths
  { lengths := allocated.1
    files := table.files ++ [{ cur := allocated.2, loop := .idle }] }

/-- The owner of a file calls a function with a loop. -/
def beginCall (table : Table) (index : Nat) (loop : Loop) : Option Table :=
  match table.files[index]? with
  | some ⟨cur, .idle⟩ => some (table.put index table.lengths ⟨cur, loop⟩)
  | _ => none

/-- One iteration of `buffer_file_append`. -/
def writeIteration (table : Table) (index : Nat) : Option Table :=
  match table.files[index]? with
  | some ⟨cur, .append len⟩ =>
      let count := toWrite table.lengths cur len
      let len := len - count
      let advanced := advance table.lengths cur count
      some (table.put index advanced.1 ⟨advanced.2, if len > 0 then .append len else .idle⟩)
  | _ => none

/-- One iteration of `buffer_file_dump`. `read` promises not to return more than it was asked
for. -/
def readIteration (table : Table) (index : Nat) (result : Option (BitVec 64)) : Option Table :=
  match table.files[index]? with
  | some ⟨cur, .dump⟩ =>
      match result with
      | none => some (table.put index table.lengths ⟨cur, .idle⟩)
      | some count =>
          if count = 0 then some (table.put index table.lengths ⟨cur, .idle⟩)
          else if count ≤ room table.lengths cur then
            let advanced := advance table.lengths cur count
            some (table.put index advanced.1 ⟨advanced.2, .dump⟩)
          else none
  | _ => none

/-- One action. -/
def step (table : Table) : Action → Option Table
  | .new => some table.opened
  | .append index len => table.beginCall index (.append len)
  | .dump index => table.beginCall index .dump
  | .write index => table.writeIteration index
  | .read index result => table.readIteration index result

/-- The slots of the current chunks. -/
def curs (table : Table) : List Nat :=
  table.files.map File.cur

end Table

/-! ## The invariant -/

/-- Of two files on the same chunk, the chunk is in the last slot. -/
def ApartFromLast (first second : Nat) : Prop :=
  first = second → first + 1 = chunkSlots

theorem ApartFromLast.symm {first second : Nat} (apart : ApartFromLast first second) :
    ApartFromLast second first :=
  fun same => same ▸ apart same.symm

/-- The lengths are those between two iterations, where files use some slots. -/
structure Sound (lengths : List (BitVec 64)) (curs : List Nat) : Prop where
  /-- The table has a fixed number of slots. -/
  bounded : lengths.length ≤ chunkSlots
  /-- No chunk has more data than its payload. -/
  atMost : ∀ length ∈ lengths, length.toNat ≤ chunkPayload
  /-- The current chunks have room. -/
  current : ∀ cur ∈ curs, ∃ length, lengths[cur]? = some length ∧ length.toNat < chunkPayload
  /-- Only the last chunk is shared. -/
  apart : curs.Pairwise ApartFromLast

/-- The lengths are those before `chunk_alloc`: as between two iterations, but the chunk in the
last slot may be full. -/
structure Ready (lengths : List (BitVec 64)) (curs : List Nat) : Prop where
  /-- The table has a fixed number of slots. -/
  bounded : lengths.length ≤ chunkSlots
  /-- No chunk has more data than its payload. -/
  atMost : ∀ length ∈ lengths, length.toNat ≤ chunkPayload
  /-- The current chunks have room, but for the last chunk. -/
  current : ∀ cur ∈ curs, ∃ length, lengths[cur]? = some length ∧
    (length.toNat < chunkPayload ∨ cur + 1 = chunkSlots)
  /-- Only the last chunk is shared. -/
  apart : curs.Pairwise ApartFromLast

theorem Sound.ready {lengths : List (BitVec 64)} {curs : List Nat} (sound : Sound lengths curs) :
    Ready lengths curs where
  bounded := sound.bounded
  atMost := sound.atMost
  current := by
    intro cur isCur
    obtain ⟨length, here, hasRoom⟩ := sound.current cur isCur
    exact ⟨length, here, Or.inl hasRoom⟩
  apart := sound.apart

/-- The order of the files does not matter. -/
theorem Sound.perm {lengths : List (BitVec 64)} {curs others : List Nat}
    (sound : Sound lengths curs) (perm : curs.Perm others) :
    Sound lengths others where
  bounded := sound.bounded
  atMost := sound.atMost
  current := fun cur isCur => sound.current cur (perm.mem_iff.mpr isCur)
  apart := (perm.pairwise_iff ApartFromLast.symm).mp sound.apart

/-- `chunk_alloc` gives a file a chunk with room, and leaves the other files theirs. -/
theorem Ready.chunkAlloc {lengths : List (BitVec 64)} {curs : List Nat}
    (ready : Ready lengths curs) :
    Sound (chunkAlloc lengths).1 ((chunkAlloc lengths).2 :: curs) := by
  have slots := chunkSlots_pos
  have pos := chunkPayload_pos
  rw [ChunkLengths.chunkAlloc]
  split
  next full =>
    -- The last chunk again: it is empty now, whoever used it.
    have last : ∀ cur, cur + 1 = chunkSlots →
        (lengths.set (lengths.length - 1) 0)[cur]? = some 0 := by
      intro cur isLast
      rw [show cur = lengths.length - 1 by omega]
      exact List.getElem?_set_self (by omega)
    constructor
    · rw [List.length_set]
      exact ready.bounded
    · intro length isLength
      rcases List.mem_or_eq_of_mem_set isLength with before | rfl
      · exact ready.atMost length before
      · exact Nat.zero_le _
    · intro cur isCur
      rcases List.mem_cons.mp isCur with rfl | isCur
      · exact ⟨0, last _ (by omega), pos⟩
      · by_cases isLast : cur + 1 = chunkSlots
        · exact ⟨0, last cur isLast, pos⟩
        · obtain ⟨length, here, hasRoom | isLast'⟩ := ready.current cur isCur
          · refine ⟨length, ?_, hasRoom⟩
            rw [List.getElem?_set_ne (by omega)]
            exact here
          · exact absurd isLast' isLast
    · refine List.pairwise_cons.mpr ⟨?_, ready.apart⟩
      intro other _ _
      omega
  next notFull =>
    have free := lt_of_le_of_ne ready.bounded notFull
    constructor
    · rw [List.length_append, List.length_singleton]
      exact free
    · rw [List.forall_mem_append, List.forall_mem_singleton]
      exact ⟨ready.atMost, Nat.zero_le _⟩
    · intro cur isCur
      rcases List.mem_cons.mp isCur with rfl | isCur
      · exact ⟨0, List.getElem?_concat_length, pos⟩
      · obtain ⟨length, here, hasRoom⟩ := ready.current cur isCur
        have inside := (List.getElem?_eq_some_iff.mp here).1
        refine ⟨length, ?_, hasRoom.resolve_right (by omega)⟩
        rw [List.getElem?_append_left inside]
        exact here
    · refine List.pairwise_cons.mpr ⟨?_, ready.apart⟩
      intro other isOther same
      obtain ⟨_, here, _⟩ := ready.current other isOther
      have inside := (List.getElem?_eq_some_iff.mp here).1
      omega

/-- A length that is not above the payload leaves the rest of it. -/
theorem toNat_room {lengths : List (BitVec 64)} {cur : Nat} {length : BitVec 64}
    (here : lengths[cur]? = some length) (atMost : length.toNat ≤ chunkPayload) :
    (room lengths cur).toNat = chunkPayload - length.toNat := by
  rw [room, List.getD_eq_getElem?_getD, here, Option.getD_some,
    BitVec.toNat_sub_of_le (BitVec.le_def.mpr atMost), toNat_payload]

/-- `to_write` is the smaller of the free bytes and the bytes left. -/
theorem toNat_toWrite (lengths : List (BitVec 64)) (cur : Nat) (len : BitVec 64) :
    (Table.toWrite lengths cur len).toNat = min (room lengths cur).toNat len.toNat := by
  rw [Table.toWrite]
  split
  next less =>
    rw [BitVec.lt_def] at less
    exact (Nat.min_eq_left less.le).symm
  next notLess =>
    rw [BitVec.lt_def, Nat.not_lt] at notLess
    exact (Nat.min_eq_right notLess).symm

/-- The end of an iteration that stored no more than there was room for. -/
theorem Sound.advance {lengths : List (BitVec 64)} {cur : Nat} {others : List Nat}
    (sound : Sound lengths (cur :: others)) {count : BitVec 64}
    (fits : count.toNat ≤ (room lengths cur).toNat) :
    Sound (advance lengths cur count).1 ((advance lengths cur count).2 :: others) := by
  obtain ⟨length, here, hasRoom⟩ := sound.current cur (List.mem_cons_self)
  obtain ⟨otherApart, apart⟩ := List.pairwise_cons.mp sound.apart
  have inside := (List.getElem?_eq_some_iff.mp here).1
  rw [toNat_room here hasRoom.le] at fits
  have small : chunkPayload < 2 ^ 64 := by decide
  have sum : (length + count).toNat = length.toNat + count.toNat := by
    rw [BitVec.toNat_add, Nat.mod_eq_of_lt (by omega)]
  have grown : ∀ other ∈ lengths.set cur (length + count), other.toNat ≤ chunkPayload := by
    intro other isOther
    rcases List.mem_or_eq_of_mem_set isOther with before | rfl
    · exact sound.atMost other before
    · omega
  rw [ChunkLengths.advance, List.getD_eq_getElem?_getD, here, Option.getD_some]
  split
  next full =>
    apply Ready.chunkAlloc
    constructor
    · rw [List.length_set]
      exact sound.bounded
    · exact grown
    · intro other isOther
      by_cases same : cur = other
      · refine ⟨length + count, ?_, Or.inr ?_⟩
        · rw [← same]
          exact List.getElem?_set_self inside
        · rw [← same]
          exact otherApart other isOther same
      · obtain ⟨otherLength, otherHere, otherRoom⟩ :=
          sound.current other (List.mem_cons_of_mem _ isOther)
        refine ⟨otherLength, ?_, Or.inl otherRoom⟩
        rw [List.getElem?_set_ne same]
        exact otherHere
    · exact apart
  next notFull =>
    rw [ge_iff_le, BitVec.le_def, toNat_payload, Nat.not_le] at notFull
    constructor
    · rw [List.length_set]
      exact sound.bounded
    · exact grown
    · intro other isOther
      by_cases same : cur = other
      · refine ⟨length + count, ?_, notFull⟩
        rw [← same]
        exact List.getElem?_set_self inside
      · obtain ⟨otherLength, otherHere, otherRoom⟩ := sound.current other isOther
        refine ⟨otherLength, ?_, otherRoom⟩
        rw [List.getElem?_set_ne same]
        exact otherHere
    · exact sound.apart

/-! ## Actions -/

namespace Table

/-- The table is in the state between two iterations. -/
def IsSound (table : Table) : Prop :=
  Sound table.lengths table.curs

/-- The slot of a file. -/
theorem getElem?_curs {table : Table} {index : Nat} {file : File}
    (present : table.files[index]? = some file) :
    ∃ inside : index < table.curs.length, table.curs[index] = file.cur := by
  apply List.getElem?_eq_some_iff.mp
  rw [curs, List.getElem?_map, present]
  rfl

/-- A file that is put on its own chunk again. -/
theorem IsSound.put_same {table : Table} (sound : table.IsSound) {index : Nat} {file : File}
    (present : table.files[index]? = some file) (loop : Loop) :
    (table.put index table.lengths ⟨file.cur, loop⟩).IsSound := by
  obtain ⟨inside, isCur⟩ := getElem?_curs present
  have sameCurs : (table.put index table.lengths ⟨file.cur, loop⟩).curs = table.curs := by
    rw [curs, put, List.map_set, ← isCur]
    exact List.set_getElem_self inside
  rw [IsSound, sameCurs]
  exact sound

/-- A file behind an iteration that stored no more than there was room for. -/
theorem IsSound.put_advance {table : Table} (sound : table.IsSound) {index : Nat} {file : File}
    (present : table.files[index]? = some file) {count : BitVec 64}
    (fits : count.toNat ≤ (room table.lengths file.cur).toNat) (loop : Loop) :
    (table.put index (advance table.lengths file.cur count).1
      ⟨(advance table.lengths file.cur count).2, loop⟩).IsSound := by
  obtain ⟨insideCurs, isCur⟩ := getElem?_curs present
  have apart : Sound table.lengths (file.cur :: table.curs.eraseIdx index) := by
    rw [← isCur]
    exact sound.perm (List.getElem_cons_eraseIdx_perm insideCurs).symm
  have advanced := apart.advance fits
  rw [IsSound, curs, put, List.map_set]
  exact advanced.perm (List.set_perm_cons_eraseIdx insideCurs _).symm

/-- A call that can begin finds its file idle. -/
theorem beginCall_cases {table next : Table} {index : Nat} {loop : Loop}
    (stepped : table.beginCall index loop = some next) :
    ∃ cur, table.files[index]? = some ⟨cur, .idle⟩ ∧
      next = table.put index table.lengths ⟨cur, loop⟩ := by
  unfold beginCall at stepped
  split at stepped
  next cur present => exact ⟨cur, present, (Option.some.inj stepped).symm⟩
  next => exact absurd stepped (by simp)

/-- An iteration of `buffer_file_append` that can be made. -/
theorem writeIteration_cases {table next : Table} {index : Nat}
    (stepped : table.writeIteration index = some next) :
    ∃ cur len, table.files[index]? = some ⟨cur, .append len⟩ := by
  unfold writeIteration at stepped
  split at stepped
  next cur len present => exact ⟨cur, len, present⟩
  next => exact absurd stepped (by simp)

/-- What an iteration of `buffer_file_append` does. -/
theorem writeIteration_of_append {table : Table} {index cur : Nat} {len : BitVec 64}
    (present : table.files[index]? = some ⟨cur, .append len⟩) :
    table.writeIteration index =
      some (table.put index (advance table.lengths cur (toWrite table.lengths cur len)).1
        ⟨(advance table.lengths cur (toWrite table.lengths cur len)).2,
          if len - toWrite table.lengths cur len > 0 then
            .append (len - toWrite table.lengths cur len)
          else .idle⟩) := by
  rw [writeIteration, present]

/-- What an iteration of `buffer_file_dump` does if it can be made: it ends the loop, or stores
bytes that fit. -/
theorem readIteration_cases {table next : Table} {index : Nat} {result : Option (BitVec 64)}
    (stepped : table.readIteration index result = some next) :
    ∃ cur, table.files[index]? = some ⟨cur, .dump⟩ ∧
      (next = table.put index table.lengths ⟨cur, .idle⟩ ∨
        ∃ count, count.toNat ≤ (room table.lengths cur).toNat ∧
          next = table.put index (advance table.lengths cur count).1
            ⟨(advance table.lengths cur count).2, .dump⟩) := by
  unfold readIteration at stepped
  split at stepped
  next cur present =>
    refine ⟨cur, present, ?_⟩
    cases result with
    | none => exact Or.inl (Option.some.inj stepped).symm
    | some count =>
        dsimp only at stepped
        split at stepped
        next => exact Or.inl (Option.some.inj stepped).symm
        next =>
          split at stepped
          next fits => exact Or.inr ⟨count, fits, (Option.some.inj stepped).symm⟩
          next => exact absurd stepped (by simp)
  next => exact absurd stepped (by simp)

/-- What an iteration of `buffer_file_dump` does where `read` ends the file. -/
theorem readIteration_of_end {table : Table} {index cur : Nat}
    (present : table.files[index]? = some ⟨cur, .dump⟩) {result : Option (BitVec 64)}
    (isEnd : ∀ count ∈ result, count = 0) :
    table.readIteration index result =
      some (table.put index table.lengths ⟨cur, .idle⟩) := by
  rw [readIteration, present]
  cases result with
  | none => rfl
  | some count => exact if_pos (isEnd count rfl)

/-- What an iteration of `buffer_file_dump` does where `read` returns some bytes. -/
theorem readIteration_of_count {table : Table} {index cur : Nat}
    (present : table.files[index]? = some ⟨cur, .dump⟩) {count : BitVec 64}
    (notEnd : count ≠ 0) (fits : count ≤ room table.lengths cur) :
    table.readIteration index (some count) =
      some (table.put index (advance table.lengths cur count).1
        ⟨(advance table.lengths cur count).2, .dump⟩) := by
  rw [readIteration, present]
  exact (if_neg notEnd).trans (if_pos fits)

/-- What an action that is enabled does: it opens a file, changes the loop of a file, or stores
bytes that fit into the current chunk of a file. -/
theorem step_cases {table next : Table} {action : Action}
    (stepped : table.step action = some next) :
    next = table.opened ∨
    (∃ index file loop, table.files[index]? = some file ∧
      next = table.put index table.lengths ⟨file.cur, loop⟩) ∨
    (∃ index file count loop, table.files[index]? = some file ∧
      count.toNat ≤ (room table.lengths file.cur).toNat ∧
      next = table.put index (advance table.lengths file.cur count).1
        ⟨(advance table.lengths file.cur count).2, loop⟩) := by
  cases action with
  | new => exact Or.inl (Option.some.inj stepped).symm
  | append index len =>
      obtain ⟨cur, present, isNext⟩ := beginCall_cases stepped
      exact Or.inr (Or.inl ⟨index, ⟨cur, .idle⟩, _, present, isNext⟩)
  | dump index =>
      obtain ⟨cur, present, isNext⟩ := beginCall_cases stepped
      exact Or.inr (Or.inl ⟨index, ⟨cur, .idle⟩, _, present, isNext⟩)
  | write index =>
      obtain ⟨cur, len, present⟩ := writeIteration_cases stepped
      have isNext := (writeIteration_of_append present).symm.trans stepped
      refine Or.inr (Or.inr ⟨index, ⟨cur, .append len⟩, toWrite table.lengths cur len,
        _, present, ?_, (Option.some.inj isNext).symm⟩)
      rw [toNat_toWrite]
      exact min_le_left _ _
  | read index result =>
      obtain ⟨cur, present, isNext | ⟨count, fits, isNext⟩⟩ := readIteration_cases stepped
      · exact Or.inr (Or.inl ⟨index, ⟨cur, .dump⟩, _, present, isNext⟩)
      · exact Or.inr (Or.inr ⟨index, ⟨cur, .dump⟩, count, _, present, fits, isNext⟩)

/-- Every action keeps the invariant. -/
theorem IsSound.step {table next : Table} (sound : table.IsSound) {action : Action}
    (stepped : table.step action = some next) :
    next.IsSound := by
  rcases step_cases stepped with rfl |
    ⟨index, file, loop, present, rfl⟩ | ⟨index, file, count, loop, present, fits, rfl⟩
  · have isCurs : table.opened.curs = table.curs ++ [(chunkAlloc table.lengths).2] := by
      rw [curs, opened, List.map_append]
      rfl
    rw [IsSound, isCurs]
    exact (Ready.chunkAlloc (Sound.ready sound)).perm (List.perm_append_singleton _ _).symm
  · exact sound.put_same present loop
  · exact sound.put_advance present fits loop

/-- The invariant holds behind every run. -/
theorem isSound_of_run {actions : List Action} {table : Table}
    (ran : run step init actions = some table) :
    table.IsSound := by
  apply run_induction (fun _ => IsSound) _ _ ran
  · exact { bounded := Nat.zero_le _
            atMost := List.forall_mem_nil _
            current := List.forall_mem_nil _
            apart := List.Pairwise.nil }
  · intro _ _ _ _ _ sound stepped
    exact sound.step stepped

/-! ## Accesses -/

/-- An access lies in the payload of the current chunk of a file. -/
def InPayload (table : Table) (access : Access) : Prop :=
  access.slot < table.lengths.length ∧
    (∃ file ∈ table.files, file.cur = access.slot) ∧
    access.offset = table.lengths.getD access.slot 0 ∧
    access.offset.toNat + access.size.toNat ≤ chunkPayload

/-- The current chunk of a file. -/
theorem IsSound.current {table : Table} (sound : table.IsSound) {index : Nat} {file : File}
    (present : table.files[index]? = some file) :
    ∃ length, table.lengths[file.cur]? = some length ∧ length.toNat < chunkPayload :=
  Sound.current sound file.cur (List.mem_map_of_mem (List.mem_of_getElem? present))

/-- There is room in the current chunk of a file. -/
theorem IsSound.toNat_room {table : Table} (sound : table.IsSound) {index : Nat} {file : File}
    (present : table.files[index]? = some file) :
    0 < (room table.lengths file.cur).toNat ∧
      (table.lengths.getD file.cur 0).toNat + (room table.lengths file.cur).toNat =
        chunkPayload := by
  obtain ⟨length, here, hasRoom⟩ := sound.current present
  rw [ChunkLengths.toNat_room here hasRoom.le, List.getD_eq_getElem?_getD, here, Option.getD_some]
  omega

/-- What lies in the free bytes of the current chunk of a file lies in its payload. -/
theorem IsSound.inPayload {table : Table} (sound : table.IsSound) {index : Nat} {file : File}
    (present : table.files[index]? = some file) {size : BitVec 64}
    (fits : size.toNat ≤ (room table.lengths file.cur).toNat) :
    table.InPayload { slot := file.cur, offset := table.lengths.getD file.cur 0, size } := by
  obtain ⟨length, here, _⟩ := sound.current present
  have whole := (sound.toNat_room present).2
  refine ⟨(List.getElem?_eq_some_iff.mp here).1, ⟨file, List.mem_of_getElem? present, rfl⟩,
    rfl, ?_⟩
  change (table.lengths.getD file.cur 0).toNat + size.toNat ≤ chunkPayload
  omega

/-- Every access lies in the payload, and `read` is asked for some bytes. -/
theorem IsSound.access {table : Table} (sound : table.IsSound) {action : Action}
    {access : Access} (accessed : table.access action = some access) :
    table.InPayload access ∧
      ∀ index result, action = .read index result → 0 < access.size.toNat := by
  cases action with
  | new => exact absurd accessed (by simp [Table.access])
  | append => exact absurd accessed (by simp [Table.access])
  | dump => exact absurd accessed (by simp [Table.access])
  | write index =>
      simp only [Table.access] at accessed
      split at accessed
      next cur len present =>
        obtain rfl := Option.some.inj accessed
        constructor
        · apply sound.inPayload present
          rw [toNat_toWrite]
          exact min_le_left _ _
        · intro other result isRead
          exact absurd isRead (by simp)
      next => exact absurd accessed (by simp)
  | read index result =>
      simp only [Table.access] at accessed
      split at accessed
      next cur present =>
        obtain rfl := Option.some.inj accessed
        constructor
        · exact sound.inPayload present le_rfl
        · intro _ _ _
          exact (sound.toNat_room present).1
      next => exact absurd accessed (by simp)

/-! ## The end of `buffer_file_append` -/

/-- The number of iterations that a call of `buffer_file_append` can still make. -/
def iterationsLeft (table : Table) (index : Nat) : Nat :=
  match table.files[index]? with
  | some ⟨_, .append len⟩ => max 1 len.toNat
  | _ => 0

/-- An iteration of the loop can be made while it is not at its end, and uses up one of those
left. -/
theorem IsSound.write {table : Table} (sound : table.IsSound) {index cur : Nat}
    {len : BitVec 64} (present : table.files[index]? = some ⟨cur, .append len⟩) :
    ∃ next, table.step (.write index) = some next ∧
      next.iterationsLeft index < table.iterationsLeft index := by
  obtain ⟨inside, _⟩ := List.getElem?_eq_some_iff.mp present
  have progress := (sound.toNat_room present).1
  have before : table.iterationsLeft index = max 1 len.toNat := by
    rw [iterationsLeft, present]
  have stored := toNat_toWrite table.lengths cur len
  have rest : (len - toWrite table.lengths cur len).toNat =
      len.toNat - (toWrite table.lengths cur len).toNat := by
    apply BitVec.toNat_sub_of_le
    rw [BitVec.le_def, stored]
    exact min_le_right _ _
  refine ⟨_, writeIteration_of_append present, ?_⟩
  rw [before, iterationsLeft, put, List.getElem?_set_self inside]
  by_cases more : len - toWrite table.lengths cur len > 0
  · rw [if_pos more]
    change max 1 (len - toWrite table.lengths cur len).toNat < max 1 len.toNat
    rw [gt_iff_lt, BitVec.lt_def, rest] at more
    change 0 < _ at more
    dsimp only at progress
    rw [rest]
    omega
  · rw [if_neg more]
    exact Nat.lt_of_lt_of_le Nat.zero_lt_one (le_max_left _ _)

/-- A change of one file leaves the loops of the others. -/
theorem iterationsLeft_put_ne (table : Table) {owner index : Nat} (different : owner ≠ index)
    (lengths : List (BitVec 64)) (file : File) :
    (table.put owner lengths file).iterationsLeft index = table.iterationsLeft index := by
  rw [iterationsLeft, iterationsLeft, put, List.getElem?_set_ne different]

/-- Behind a change to another loop, no iteration is left. -/
theorem iterationsLeft_put_self (table : Table) (index : Nat) (lengths : List (BitVec 64))
    {file : File} (notAppend : ∀ len, file.loop ≠ .append len) :
    (table.put index lengths file).iterationsLeft index = 0 := by
  rw [iterationsLeft]
  split
  next cur len here =>
    obtain ⟨_, same⟩ := List.getElem?_eq_some_iff.mp here
    have isFile : file = ⟨cur, .append len⟩ := (List.getElem_set_self _).symm.trans same
    exact absurd (congrArg File.loop isFile) (notAppend len)
  next => rfl

/-- An action that neither begins a call on a file nor is an iteration of its loop adds no
iteration. -/
theorem iterationsLeft_step_le {table next : Table} {action : Action} {index : Nat}
    (stepped : table.step action = some next) (notBegun : ¬action.Begins index)
    (notWrite : action ≠ .write index) :
    next.iterationsLeft index ≤ table.iterationsLeft index := by
  cases action with
  | new =>
      obtain rfl := Option.some.inj stepped
      rcases lt_trichotomy index table.files.length with before | rfl | behind
      · apply le_of_eq
        rw [iterationsLeft, iterationsLeft, opened, List.getElem?_append_left before]
      · rw [iterationsLeft, opened, List.getElem?_concat_length]
        exact Nat.zero_le _
      · rw [iterationsLeft, List.getElem?_eq_none]
        · exact Nat.zero_le _
        · rw [opened, List.length_append]
          exact behind
  | append owner len =>
      obtain ⟨cur, _, rfl⟩ := beginCall_cases stepped
      exact (table.iterationsLeft_put_ne notBegun _ _).le
  | dump owner =>
      obtain ⟨cur, _, rfl⟩ := beginCall_cases stepped
      exact (table.iterationsLeft_put_ne notBegun _ _).le
  | write owner =>
      have different : owner ≠ index := by
        rintro rfl
        exact notWrite rfl
      obtain ⟨cur, len, present⟩ := writeIteration_cases stepped
      obtain rfl := Option.some.inj ((writeIteration_of_append present).symm.trans stepped)
      exact (table.iterationsLeft_put_ne different _ _).le
  | read owner result =>
      obtain ⟨lengths, file, rfl, notAppend⟩ : ∃ lengths file,
          next = table.put owner lengths file ∧ ∀ len, file.loop ≠ .append len := by
        obtain ⟨cur, _, isNext | ⟨count, _, isNext⟩⟩ := readIteration_cases stepped
        · exact ⟨_, _, isNext, by simp⟩
        · exact ⟨_, _, isNext, by simp⟩
      by_cases same : owner = index
      · rw [same, iterationsLeft_put_self _ _ _ notAppend]
        exact Nat.zero_le _
      · exact (table.iterationsLeft_put_ne same _ _).le

/-- Until a file begins another call, its loop makes no more iterations than were left, whatever
the other files do meanwhile. -/
theorem IsSound.count_write_le {table : Table} (sound : table.IsSound) {index : Nat}
    {actions : List Action} {later : Table} (ran : run Table.step table actions = some later)
    (notBegun : ∀ action ∈ actions, ¬action.Begins index) :
    actions.count (.write index) ≤ table.iterationsLeft index := by
  induction actions generalizing table with
  | nil => exact Nat.zero_le _
  | cons action actions inductionHypothesis =>
      rw [List.forall_mem_cons] at notBegun
      rw [run_cons, Option.bind_eq_some_iff] at ran
      obtain ⟨next, stepped, ran⟩ := ran
      have behind := inductionHypothesis (sound.step stepped) ran notBegun.2
      by_cases isWrite : action = .write index
      · subst isWrite
        obtain ⟨cur, len, present⟩ := writeIteration_cases stepped
        obtain ⟨next', stepped', decreased⟩ := sound.write present
        obtain rfl : next' = next := Option.some.inj (stepped'.symm.trans stepped)
        rw [List.count_cons_self]
        omega
      · rw [List.count_cons_of_ne isWrite]
        exact behind.trans (iterationsLeft_step_le stepped notBegun.1 isWrite)

/-- Between two iterations of any loops, the current chunks have room, no chunk has more than its
payload and there are no more chunks than slots. The next access of every loop lies in the payload
of the current chunk of its file, and `read` is asked for some bytes. The next iteration of
`buffer_file_append` can be made, and there are no more of them than bytes to write, or a single
one. -/
theorem between_iterations {actions : List Action} {table : Table}
    (ran : run step init actions = some table) :
    (∀ file ∈ table.files, ∃ length, table.lengths[file.cur]? = some length ∧
        length.toNat < chunkPayload) ∧
      (∀ length ∈ table.lengths, length.toNat ≤ chunkPayload) ∧
      table.lengths.length ≤ chunkSlots ∧
      (∀ action access, table.access action = some access →
        table.InPayload access ∧
          ∀ index result, action = .read index result → 0 < access.size.toNat) ∧
      ∀ index cur len, table.files[index]? = some ⟨cur, .append len⟩ →
        (∃ next, table.step (.write index) = some next) ∧
          ∀ more later, run step table more = some later →
            (∀ action ∈ more, ¬action.Begins index) →
              more.count (.write index) ≤ max 1 len.toNat := by
  have sound := isSound_of_run ran
  refine ⟨?_, sound.atMost, sound.bounded, ?_, ?_⟩
  · intro file isFile
    exact Sound.current sound file.cur (List.mem_map_of_mem isFile)
  · intro action access accessed
    exact sound.access accessed
  · intro index cur len present
    obtain ⟨next, stepped, _⟩ := sound.write present
    refine ⟨⟨next, stepped⟩, ?_⟩
    intro more later ranMore notBegun
    have bound := sound.count_write_le ranMore notBegun
    rwa [iterationsLeft, present] at bound

/-- A chunk is filled exactly while another file has a few bytes. -/
theorem between_iterations_full :
    payload.toNat ≤ chunkPayload ∧ [payload, 5, 0].length ≤ chunkSlots := by
  have ran : run step init [.new, .new, .append 1 5, .write 1, .append 0 payload, .write 0] =
      some { lengths := [payload, 5, 0], files := [⟨2, .idle⟩, ⟨1, .idle⟩] } := by
    decide
  obtain ⟨_, atMost, bounded, _⟩ := between_iterations ran
  exact ⟨atMost payload List.mem_cons_self, bounded⟩

/-- A chunk that was filled exactly stays in the table. -/
theorem exists_full_chunk :
    ¬∀ actions table, run step init actions = some table →
      ∀ length ∈ table.lengths, length.toNat < chunkPayload := by
  intro below
  have ran : run step init [.new, .append 0 payload, .write 0] =
      some { lengths := [payload, 0], files := [⟨1, .idle⟩] } := by
    decide
  exact lt_irrefl chunkPayload (below _ _ ran payload (List.mem_cons_self))

end Table

end ChunkLengths
end Collector
end Bootchart
