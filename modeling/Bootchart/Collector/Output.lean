import Bootchart.Library.Run
import Mathlib.Data.List.Infix
import Mathlib.Algebra.BigOperators.Group.List.Basic

/-!
# The collector's output buffers

`output.c` keeps every log stream in memory as a list of fixed-size chunks.
All streams share one table of chunks, the stack map, so that a second process
can find them through the stack. Once the table is full, every stream that needs
a fresh chunk is handed the last one again.

A buffer file belongs to one thread, but several threads append at the same
time. The unit of interleaving is one step of the copy loops: copy some bytes
into the current chunk, then replace the chunk if it is full.
-/

namespace Bootchart
namespace Collector

/-- The contents of a memory area, a file or a log stream. -/
abbrev Bytes := List UInt8

/-- `CHUNK_SIZE`, the memory taken by one chunk. -/
def chunkSize : Nat := 128 * 1024

/-- `sizeof (Chunk)` where `unsigned long` has eight bytes: the name, four bytes
of padding, and the length. -/
def chunkHeaderSize : Nat := 60 + 4 + 8

/-- `CHUNK_PAYLOAD`, the data bytes of one chunk. -/
def chunkPayload : Nat := chunkSize - chunkHeaderSize

/-- `sizeof (sm->chunks) / sizeof (sm->chunks[0])`. -/
def chunkSlots : Nat := 1024

/-- The size of the field `dest_stream`. -/
def destStreamSize : Nat := 60

theorem chunkPayload_pos : 0 < chunkPayload := by decide

theorem chunkSlots_pos : 0 < chunkSlots := by decide

/-- A chunk. Its `length` field is the length of the list `data`. -/
structure Chunk where
  /-- The destination name, as far as it fits. -/
  destStream : Bytes
  /-- The bytes stored so far. -/
  data : Bytes
  /-- The data stays inside the payload. -/
  fits : data.length ≤ chunkPayload

namespace Chunk

/-- A chunk fresh from `calloc`, labelled by `strncpy`. -/
def fresh (dest : Bytes) : Chunk where
  destStream := dest.take destStreamSize
  data := []
  fits := Nat.zero_le _

/-- `c->length = 0`. -/
def reset (chunk : Chunk) : Chunk where
  destStream := chunk.destStream
  data := []
  fits := Nat.zero_le _

/-- The free bytes of the payload. -/
def room (chunk : Chunk) : Nat := chunkPayload - chunk.data.length

/-- Store bytes behind the data, no more than there is room for. -/
def write (chunk : Chunk) (bytes : Bytes) : Chunk where
  destStream := chunk.destStream
  data := chunk.data ++ bytes.take chunk.room
  fits := by
    have bound := chunk.fits
    simp only [List.length_append, List.length_take, room]
    omega

@[simp] theorem destStream_fresh (dest : Bytes) :
    (fresh dest).destStream = dest.take destStreamSize := rfl

@[simp] theorem data_fresh (dest : Bytes) : (fresh dest).data = [] := rfl

@[simp] theorem destStream_reset (chunk : Chunk) :
    chunk.reset.destStream = chunk.destStream := rfl

@[simp] theorem destStream_write (chunk : Chunk) (bytes : Bytes) :
    (chunk.write bytes).destStream = chunk.destStream := rfl

/-- A write that fits stores all its bytes. -/
theorem data_write
    (chunk : Chunk)
    (bytes : Bytes)
    (fitting : bytes.length ≤ chunk.room) :
    (chunk.write bytes).data = chunk.data ++ bytes := by
  simp [write, List.take_of_length_le fitting]

end Chunk

/-- The table of chunks. The field `max_chunk` is the length of the list. -/
structure StackMap where
  /-- The chunks in use, in the order of their allocation. -/
  chunks : List Chunk
  /-- The table has a fixed number of slots. -/
  bounded : chunks.length ≤ chunkSlots

namespace StackMap

/-- `STACK_MAP_INIT`. -/
def init : StackMap where
  chunks := []
  bounded := Nat.zero_le _

/-- Change the chunk in one slot. -/
def modify (sm : StackMap) (slot : Nat) (change : Chunk → Chunk) : StackMap where
  chunks := sm.chunks.modify slot change
  bounded := by
    rw [List.length_modify]
    exact sm.bounded

@[simp] theorem chunks_modify
    (sm : StackMap)
    (slot : Nat)
    (change : Chunk → Chunk) :
    (sm.modify slot change).chunks = sm.chunks.modify slot change := rfl

/-- `chunk_alloc`: a fresh chunk in the next slot, or the last chunk again with
its length reset when the table is full. Returns the slot of the chunk. -/
def chunkAlloc (sm : StackMap) (dest : Bytes) : StackMap × Nat :=
  if overflow : sm.chunks.length = chunkSlots then
    (sm.modify (chunkSlots - 1) Chunk.reset, chunkSlots - 1)
  else
    ({ chunks := sm.chunks ++ [Chunk.fresh dest]
       bounded := by
        have bound := sm.bounded
        simp only [List.length_append, List.length_singleton]
        omega },
      sm.chunks.length)

end StackMap

/-- A buffer file: its destination name and the slot of its current chunk. -/
structure BufferFile where
  /-- The destination name. -/
  dest : Bytes
  /-- The slot of the current chunk. -/
  cur : Nat

/-- The current chunk of a buffer file. -/
def BufferFile.chunk? (file : BufferFile) (sm : StackMap) : Option Chunk :=
  sm.chunks[file.cur]?

/-- `buffer_file_new`. -/
def bufferFileNew (sm : StackMap) (dest : Bytes) : StackMap × BufferFile :=
  let allocated := sm.chunkAlloc dest
  (allocated.1, { dest, cur := allocated.2 })

/-- The last two lines of both copy loops: replace the current chunk when it is
full. -/
def replaceFull (sm : StackMap) (file : BufferFile) : StackMap × BufferFile :=
  match file.chunk? sm with
  | none => (sm, file)
  | some chunk =>
      if chunk.data.length ≥ chunkPayload then
        let allocated := sm.chunkAlloc file.dest
        (allocated.1, { file with cur := allocated.2 })
      else
        (sm, file)

/-- Where a thread stands with the buffer file it owns. -/
inductive Call
  /-- No call is in progress. -/
  | idle
  /-- In `buffer_file_append`, at the head of the loop, with `str` to write. -/
  | appending (str : Bytes)
  /-- In `buffer_file_append`, behind the copy. -/
  | appended (str : Bytes)
  /-- In `buffer_file_dump`, at the head of the loop. -/
  | dumping
  /-- In `buffer_file_dump`, behind a successful `read`. -/
  | dumped
  deriving DecidableEq

/-- The bytes a call was given and has not copied yet. -/
def Call.remaining : Call → Bytes
  | .appending str => str
  | .appended str => str
  | _ => []

/-- A buffer file together with the call its thread is executing. -/
structure Client where
  /-- The buffer file. -/
  file : BufferFile
  /-- The call in progress. -/
  call : Call

/-- What a thread does next with its buffer file. -/
inductive ClientAction
  /-- Call `buffer_file_append`. -/
  | append (str : Bytes)
  /-- Copy into the current chunk and advance its length. -/
  | copy
  /-- Call `buffer_file_dump`. -/
  | dump
  /-- `read` returns an error, or some bytes; no bytes mean the end of file. -/
  | read (result : Option Bytes)
  /-- Replace a full chunk and decide whether the loop goes on. -/
  | check
  deriving DecidableEq

/-- One step of a thread. The guards are the control flow of the two functions
and the promise of `read` not to return more than it was asked for. -/
def Client.step (sm : StackMap) (client : Client) :
    ClientAction → Option (StackMap × Client)
  | .append str =>
      match client.call with
      | .idle => some (sm, { client with call := .appending str })
      | _ => none
  | .copy =>
      match client.call, client.file.chunk? sm with
      | .appending str, some chunk =>
          let toWrite := min chunk.room str.length
          some (sm.modify client.file.cur (·.write (str.take toWrite)),
            { client with call := .appended (str.drop toWrite) })
      | _, _ => none
  | .dump =>
      match client.call with
      | .idle => some (sm, { client with call := .dumping })
      | _ => none
  | .read result =>
      match client.call, client.file.chunk? sm, result with
      | .dumping, some _, none => some (sm, { client with call := .idle })
      | .dumping, some _, some [] => some (sm, { client with call := .idle })
      | .dumping, some chunk, some bytes =>
          let toRead := chunk.room
          if bytes.length ≤ toRead then
            some (sm.modify client.file.cur (·.write bytes),
              { client with call := .dumped })
          else
            none
      | _, _, _ => none
  | .check =>
      match client.call with
      | .appended str =>
          let replaced := replaceFull sm client.file
          some (replaced.1,
            { file := replaced.2
              call := if str.length > 0 then .appending str else .idle })
      | .dumped =>
          let replaced := replaceFull sm client.file
          some (replaced.1, { file := replaced.2, call := .dumping })
      | _ => none

/-- The collector's buffers: the shared table and the buffer files on it. -/
structure Buffers where
  /-- The shared table. -/
  sm : StackMap
  /-- The buffer files, in the order of their creation. -/
  clients : List Client

/-- Before any buffer file exists. -/
def Buffers.init : Buffers where
  sm := StackMap.init
  clients := []

/-- The destination names in use. -/
def Buffers.names (buffers : Buffers) : List Bytes :=
  buffers.clients.map (·.file.dest)

/-- An action of the whole collector. -/
inductive Action
  /-- Some thread calls `buffer_file_new`. -/
  | new (dest : Bytes)
  /-- The owner of one buffer file makes a step. -/
  | client (index : Nat) (action : ClientAction)
  deriving DecidableEq

/-- The buffers with one more buffer file. -/
def Buffers.opened (buffers : Buffers) (dest : Bytes) : Buffers :=
  let created := bufferFileNew buffers.sm dest
  { sm := created.1
    clients := buffers.clients ++ [{ file := created.2, call := .idle }] }

/-- One step of the collector. -/
def Buffers.step (buffers : Buffers) : Action → Option Buffers
  | .new dest => some (buffers.opened dest)
  | .client index action =>
      buffers.clients[index]?.bind fun client =>
        (client.step buffers.sm action).map fun stepped =>
          { sm := stepped.1
            clients := buffers.clients.set index stepped.2 }

/-- The bytes a step of a thread hands over to its stream. -/
def ClientAction.passed : ClientAction → Bytes
  | .append str => str
  | .read (some bytes) => bytes
  | _ => []

/-- The bytes an action hands over to the stream of one buffer file. -/
def Action.passed (index : Nat) : Action → Bytes
  | .new _ => []
  | .client owner action => if owner = index then action.passed else []

/-- The stream of one buffer file: everything passed to it during a run. -/
def passed (index : Nat) (actions : List Action) : Bytes :=
  actions.flatMap (Action.passed index)

/-- The number of chunks dumped at most: the last slot is discarded. -/
def dumpedChunks (sm : StackMap) : Nat :=
  min sm.chunks.length (chunkSlots - 1)

/-- `dump_buffers`: append the data of each chunk to the file it names. -/
def dumpBuffers (sm : StackMap) (files : Bytes → Bytes) : Bytes → Bytes :=
  (sm.chunks.take (dumpedChunks sm)).foldl
    (fun files chunk =>
      Function.update files chunk.destStream
        (files chunk.destStream ++ chunk.data))
    files

end Collector
end Bootchart
