import Bootchart.Collector.Netlink
import Bootchart.Collector.Output
import Bootchart.Library.Bitmap

/-!
# Processes that were reported before

`tasks.c` calls the event function of a scanner once for each process. It keeps a bit for every
process number it was asked about, in an array that is reallocated when a larger number comes.
-/

namespace Bootchart
namespace Collector

open Library (Bitmap.Member Bitmap.insert Bitmap.member_insert)

/-! ## Memory -/

/-- `realloc` keeps the bytes that fit. What stands behind them is not known; it is a parameter,
as a function of the index. -/
def realloc (unknown : Nat → UInt8) (memory : Bytes) (size : Nat) : Bytes :=
  memory.take size ++ (List.range' memory.length (size - memory.length)).map unknown

/-- `memset` from an index on. -/
def memset (memory : Bytes) (start : Nat) (value : UInt8) (count : Nat) : Bytes :=
  memory.take start ++ List.replicate count value ++ memory.drop (start + count)

@[simp] theorem length_realloc (unknown : Nat → UInt8) (memory : Bytes) (size : Nat) :
    (realloc unknown memory size).length = size := by
  rw [realloc, List.length_append, List.length_take, List.length_map, List.length_range']
  omega

/-- A write inside the memory keeps its size. -/
theorem length_memset
    {memory : Bytes}
    {start count : Nat}
    (inside : start + count ≤ memory.length)
    (value : UInt8) :
    (memset memory start value count).length = memory.length := by
  rw [memset, List.length_append, List.length_append, List.length_take, List.length_replicate,
    List.length_drop]
  omega

/-- Clearing all that `realloc` adds leaves the old bytes and zeros. -/
theorem memset_realloc (unknown : Nat → UInt8) (memory : Bytes) (grow : Nat) :
    memset (realloc unknown memory (memory.length + grow)) memory.length 0 grow =
      memory ++ List.replicate grow 0 := by
  have nothingBehind :
      (realloc unknown memory (memory.length + grow)).drop (memory.length + grow) = [] := by
    apply List.drop_of_length_le
    rw [length_realloc]
  have kept : (realloc unknown memory (memory.length + grow)).take memory.length = memory := by
    rw [realloc, List.take_of_length_le (Nat.le_add_right _ _), List.take_left]
  rw [memset, kept, nothingBehind, List.append_nil]

/-! ## The bitmap -/

/-- `PidMap`. -/
structure PidMap where
  /-- The number of bytes. -/
  len : Nat
  /-- The bytes. -/
  pids : Bytes
  /-- So many bytes are allocated. -/
  allocated : pids.length = len

namespace PidMap

/-- The map of a scanner from `calloc`. -/
def zero : PidMap where
  len := 0
  pids := []
  allocated := rfl

/-- The number of bytes by which the map grows to reach an offset. -/
def growth (map : PidMap) (offset : Nat) : Nat :=
  let grow := offset - map.len + 1
  if grow < 512 then 512 else grow

/-- The map grown to reach an offset. -/
def grown (unknown : Nat → UInt8) (map : PidMap) (offset : Nat) : PidMap :=
  let grow := map.growth offset
  let len := map.len + grow
  { len
    pids := memset (realloc unknown map.pids len) (len - grow) 0 grow
    allocated := by
      rw [length_memset _, length_realloc]
      rw [length_realloc]
      omega }

/-- The map, grown if an offset is behind its end. -/
def reaching (unknown : Nat → UInt8) (map : PidMap) (offset : Nat) : PidMap :=
  if map.len ≤ offset then map.grown unknown offset else map

/-- The pid is marked. -/
def Knows (map : PidMap) (pid : Nat) : Prop :=
  Bitmap.Member map.pids pid

instance (map : PidMap) (pid : Nat) : Decidable (map.Knows pid) :=
  inferInstanceAs (Decidable (Bitmap.Member map.pids pid))

/-- A grown map has the bytes of before and zeros. -/
theorem pids_grown (unknown : Nat → UInt8) (map : PidMap) (offset : Nat) :
    (map.grown unknown offset).pids = map.pids ++ List.replicate (map.growth offset) 0 := by
  change memset (realloc unknown map.pids (map.len + map.growth offset))
    (map.len + map.growth offset - map.growth offset) 0 (map.growth offset) = _
  rw [Nat.add_sub_cancel, ← map.allocated, memset_realloc]

/-- Growth forgets no pid and invents none. -/
theorem knows_reaching (unknown : Nat → UInt8) (map : PidMap) (offset pid : Nat) :
    (map.reaching unknown offset).Knows pid ↔ map.Knows pid := by
  rw [reaching]
  split
  · rw [Knows, pids_grown]
    apply Library.Bitmap.member_append_replicate
  · rfl

/-- The map grows enough. -/
theorem lt_len_reaching (unknown : Nat → UInt8) (map : PidMap) (offset : Nat) :
    offset < (map.reaching unknown offset).len := by
  rw [reaching]
  split
  · change offset < map.len + map.growth offset
    rw [growth]
    split <;> omega
  · omega

/-- The map does not grow far behind the offset asked for. -/
theorem len_reaching_le (unknown : Nat → UInt8) (map : PidMap) (offset : Nat) :
    (map.reaching unknown offset).len ≤ max map.len (offset + 512) := by
  rw [reaching]
  split
  · change map.len + map.growth offset ≤ _
    rw [growth]
    split <;> omega
  · exact le_max_left _ _

end PidMap

/-- `was_known_pid`, for a pid that is not negative: whether the pid is marked, and the map
where it is. -/
def wasKnownPid (unknown : Nat → UInt8) (map : PidMap) (p : Nat) : Bool × PidMap :=
  let bit := p &&& 0x7
  let offset := p >>> 3
  let map := map.reaching unknown offset
  let byte := (map.pids.getD offset 0).toNat
  (byte &&& (1 <<< bit) ≠ 0,
    { map with
      pids := map.pids.set offset (UInt8.ofNat (byte ||| (1 <<< bit)))
      allocated := by rw [List.length_set, map.allocated] })

/-- The offset and the bit of a pid are quotient and remainder. -/
theorem offset_bit (pid : Nat) : pid >>> 3 = pid / 8 ∧ pid &&& 0x7 = pid % 8 :=
  ⟨Nat.shiftRight_eq_div_pow pid 3, Nat.and_two_pow_sub_one_eq_mod pid 3⟩

/-- `was_known_pid` tells whether the map knows the pid. -/
theorem wasKnownPid_fst (unknown : Nat → UInt8) (map : PidMap) (pid : Nat) :
    (wasKnownPid unknown map pid).1 = decide (map.Knows pid) := by
  apply decide_eq_decide.mpr
  rw [Library.and_one_shiftLeft_ne_zero, (offset_bit pid).2,
    ← map.knows_reaching unknown (pid >>> 3), (offset_bit pid).1]
  rfl

/-- `was_known_pid` adds the pid to those the map knows. -/
theorem knows_wasKnownPid (unknown : Nat → UInt8) (map : PidMap) (pid other : Nat) :
    (wasKnownPid unknown map pid).2.Knows other ↔ other = pid ∨ map.Knows other := by
  have inside : pid / 8 < (map.reaching unknown (pid / 8)).pids.length := by
    rw [PidMap.allocated]
    exact map.lt_len_reaching unknown (pid / 8)
  have marked : (wasKnownPid unknown map pid).2.pids =
      Bitmap.insert (map.reaching unknown (pid / 8)).pids pid := by
    rw [Bitmap.insert, ← (offset_bit pid).1, ← (offset_bit pid).2]
    rfl
  rw [PidMap.Knows, marked, Bitmap.member_insert inside]
  exact or_congr_right (map.knows_reaching unknown (pid / 8) other)

/-! ## Events -/

/-- The fields of `PidScanner` that events need. -/
structure EventScanner (σ : Type) where
  /-- `map`. -/
  map : PidMap
  /-- `event_fn`, if it is set. -/
  eventFn : Option (Pid → σ → σ)
  /-- `user_data`. -/
  userData : σ

/-- `pid_scanner_alloc`. -/
def pidScannerAlloc {σ : Type} (eventFn : Option (Pid → σ → σ)) (userData : σ) :
    EventScanner σ where
  map := PidMap.zero
  eventFn := eventFn
  userData := userData

/-- `pid_scanner_emit_exec`. The map only grows, so that each of its bytes is added once and one
function of the index stands for all that `realloc` leaves there. -/
def pidScannerEmitExec {σ : Type} (unknown : Nat → UInt8) (scanner : EventScanner σ)
    (newPid : Pid) : EventScanner σ :=
  match scanner.eventFn with
  | none => scanner
  | some eventFn =>
      let (wasKnown, map) := wasKnownPid unknown scanner.map newPid.toNat
      if wasKnown then { scanner with map := map }
      else { scanner with map := map, userData := eventFn newPid scanner.userData }

section Events

variable {σ : Type} (unknown : Nat → UInt8) (eventFn : Pid → σ → σ) (userData : σ)

/-- A scanner with an event function behind some calls of `pid_scanner_emit_exec`. -/
def emitted (pids : List Pid) : EventScanner σ :=
  pids.foldl (pidScannerEmitExec unknown) (pidScannerAlloc (some eventFn) userData)

/-- One call behind others. -/
theorem emitted_append_singleton (done : List Pid) (pid : Pid) :
    emitted unknown eventFn userData (done ++ [pid]) =
      pidScannerEmitExec unknown (emitted unknown eventFn userData done) pid := by
  rw [emitted, List.foldl_append]
  rfl

/-- What one call does to a scanner with an event function. -/
theorem pidScannerEmitExec_of_some
    {scanner : EventScanner σ}
    (isSet : scanner.eventFn = some eventFn)
    (pid : Pid) :
    pidScannerEmitExec unknown scanner pid =
      { scanner with
        map := (wasKnownPid unknown scanner.map pid.toNat).2
        userData := if scanner.map.Knows pid.toNat then scanner.userData
          else eventFn pid scanner.userData } := by
  rw [pidScannerEmitExec, isSet]
  dsimp only
  rw [wasKnownPid_fst]
  by_cases known : scanner.map.Knows pid.toNat
  · rw [decide_eq_true known, if_pos rfl, if_pos known]
  · rw [decide_eq_false known, if_neg known]
    rfl

/-- The event function stays. -/
theorem eventFn_emitted (pids : List Pid) :
    (emitted unknown eventFn userData pids).eventFn = some eventFn := by
  induction pids using List.reverseRecOn with
  | nil => rfl
  | append_singleton done pid inductionHypothesis =>
      rw [emitted_append_singleton,
        pidScannerEmitExec_of_some unknown eventFn inductionHypothesis]
      exact inductionHypothesis

/-- The map knows the pids of all calls. -/
theorem knows_emitted {pids : List Pid} (other : Nat) :
    (emitted unknown eventFn userData pids).map.Knows other ↔
      other ∈ pids.map Int.toNat := by
  induction pids using List.reverseRecOn with
  | nil => exact iff_of_false (Library.Bitmap.not_member_nil other) List.not_mem_nil
  | append_singleton done pid inductionHypothesis =>
      rw [emitted_append_singleton,
        pidScannerEmitExec_of_some unknown eventFn (eventFn_emitted unknown eventFn userData done),
        knows_wasKnownPid, inductionHypothesis, List.map_append, List.mem_append, or_comm]
      simp

/-- The map has at most 512 bytes more than the largest pid needs. If pids are 32-bit numbers,
its length is one. -/
theorem len_emitted_le
    {pids : List Pid}
    {bound : Nat}
    (atMost : ∀ pid ∈ pids, pid.toNat ≤ bound) :
    (emitted unknown eventFn userData pids).map.len ≤ bound / 8 + 512 := by
  induction pids using List.reverseRecOn with
  | nil => exact Nat.zero_le _
  | append_singleton done pid inductionHypothesis =>
      rw [List.forall_mem_append, List.forall_mem_singleton] at atMost
      have before := inductionHypothesis atMost.1
      have here : pid.toNat / 8 ≤ bound / 8 := Nat.div_le_div_right atMost.2
      rw [emitted_append_singleton,
        pidScannerEmitExec_of_some unknown eventFn (eventFn_emitted unknown eventFn userData done)]
      apply (PidMap.len_reaching_le unknown _ _).trans
      rw [(offset_bit pid.toNat).1]
      omega

/-- Among pids that are not negative, a pid is one of some if and only if it is so as an offset. -/
theorem toNat_mem_map_toNat
    {pids : List Pid}
    {pid : Pid}
    (nonneg : ∀ other ∈ pids ++ [pid], 0 ≤ other) :
    pid.toNat ∈ pids.map Int.toNat ↔ pid ∈ pids := by
  constructor
  · intro member
    obtain ⟨other, isOther, same⟩ := List.mem_map.mp member
    have otherNonneg := nonneg other (List.mem_append_left _ isOther)
    have pidNonneg := nonneg pid (List.mem_append_right _ (List.mem_singleton_self pid))
    have equal : other = pid := by
      rw [← Int.toNat_of_nonneg otherNonneg, same, Int.toNat_of_nonneg pidNonneg]
    exact equal ▸ isOther
  · exact List.mem_map_of_mem

/-- Behind any calls, `was_known_pid` tells whether the pid was in one of them, and a call runs
the event function if it was in none. -/
theorem emitted_iff_first
    {done : List Pid}
    {pid : Pid}
    (nonneg : ∀ other ∈ done ++ [pid], 0 ≤ other) :
    (wasKnownPid unknown (emitted unknown eventFn userData done).map pid.toNat).1 =
        decide (pid ∈ done) ∧
      (emitted unknown eventFn userData (done ++ [pid])).userData =
        if pid ∈ done then (emitted unknown eventFn userData done).userData
        else eventFn pid (emitted unknown eventFn userData done).userData := by
  have known : (emitted unknown eventFn userData done).map.Knows pid.toNat ↔ pid ∈ done :=
    (knows_emitted unknown eventFn userData pid.toNat).trans (toNat_mem_map_toNat nonneg)
  constructor
  · rw [wasKnownPid_fst]
    exact decide_eq_decide.mpr known
  · rw [emitted_append_singleton,
      pidScannerEmitExec_of_some unknown eventFn (eventFn_emitted unknown eventFn userData done)]
    exact if_congr known rfl rfl

end Events

/-- A small pid, a large one that makes the map grow, and the small one again. -/
theorem emitted_iff_first_third :
    (wasKnownPid (fun _ => 255)
        (emitted (fun _ => 255) (fun pid events => events ++ [pid]) [] [1, 70000]).map 1).1 = true ∧
      (emitted (fun _ => 255) (fun pid events => events ++ [pid]) []
          ([1, 70000] ++ [1])).userData =
        (emitted (fun _ => 255) (fun pid events => events ++ [pid]) [] [1, 70000]).userData := by
  have first := emitted_iff_first (fun _ => 255) (fun pid (events : List Pid) => events ++ [pid])
    [] (by simp : ∀ other ∈ [1, 70000] ++ [(1 : Pid)], 0 ≤ other)
  rw [if_pos (by simp), decide_eq_true (by simp)] at first
  exact first

end Collector
end Bootchart
