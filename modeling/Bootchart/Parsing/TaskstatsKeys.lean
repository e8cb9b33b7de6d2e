import Bootchart.Library.Run
import Bootchart.Parsing.TaskstatsLine

/-!
# The keys of processes

Each change of name moves the key of a pid on by one, and nothing keeps it from
reaching the keys of the next pid. The processes stay apart if and only if no
change of name meets an occupied key and no sample is put under a key of another
pid; this is the case as long as no pid changes its name a thousand times.
-/

namespace Bootchart
namespace Parsing

open Library (Text Dict)

/-- A record with the time of its frame. -/
abbrev TimedRecord := Int × TaskstatRecord

/-- The records of a log, in order. -/
def timedRecords (frames : List (Int × List TaskstatRecord)) : List TimedRecord :=
  frames.flatMap fun frame => frame.2.map fun record => (frame.1, record)

/-- The state after a line. -/
def TaskstatState.next (state : TaskstatState) (line : TimedRecord) : TaskstatState :=
  state.step line.1 line.2

/-- The state after some lines. -/
def afterLines (done : List TimedRecord) : TaskstatState :=
  done.foldl TaskstatState.next .init

/-- The state after one more line. -/
theorem afterLines_concat (done : List TimedRecord) (line : TimedRecord) :
    afterLines (done ++ [line]) = (afterLines done).next line := by
  simp [afterLines]

/-- The loops over frames and lines are one loop over all lines. -/
theorem runTaskstats_eq (frames : List (Int × List TaskstatRecord)) :
    runTaskstats frames = afterLines (timedRecords frames) := by
  rw [runTaskstats, afterLines, timedRecords, List.foldl_flatMap]
  congr
  funext state frame
  rw [List.foldl_map]
  rfl

/-! ## What a line does -/

namespace TaskstatState

variable {state : TaskstatState} {line : TimedRecord}

/-- The key a line starts from. -/
def keyOf (state : TaskstatState) (line : TimedRecord) : Int :=
  state.currentKey line.2.opid

/-- The line is about a process under another name. -/
def Renames (state : TaskstatState) (line : TimedRecord) : Prop :=
  ∃ entry, state.processMap.get? (state.keyOf line) = some entry ∧
    entry.process.cmd ≠ line.2.cmd

/-- The key a line ends at. -/
def keyAfter (state : TaskstatState) (line : TimedRecord) : Int :=
  (state.lookUp line.1 line.2).1

/-- The process a line is applied to. -/
def target (state : TaskstatState) (line : TimedRecord) : Entry :=
  (state.lookUp line.1 line.2).2.1

/-- The process a line is applied to, with the line applied. -/
def advanced (state : TaskstatState) (line : TimedRecord) : Entry :=
  (state.target line).advance line.1 line.2

/-- What a line does. -/
inductive Effect (state : TaskstatState) (line : TimedRecord) : Prop
  /-- The pid has no process yet; one is created. -/
  | created
      (absent : state.processMap.get? (state.keyOf line) = none)
      (keyAfter : state.keyAfter line = state.keyOf line)
      (target : state.target line = Entry.create line.1 (state.keyOf line) line.2)
      (next : state.next line =
        { state with
          processMap :=
            state.processMap.set (state.keyOf line) (state.advanced line) })
  /-- The process of the pid has the name of the line. -/
  | continued
      (entry : Entry)
      (present : state.processMap.get? (state.keyOf line) = some entry)
      (same : entry.process.cmd = line.2.cmd)
      (keyAfter : state.keyAfter line = state.keyOf line)
      (target : state.target line = entry)
      (next : state.next line =
        { state with
          processMap :=
            state.processMap.set (state.keyOf line) (state.advanced line) })
  /-- The process of the pid has another name; it is split. -/
  | renamed
      (entry : Entry)
      (present : state.processMap.get? (state.keyOf line) = some entry)
      (different : entry.process.cmd ≠ line.2.cmd)
      (keyAfter : state.keyAfter line = state.keyOf line + 1)
      (target : state.target line =
        entry.split line.1 (state.keyOf line + 1) line.2)
      (next : state.next line =
        { processMap :=
            state.processMap.set (state.keyOf line + 1) (state.advanced line)
          pidRewrites :=
            state.pidRewrites.set (line.2.opid * 1000) (state.keyOf line + 1)
          overwritten := state.overwritten ++
            (state.processMap.get? (state.keyOf line + 1)).toList })

/-- A line does one of the three. -/
theorem effect (state : TaskstatState) (line : TimedRecord) : state.Effect line := by
  cases present : state.processMap.get? (state.keyOf line) with
  | none =>
      have lookedUp : state.lookUp line.1 line.2 =
          (state.keyOf line, Entry.create line.1 (state.keyOf line) line.2,
            state.put (state.keyOf line)
              (Entry.create line.1 (state.keyOf line) line.2)) := by
        unfold keyOf at present
        simp only [lookUp, keyOf, present]
      refine .created present ?_ ?_ ?_
      · rw [TaskstatState.keyAfter, lookedUp]
      · rw [TaskstatState.target, lookedUp]
      · simp [TaskstatState.next, step, advanced, TaskstatState.target, lookedUp, put,
          present]
  | some entry =>
      by_cases same : entry.process.cmd = line.2.cmd
      · have lookedUp : state.lookUp line.1 line.2 =
            (state.keyOf line, entry, state) := by
          unfold keyOf at present
          simp [lookUp, keyOf, present, same]
        refine .continued entry present same ?_ ?_ ?_
        · rw [TaskstatState.keyAfter, lookedUp]
        · rw [TaskstatState.target, lookedUp]
        · simp only [TaskstatState.next, step, advanced, TaskstatState.target, lookedUp]
      · have lookedUp : state.lookUp line.1 line.2 =
            (state.keyOf line + 1, entry.split line.1 (state.keyOf line + 1) line.2,
              { state with
                pidRewrites := state.pidRewrites.set (line.2.opid * 1000)
                  (state.keyOf line + 1) }.put (state.keyOf line + 1)
                    (entry.split line.1 (state.keyOf line + 1) line.2)) := by
          unfold keyOf at present
          simp only [lookUp, keyOf, present, ne_eq, same, not_false_eq_true, if_true]
        refine .renamed entry present same ?_ ?_ ?_
        · rw [TaskstatState.keyAfter, lookedUp]
        · rw [TaskstatState.target, lookedUp]
        · simp only [TaskstatState.next, step, advanced, TaskstatState.target, lookedUp,
            put, Dict.set_set]

/-- Every line puts the process it is applied to under the key it ends at. -/
theorem processMap_next (state : TaskstatState) (line : TimedRecord) :
    (state.next line).processMap =
      state.processMap.set (state.keyAfter line) (state.advanced line) := by
  cases state.effect line with
  | created _ keyAfter _ next => rw [next, keyAfter]
  | continued _ _ _ keyAfter _ next => rw [next, keyAfter]
  | renamed _ _ _ keyAfter _ next => rw [next, keyAfter]

end TaskstatState

/-! ## Processes kept apart -/

/-- All processes are in the map, and the samples of a process come from lines
about the pid its key stands for. -/
structure KeptApart (state : TaskstatState) : Prop where
  /-- No process was overwritten. -/
  inMap : state.overwritten = []
  /-- A sample comes from a line about the pid `key // 1000`. -/
  sources : ∀ key entry, state.processMap.get? key = some entry →
    ∀ pid ∈ entry.sources, pid = key / 1000

/-- A line keeps the processes apart. -/
structure StaysApart (state : TaskstatState) (line : TimedRecord) : Prop where
  /-- A change of name finds the next key vacant. -/
  vacant : state.Renames line →
    state.processMap.get? (state.keyOf line + 1) = none
  /-- A sample is put under a key below those of the next pid. -/
  below : (taskstatSample line.1 (state.target line).process line.2).isSome →
    state.keyAfter line < (line.2.opid + 1) * 1000

variable {state : TaskstatState} {line : TimedRecord}

/-- The key of a pid starts at the pid in fixed point. -/
def TaskstatState.KeysStart (state : TaskstatState) : Prop :=
  ∀ opid, opid * 1000 ≤ state.currentKey opid

/-- The key of a pid after a line. -/
theorem currentKey_next (opid : Int) :
    (state.next line).currentKey opid =
      if opid = line.2.opid then state.keyAfter line else state.currentKey opid := by
  cases state.effect line with
  | created _ keyAfter _ next =>
      split
      next same => rw [next, keyAfter, same]; rfl
      next => rw [next]; rfl
  | continued _ _ _ keyAfter _ next =>
      split
      next same => rw [next, keyAfter, same]; rfl
      next => rw [next]; rfl
  | renamed _ _ _ keyAfter _ next =>
      rw [next, TaskstatState.currentKey, Dict.get?_set, keyAfter]
      split
      next same => rw [if_pos (by omega)]; rfl
      next different => rw [if_neg (by omega)]; rfl

/-- The key of a line stays or moves on by one. -/
theorem keyAfter_cases (state : TaskstatState) (line : TimedRecord) :
    ¬state.Renames line ∧ state.keyAfter line = state.keyOf line ∨
      state.Renames line ∧ state.keyAfter line = state.keyOf line + 1 := by
  cases state.effect line with
  | created absent keyAfter _ _ =>
      exact Or.inl ⟨by simp [TaskstatState.Renames, absent], keyAfter⟩
  | continued entry present same keyAfter _ _ =>
      exact Or.inl ⟨by simp [TaskstatState.Renames, present, same], keyAfter⟩
  | renamed entry present different keyAfter _ _ =>
      exact Or.inr ⟨⟨entry, present, different⟩, keyAfter⟩

/-- Keys never move back. -/
theorem keyOf_le_keyAfter (state : TaskstatState) (line : TimedRecord) :
    state.keyOf line ≤ state.keyAfter line := by
  rcases keyAfter_cases state line with ⟨-, same⟩ | ⟨-, moved⟩ <;> omega

/-- The keys of all pids start at the pid. -/
theorem keysStart_next (start : state.KeysStart) : (state.next line).KeysStart := by
  intro opid
  rw [currentKey_next]
  split
  next same => exact same ▸ (start line.2.opid).trans (keyOf_le_keyAfter state line)
  next => exact start opid

/-- Where the samples come from after a line. -/
theorem mem_sources_advanced {pid : Int} :
    pid ∈ (state.advanced line).sources ↔
      pid ∈ (state.target line).sources ∨
        (taskstatSample line.1 (state.target line).process line.2).isSome ∧
          pid = line.2.opid := by
  cases sampled : taskstatSample line.1 (state.target line).process line.2 <;>
    simp [TaskstatState.advanced, Entry.advance, sampled]

/-- No process is overwritten by a line if none was before and a change of name
finds the next key vacant. -/
theorem overwritten_next :
    (state.next line).overwritten = [] ↔ state.overwritten = [] ∧
      (state.Renames line → state.processMap.get? (state.keyOf line + 1) = none) := by
  cases state.effect line with
  | created absent _ _ next => simp [next, TaskstatState.Renames, absent]
  | continued entry present same _ _ next =>
      simp [next, TaskstatState.Renames, present, same]
  | renamed entry present different _ _ next =>
      simp [next, TaskstatState.Renames, present, different]

/-- A change of name makes a process for the pid of the line. -/
theorem madeFor_target (renames : state.Renames line) :
    (state.target line).madeFor = line.2.opid := by
  obtain ⟨entry, present, different⟩ := renames
  cases state.effect line with
  | created absent _ _ _ => exact nomatch absent.symm.trans present
  | continued other isOther same _ _ _ =>
      obtain rfl := Option.some.inj (present.symm.trans isOther)
      exact absurd same different
  | renamed _ _ _ _ target _ =>
      rw [target]
      rfl

/-- The process a line is applied to has samples only if it is in the map. -/
theorem get?_target {pid : Int} (sampled : pid ∈ (state.target line).sources) :
    state.processMap.get? (state.keyAfter line) = some (state.target line) := by
  cases state.effect line with
  | created _ _ target _ => simp [target, Entry.create] at sampled
  | continued entry present _ keyAfter target _ => rw [keyAfter, target, present]
  | renamed entry _ _ _ target _ => simp [target, Entry.split] at sampled

/-- The process replaced by a line keeps its samples, unless it is overwritten. -/
theorem target_of_get?
    (vacant : state.Renames line →
      state.processMap.get? (state.keyOf line + 1) = none)
    {entry : Entry}
    (present : state.processMap.get? (state.keyAfter line) = some entry) :
    state.target line = entry := by
  cases state.effect line with
  | created absent keyAfter _ _ =>
      rw [keyAfter, absent] at present
      exact nomatch present
  | continued other isOther _ keyAfter target _ =>
      rw [keyAfter, isOther] at present
      exact target.trans (Option.some.inj present)
  | renamed other isOther different keyAfter _ _ =>
      rw [keyAfter, vacant ⟨other, isOther, different⟩] at present
      exact nomatch present

/-- The processes are kept apart after a line if and only if they were before and
the line keeps them apart. -/
theorem keptApart_next (start : state.KeysStart) :
    KeptApart (state.next line) ↔ KeptApart state ∧ StaysApart state line := by
  have notBefore : line.2.opid * 1000 ≤ state.keyAfter line :=
    (start line.2.opid).trans (keyOf_le_keyAfter state line)
  constructor
  · rintro ⟨inMap, sources⟩
    obtain ⟨inMapBefore, vacant⟩ := overwritten_next.mp inMap
    rw [TaskstatState.processMap_next] at sources
    have advanced := sources _ _ (Dict.get?_set_self _ _ _)
    refine ⟨⟨inMapBefore, fun key entry present pid sampled => ?_⟩, vacant,
      fun appended => ?_⟩
    · by_cases here : key = state.keyAfter line
      · subst here
        obtain rfl := target_of_get? vacant present
        exact advanced pid (mem_sources_advanced.mpr (Or.inl sampled))
      · exact sources key entry
          ((Dict.get?_set_of_ne here _ _).trans present) pid sampled
    · have ownKey := advanced _ (mem_sources_advanced.mpr (Or.inr ⟨appended, rfl⟩))
      omega
  · rintro ⟨⟨inMap, sources⟩, vacant, below⟩
    refine ⟨overwritten_next.mpr ⟨inMap, vacant⟩, fun key entry present pid sampled => ?_⟩
    rw [TaskstatState.processMap_next, Dict.get?_set] at present
    split at present
    next here =>
      obtain rfl := Option.some.inj present
      rw [here]
      rcases mem_sources_advanced.mp sampled with before | ⟨appended, rfl⟩
      · exact sources _ _ (get?_target before) pid before
      · have atMost := below appended
        omega
    next => exact sources key entry present pid sampled

/-- At the start the processes are apart. -/
theorem keptApart_init : KeptApart .init := by
  refine ⟨rfl, fun key entry present pid sampled => ?_⟩
  rw [TaskstatState.init, Dict.get?_set] at present
  split at present
  · obtain rfl := Option.some.inj present
    exact absurd sampled (by simp [initEntry])
  · simp at present

/-- The processes are kept apart if and only if every line keeps them apart. -/
theorem keptApart_iff_staysApart (frames : List (Int × List TaskstatRecord)) :
    KeptApart (runTaskstats frames) ↔
      ∀ done line, done ++ [line] <+: timedRecords frames →
        StaysApart (afterLines done) line := by
  have preserved : ∀ (state : TaskstatState) (line : TimedRecord),
      state.KeysStart → (state.next line).KeysStart := fun _ _ => keysStart_next
  have stepIff : ∀ (state : TaskstatState) (line : TimedRecord), state.KeysStart →
      (KeptApart (state.next line) ↔ KeptApart state ∧ StaysApart state line) :=
    fun _ _ => keptApart_next
  have initially : TaskstatState.init.KeysStart := fun _ => le_rfl
  rw [runTaskstats_eq]
  exact (Library.foldl_iff preserved stepIff initially _).trans
    (and_iff_right keptApart_init)

/-! ## Few changes of name -/

/-- How often two neighbours in a list differ. -/
def changes : List Text → Nat
  | first :: second :: rest =>
      (if first = second then 0 else 1) + changes (second :: rest)
  | _ => 0

/-- A last element differs from the one before or not. -/
theorem changes_concat (names : List Text) (name : Text) :
    changes (names ++ [name]) =
      changes names + if ∀ last ∈ names.getLast?, last = name then 0 else 1 := by
  induction names with
  | nil => rfl
  | cons first rest inductionHypothesis =>
      cases rest with
      | nil => simp [changes]
      | cons second rest =>
          simp only [List.cons_append, changes] at inductionHypothesis ⊢
          rw [inductionHypothesis]
          simp [Nat.add_assoc]

/-- The names logged for a pid, in order. -/
def loggedNames (opid : Int) (done : List TimedRecord) : List Text :=
  (done.filter (·.2.opid = opid)).map (·.2.cmd)

/-- The names of a pid, in order. The process 1 is called `[init]` at first. -/
def namesOf (opid : Int) (done : List TimedRecord) : List Text :=
  (if opid = 1 then [initEntry.process.cmd] else []) ++ loggedNames opid done

/-- A line adds its name to those of its pid. -/
theorem namesOf_concat (opid : Int) (done : List TimedRecord) (line : TimedRecord) :
    namesOf opid (done ++ [line]) =
      if line.2.opid = opid then namesOf opid done ++ [line.2.cmd]
      else namesOf opid done := by
  split
  next same => simp [namesOf, loggedNames, same]
  next different => simp [namesOf, loggedNames, different]

/-- How often a pid changes its name. -/
def nameChanges (opid : Int) (done : List TimedRecord) : Nat :=
  changes (namesOf opid done)

/-- What holds as long as no pid changes its name a thousand times. -/
structure Regular (done : List TimedRecord) (state : TaskstatState) : Prop where
  /-- No process was overwritten. -/
  inMap : state.overwritten = []
  /-- The key of a pid moves on by one at each change. -/
  currentKey : ∀ opid, state.currentKey opid = opid * 1000 + nameChanges opid done
  /-- Under the key of a pid is a process with its last name. -/
  current : ∀ opid name, (namesOf opid done).getLast? = some name →
    ∃ entry, state.processMap.get? (state.currentKey opid) = some entry ∧
      entry.process.cmd = name
  /-- The keys from a pid to its current key are those of its processes. -/
  ownKeys : ∀ key entry, state.processMap.get? key = some entry →
    namesOf (key / 1000) done ≠ [] ∧ key ≤ state.currentKey (key / 1000) ∧
      entry.madeFor = key / 1000 ∧ ∀ pid ∈ entry.sources, pid = key / 1000

/-- The start is regular. -/
theorem regular_init : Regular [] .init := by
  have only : ∀ key entry, TaskstatState.init.processMap.get? key = some entry →
      key = 1000 ∧ entry = initEntry := by
    intro key entry present
    rw [TaskstatState.init, Dict.get?_set] at present
    split at present
    next here => exact ⟨here, (Option.some.inj present).symm⟩
    next => simp at present
  refine ⟨rfl, fun opid => ?_, fun opid name isLast => ?_, fun key entry present => ?_⟩
  · by_cases isInit : opid = 1 <;>
      simp [nameChanges, namesOf, loggedNames, isInit, changes,
        TaskstatState.currentKey, TaskstatState.init]
  · by_cases isInit : opid = 1
    · subst isInit
      exact ⟨initEntry, rfl, by simpa [namesOf, loggedNames] using isLast⟩
    · simp [namesOf, loggedNames, isInit] at isLast
  · obtain ⟨rfl, rfl⟩ := only key entry present
    exact ⟨by decide, by decide, by decide, by simp [initEntry]⟩

section Step

variable {done : List TimedRecord}

/-- The names of the pid of a line, after the line. -/
theorem namesOf_self : namesOf line.2.opid (done ++ [line]) =
    namesOf line.2.opid done ++ [line.2.cmd] := by
  rw [namesOf_concat, if_pos rfl]

/-- The names of another pid, after the line. -/
theorem namesOf_of_ne {opid : Int} (different : opid ≠ line.2.opid) :
    namesOf opid (done ++ [line]) = namesOf opid done := by
  rw [namesOf_concat, if_neg different.symm]

/-- Names do not change less often as lines are added. -/
theorem nameChanges_le (opid : Int) :
    nameChanges opid done ≤ nameChanges opid (done ++ [line]) := by
  rw [nameChanges, nameChanges, namesOf_concat]
  split
  · rw [changes_concat]
    exact Nat.le_add_right _ _
  · exact le_rfl

/-- The changes of name of the pid of a line, after the line. -/
theorem nameChanges_self :
    nameChanges line.2.opid (done ++ [line]) =
      nameChanges line.2.opid done +
        if ∀ last ∈ (namesOf line.2.opid done).getLast?, last = line.2.cmd then 0
        else 1 := by
  rw [nameChanges, namesOf_self, changes_concat]
  rfl

namespace Regular

variable (regular : Regular done state)
include regular

/-- The current key belongs to its pid if there are few changes of name. -/
theorem currentKey_div {opid : Int} (few : nameChanges opid done < 1000) :
    state.currentKey opid / 1000 = opid := by
  have key := regular.currentKey opid
  omega

/-- The process under the current key has the last name. -/
theorem cmd_of_get?
    {opid : Int}
    (few : nameChanges opid done < 1000)
    {entry : Entry}
    (present : state.processMap.get? (state.currentKey opid) = some entry) :
    (namesOf opid done).getLast? = some entry.process.cmd := by
  obtain ⟨named, -⟩ := regular.ownKeys _ entry present
  rw [regular.currentKey_div few] at named
  have isLast := List.getLast?_eq_some_getLast named
  obtain ⟨same, isSame, cmd⟩ := regular.current _ _ isLast
  obtain rfl : entry = same := Option.some.inj (present.symm.trans isSame)
  rw [isLast, cmd]

/-- A line changes the name of its pid if its name is not the last one. -/
theorem renames_iff (few : nameChanges line.2.opid done < 1000) :
    state.Renames line ↔
      ¬∀ last ∈ (namesOf line.2.opid done).getLast?, last = line.2.cmd := by
  constructor
  · rintro ⟨entry, present, different⟩ allSame
    exact different (allSame _ (regular.cmd_of_get? few present))
  · intro notAll
    obtain ⟨last, isLast, different⟩ : ∃ last,
        (namesOf line.2.opid done).getLast? = some last ∧ last ≠ line.2.cmd := by
      simpa using notAll
    obtain ⟨entry, present, same⟩ := regular.current _ last isLast
    exact ⟨entry, present, same ▸ different⟩

/-- The key of a line moves on as the name changes. -/
theorem keyAfter_eq (few : nameChanges line.2.opid done < 1000) :
    state.keyAfter line =
      line.2.opid * 1000 + nameChanges line.2.opid (done ++ [line]) := by
  have key : state.keyOf line = _ := regular.currentKey line.2.opid
  rw [nameChanges_self]
  rcases keyAfter_cases state line with ⟨kept, after⟩ | ⟨renamed, after⟩
  · rw [if_pos (not_not.mp (mt (regular.renames_iff few).mpr kept)), after, key]
    rfl
  · rw [if_neg ((regular.renames_iff few).mp renamed), after, key]
    push_cast
    exact add_assoc _ _ _

/-- A change of name finds the next key vacant. -/
theorem vacant
    (few : nameChanges line.2.opid (done ++ [line]) < 1000)
    (renamed : state.Renames line) :
    state.processMap.get? (state.keyOf line + 1) = none := by
  rw [Option.eq_none_iff_forall_ne_some]
  intro entry present
  have before : nameChanges line.2.opid done < 1000 :=
    Nat.lt_of_le_of_lt (nameChanges_le _) few
  have key : state.keyOf line = _ := regular.currentKey line.2.opid
  have more : nameChanges line.2.opid (done ++ [line]) = _ := nameChanges_self
  rw [if_neg ((regular.renames_iff before).mp renamed)] at more
  obtain ⟨-, atMost, -, -⟩ := regular.ownKeys _ entry present
  have ownPid : (state.keyOf line + 1) / 1000 = line.2.opid := by omega
  rw [ownPid] at atMost
  exact absurd atMost (not_le.mpr (Int.lt_succ _))

/-- The process a line is applied to was made for its pid and has its samples. -/
theorem target_own (few : nameChanges line.2.opid done < 1000) :
    (state.target line).madeFor = line.2.opid ∧
      ∀ pid ∈ (state.target line).sources, pid = line.2.opid := by
  cases state.effect line with
  | created _ _ target _ => simp [target, Entry.create]
  | continued entry present _ _ target _ =>
      have own := (regular.ownKeys _ entry present).2.2
      rw [TaskstatState.keyOf, regular.currentKey_div few] at own
      rwa [target]
  | renamed entry _ _ _ target _ => simp [target, Entry.split]

end Regular

/-- The process a line is applied to has the name of the line. -/
theorem cmd_advanced (state : TaskstatState) (line : TimedRecord) :
    (state.advanced line).process.cmd = line.2.cmd := by
  unfold TaskstatState.advanced
  cases state.effect line with
  | created _ _ target _ => rw [target]; rfl
  | continued entry _ same _ target _ => rw [target]; exact same
  | renamed entry _ _ _ target _ => rw [target]; rfl

/-- A line keeps a state regular if no pid has changed its name a thousand times. -/
theorem Regular.next
    (regular : Regular done state)
    (few : ∀ opid, nameChanges opid (done ++ [line]) < 1000) :
    Regular (done ++ [line]) (state.next line) := by
  have before : ∀ opid, nameChanges opid done < 1000 := fun opid =>
    Nat.lt_of_le_of_lt (nameChanges_le opid) (few opid)
  have moved := regular.keyAfter_eq (before line.2.opid)
  have fewHere := few line.2.opid
  have ownPid : state.keyAfter line / 1000 = line.2.opid := by omega
  refine ⟨?_, fun opid => ?_, fun opid name isLast => ?_, fun key entry present => ?_⟩
  · exact overwritten_next.mpr ⟨regular.inMap, regular.vacant fewHere⟩
  · rw [currentKey_next]
    split
    next same => rw [same, moved]
    next different =>
      rw [regular.currentKey, nameChanges, nameChanges, namesOf_of_ne different]
  · rw [currentKey_next, TaskstatState.processMap_next]
    split
    next same =>
      subst same
      rw [namesOf_self, List.getLast?_concat] at isLast
      exact ⟨_, Dict.get?_set_self _ _ _,
        (cmd_advanced state line).trans (Option.some.inj isLast)⟩
    next different =>
      rw [namesOf_of_ne different] at isLast
      have otherPid := regular.currentKey_div (before opid)
      rw [Dict.get?_set_of_ne (by omega)]
      exact regular.current opid name isLast
  · rw [TaskstatState.processMap_next, Dict.get?_set] at present
    rw [currentKey_next]
    split at present
    next here =>
      obtain rfl := Option.some.inj present
      obtain ⟨madeFor, sources⟩ := regular.target_own (before line.2.opid)
      rw [here, ownPid, if_pos rfl, namesOf_self]
      refine ⟨by simp, le_rfl, madeFor, fun pid sampled => ?_⟩
      rcases mem_sources_advanced.mp sampled with inTarget | ⟨-, same⟩
      · exact sources pid inTarget
      · exact same
    next =>
      obtain ⟨named, atMost, own⟩ := regular.ownKeys key entry present
      refine ⟨?_, ?_, own⟩
      · rw [namesOf_concat]
        split <;> simp [named]
      · split
        next same =>
          rw [same] at atMost
          exact atMost.trans (keyOf_le_keyAfter state line)
        next => exact atMost

end Step

/-- A run in which no pid changes its name a thousand times is regular. -/
theorem regular_afterLines
    {done : List TimedRecord}
    (few : ∀ opid, nameChanges opid done < 1000) :
    Regular done (afterLines done) := by
  induction done using List.reverseRecOn with
  | nil => exact regular_init
  | append_singleton done line inductionHypothesis =>
      rw [afterLines_concat]
      exact (inductionHypothesis fun opid =>
        Nat.lt_of_le_of_lt (nameChanges_le opid) (few opid)).next few

/-- The processes are kept apart as long as no pid changes its name a thousand
times. -/
theorem Regular.keptApart
    {done : List TimedRecord}
    {state : TaskstatState}
    (regular : Regular done state) : KeptApart state :=
  ⟨regular.inMap, fun key entry present =>
    (regular.ownKeys key entry present).2.2.2⟩

/-! ## A thousand changes of name -/

/-- A line about the process 2. -/
def neighbour (total : BitVec 64) : Collector.Taskstats × Collector.Pid :=
  ({ acPid := 2
     acPpid := 1
     acComm := Library.Utf8.encode ['c']
     cpuRunRealTotal := total
     blkioDelayTotal := 0
     swapinDelayTotal := 0 }, 1)

/-- The names the process 1 takes in turn. -/
def turn (index : Nat) : Text :=
  if index % 2 = 0 then ['a'] else ['b']

/-- A line about the process 1. -/
def churning (index : Nat) : Collector.Taskstats × Collector.Pid :=
  ({ acPid := 1
     acPpid := 0
     acComm := Library.Utf8.encode (turn index)
     cpuRunRealTotal := 3
     blkioDelayTotal := 0
     swapinDelayTotal := 0 }, 0)

/-- A log in which the process 1 keeps changing its name, in each frame once. -/
def churnLog (count : Nat) : List (Int × List (Collector.Taskstats × Collector.Pid)) :=
  (1, [neighbour 5]) ::
    (List.range count).map fun (index : Nat) => ((index : Int) + 2, [churning index])

/-- What is read of a line about the process 1. -/
def churnLine (index : Nat) : TimedRecord :=
  ((index : Int) + 2,
    { opid := 1, ppid := 0, cmd := turn index, cpuNs := 3, blkioDelayNs := 0,
      swapinDelayNs := 0 })

/-- What is read of a line about the process 2. -/
def neighbourLine (time total : Int) : TimedRecord :=
  (time,
    { opid := 2, ppid := 1, cmd := ['c'], cpuNs := total, blkioDelayNs := 0,
      swapinDelayNs := 0 })

/-- What is read of the log. -/
def churnLines (count : Nat) : List TimedRecord :=
  neighbourLine 1 5 :: (List.range count).map churnLine

/-- One more line of the process 1. -/
theorem churnLines_succ (count : Nat) :
    churnLines (count + 1) = churnLines count ++ [churnLine count] := by
  simp [churnLines, List.range_succ]

/-- A name is read as it was written. -/
theorem readFrame_singleton
    (time : Int)
    (sample : Collector.Taskstats × Collector.Pid)
    (name : Text)
    (encoded : Library.Utf8.encode name = sample.1.acComm)
    (noSpace : ' ' ∉ name) :
    readFrame (time, [sample]) = (time, [lineRecord sample name]) := by
  have isName : nameOf sample = name := by
    rw [nameOf, Library.Utf8.decode_eq_some.mpr encoded]
    rfl
  simp [readFrame, isName, noSpace]

/-- The lines of the log. -/
theorem timedRecords_churnLog (count : Nat) :
    timedRecords ((churnLog count).map readFrame) = churnLines count := by
  have turnRead : ∀ index : Nat, readFrame ((index : Int) + 2, [churning index]) =
      ((index : Int) + 2, [(churnLine index).2]) := by
    intro index
    rw [readFrame_singleton _ _ (turn index) rfl (by unfold turn; split <;> decide)]
    have record : lineRecord (churning index) (turn index) = (churnLine index).2 := by
      unfold churning churnLine turn
      split <;> rfl
    rw [record]
  have first : readFrame (1, [neighbour 5]) = (1, [(neighbourLine 1 5).2]) := by
    rw [readFrame_singleton _ _ ['c'] rfl (by decide)]
    rfl
  simp only [churnLog, List.map_cons, List.map_map, timedRecords, List.flatMap_cons,
    first, churnLines, List.flatMap_map, Function.comp_apply, turnRead, List.map_nil]
  rw [List.map_eq_flatMap]
  rfl

/-- The samples of the log can be written, and their names are UTF-8. -/
theorem writable_churnLog (count : Nat) :
    ∀ frame ∈ churnLog count, ∀ sample ∈ frame.2, Writable sample.1 ∧
      Library.Utf8.decode sample.1.acComm = some (nameOf sample) := by
  have decoded : ∀ (sample : Collector.Taskstats × Collector.Pid) (name : Text),
      Library.Utf8.encode name = sample.1.acComm →
        Library.Utf8.decode sample.1.acComm = some (nameOf sample) := by
    intro sample name encoded
    rw [nameOf, Library.Utf8.decode_eq_some.mpr encoded]
    rfl
  intro frame inLog sample inFrame
  rcases List.mem_cons.mp inLog with rfl | inRest
  · obtain rfl := List.mem_singleton.mp inFrame
    exact ⟨⟨by decide, by decide, by decide, by decide, by decide, by decide⟩,
      decoded _ ['c'] rfl⟩
  · obtain ⟨index, -, rfl⟩ := List.mem_map.mp inRest
    obtain rfl := List.mem_singleton.mp inFrame
    refine ⟨?_, decoded _ (turn index) rfl⟩
    unfold churning turn
    split <;> exact ⟨by decide, by decide, by decide, by decide, by decide, by decide⟩

/-- The log is read. -/
theorem taskstatRecords_churnLog (count : Nat) :
    taskstatRecords (taskstatLog (churnLog count)) =
      .ok ((churnLog count).map readFrame) :=
  taskstatRecords_eq
    (fun frame inLog sample inFrame =>
      (writable_churnLog count frame inLog sample inFrame).1)
    fun frame inLog sample inFrame =>
      (writable_churnLog count frame inLog sample inFrame).2

/-- The names the process 1 has had end with the one of the last line. -/
theorem getLast?_namesOf_churnLines (count : Nat) :
    ∃ last, (namesOf 1 (churnLines count)).getLast? = some last ∧
      last ≠ (churnLine count).2.cmd := by
  cases count with
  | zero => exact ⟨initEntry.process.cmd, rfl, by decide⟩
  | succ count =>
      refine ⟨(churnLine count).2.cmd, ?_, ?_⟩
      · rw [churnLines_succ]
        change (namesOf (churnLine count).2.opid _).getLast? = _
        rw [namesOf_self, List.getLast?_concat]
      · simp only [churnLine, turn]
        rcases Nat.mod_two_eq_zero_or_one count with even | odd
        · rw [if_pos even, if_neg (by omega)]
          decide
        · rw [if_neg (by omega), if_pos (by omega)]
          decide

/-- The process 1 changes its name with each line. -/
theorem nameChanges_churnLines (count : Nat) :
    nameChanges 1 (churnLines count) = count := by
  induction count with
  | zero => rfl
  | succ count inductionHypothesis =>
      obtain ⟨last, isLast, different⟩ := getLast?_namesOf_churnLines count
      have more : nameChanges (churnLine count).2.opid
          (churnLines count ++ [churnLine count]) = _ := nameChanges_self
      have notAll : ¬∀ last ∈ (namesOf (churnLine count).2.opid
          (churnLines count)).getLast?, last = (churnLine count).2.cmd :=
        fun all => different (all last isLast)
      rw [if_neg notAll, ← churnLines_succ] at more
      exact more.trans (congrArg (· + 1) inductionHypothesis)

/-- The other processes do not. -/
theorem namesOf_churnLines {opid : Int} (other : opid ≠ 1) (count : Nat) :
    namesOf opid (churnLines count) = if opid = 2 then [['c']] else [] := by
  induction count with
  | zero =>
      by_cases second : opid = 2
      · subst second
        rfl
      · simp [namesOf, loggedNames, churnLines, neighbourLine, other, second,
          Ne.symm second]
  | succ count inductionHypothesis =>
      rw [churnLines_succ, namesOf_of_ne other, inductionHypothesis]

/-- Before the thousandth change of name there were few. -/
theorem nameChanges_churnLines_lt {count : Nat} (few : count < 1000) (opid : Int) :
    nameChanges opid (churnLines count) < 1000 := by
  by_cases first : opid = 1
  · rw [first, nameChanges_churnLines]
    exact few
  · rw [nameChanges, namesOf_churnLines first]
    split <;> simp [changes]

/-- The log is regular before the thousandth change of name. -/
theorem regular_churnLines : Regular (churnLines 999) (afterLines (churnLines 999)) :=
  regular_afterLines (nameChanges_churnLines_lt (by decide))

/-- The thousandth change of name of the process 1 leads to the key of the
process 2. -/
theorem churn_key :
    (afterLines (churnLines 999)).keyOf (churnLine 999) + 1 =
      (afterLines (churnLines 999)).currentKey 2 := by
  have regular := regular_churnLines
  have key : (afterLines (churnLines 999)).keyOf (churnLine 999) = _ :=
    regular.currentKey 1
  rw [key, regular.currentKey 2, nameChanges_churnLines, nameChanges,
    namesOf_churnLines (by decide)]
  rfl

/-- It is a change of name. -/
theorem churn_renames : (afterLines (churnLines 999)).Renames (churnLine 999) := by
  obtain ⟨last, isLast, different⟩ := getLast?_namesOf_churnLines 999
  exact (regular_churnLines.renames_iff (nameChanges_churnLines_lt (by decide) _)).mpr
    fun all => different (all last isLast)

/-- In a log the collector can write, a process is overwritten. -/
theorem not_keptApart_churnLog :
    (∀ frame ∈ churnLog 1000, ∀ sample ∈ frame.2, Writable sample.1) ∧
      ∃ frames, taskstatRecords (taskstatLog (churnLog 1000)) = .ok frames ∧
        ¬KeptApart (runTaskstats frames) := by
  refine ⟨fun frame inLog sample inFrame =>
    (writable_churnLog _ frame inLog sample inFrame).1, _,
    taskstatRecords_churnLog 1000, fun keptApart => ?_⟩
  rw [runTaskstats_eq, timedRecords_churnLog, churnLines_succ, afterLines_concat]
    at keptApart
  have vacant := (overwritten_next.mp keptApart.inMap).2 churn_renames
  obtain ⟨entry, present, -⟩ := regular_churnLines.current
    2 ['c'] (by rw [namesOf_churnLines (by decide)]; rfl)
  rw [churn_key, present] at vacant
  exact nomatch vacant

end Parsing
end Bootchart
